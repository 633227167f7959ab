import Mathlib.Data.List.Basic

/-!
# Prefix codes

A code gives every letter of an alphabet a word. When no word begins another one, a word can be
taken off the front of a text in one way only, and so can a sequence of words with a mark behind
the last one.

## Main definitions

* `PrefixFree`: the words of a code can be told apart from what follows them.

## Main results

* `PrefixFree.of_read`: a code whose words can be read back is prefix free.
* `PrefixFree.terminated`: so are sequences of words that end with a mark.
-/

namespace ExecutionProvider

variable {α β : Type} {code : α → List β}

/-- The words of a code can be told apart from what follows them. -/
def PrefixFree (code : α → List β) : Prop :=
  ∀ ⦃a b : α⦄ ⦃r s : List β⦄, code a ++ r = code b ++ s → a = b ∧ r = s

/-- A code is prefix free when its words can be read back. -/
theorem PrefixFree.of_read {read : List β → Option (α × List β)}
    (h : ∀ a r, read (code a ++ r) = some (a, r)) : PrefixFree code := by
  intro a b r s heq
  have hread : some (a, r) = some (b, s) := by rw [← h a r, heq, h b s]
  exact Prod.mk.inj (Option.some.inj hread)

theorem PrefixFree.injective (h : PrefixFree code) : Function.Injective code := by
  intro a b hab
  exact (h (congrArg (· ++ []) hab)).1

/-- Sequences of words with a mark behind them, when no word begins with the mark. -/
theorem PrefixFree.terminated (h : PrefixFree code) {stop : β}
    (hstop : ∀ a, ∃ c cs, code a = c :: cs ∧ c ≠ stop) :
    PrefixFree fun letters : List α => letters.flatMap code ++ [stop] := by
  intro as
  induction as with
  | nil =>
    intro bs r s heq
    cases bs with
    | nil => exact ⟨rfl, by simpa using heq⟩
    | cons b bs =>
      obtain ⟨c, cs, hc, hne⟩ := hstop b
      dsimp only at heq
      rw [List.flatMap_cons, hc] at heq
      exact absurd (List.cons.inj heq).1.symm hne
  | cons a as ih =>
    intro bs r s heq
    cases bs with
    | nil =>
      obtain ⟨c, cs, hc, hne⟩ := hstop a
      dsimp only at heq
      rw [List.flatMap_cons, hc] at heq
      exact absurd (List.cons.inj heq).1 hne
    | cons b bs =>
      simp only [List.flatMap_cons, List.append_assoc] at heq
      obtain ⟨rfl, hrest⟩ := h heq
      obtain ⟨rfl, rfl⟩ := ih (by simpa only [List.append_assoc] using hrest)
      exact ⟨rfl, rfl⟩

end ExecutionProvider
