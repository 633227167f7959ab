import Mathlib.Data.List.Basic
import Mathlib.Data.List.Infix

/-!
# Occurrences of a list in another

A pattern occurs in a list at every position from which on the list begins with the pattern.
Occurrences may overlap. A search yields the first occurrence from a position on. Where a separator
does not occur in the parts of a list, the parts can be told apart.

## Main definitions

* `List.OccursAt`: an occurrence.
* `List.nextMatch`: the first occurrence from a position on.

## Main results

* `nextMatch_eq_some_iff`, `nextMatch_eq_none_iff`: what a search finds.
* `nextMatch_of_notMem`: a pattern is found behind elements among which its first one is not.
* `splitOn_flatMap_append_singleton`: parts that end in a separator are taken apart again.
-/

namespace List

variable {α : Type*} {pattern l : List α} {i start : ℕ}

/-- A pattern occurs in a list at a position. -/
def OccursAt (pattern l : List α) (i : ℕ) : Prop := pattern <+: l.drop i

/-- An occurrence lies inside the list. -/
theorem OccursAt.add_length_le (h : OccursAt pattern l i) (hne : pattern ≠ []) :
    i + pattern.length ≤ l.length := by
  have hpos := List.length_pos_iff.mpr hne
  have hle := h.length_le
  rw [length_drop] at hle
  omega

theorem OccursAt.take_eq (h : OccursAt pattern l i) :
    (l.drop i).take pattern.length = pattern := (prefix_iff_eq_take.mp h).symm

@[simp] theorem occursAt_nil (l : List α) (i : ℕ) : OccursAt [] l i := nil_prefix

/-- An occurrence, element by element. -/
theorem occursAt_cons {a : α} : OccursAt (a :: pattern) l i ↔
    l[i]? = some a ∧ OccursAt pattern l (i + 1) := by
  rw [OccursAt, OccursAt]
  by_cases hi : i < l.length
  · rw [drop_eq_getElem_cons hi, cons_prefix_cons, getElem?_eq_getElem hi, Option.some_inj,
      eq_comm]
  · rw [drop_eq_nil_of_le (Nat.not_lt.mp hi), getElem?_eq_none (Nat.not_lt.mp hi)]
    simp

section Search

variable [DecidableEq α]

instance (pattern l : List α) : DecidablePred (OccursAt pattern l) :=
  fun i => inferInstanceAs (Decidable (pattern <+: l.drop i))

/-- The first occurrence from a position on. -/
def nextMatch (pattern l : List α) (start : ℕ) : Option ℕ :=
  (range' start (l.length + 1 - start)).find? fun i => OccursAt pattern l i

theorem nextMatch_eq_some_iff (hne : pattern ≠ []) : nextMatch pattern l start = some i ↔
    start ≤ i ∧ OccursAt pattern l i ∧ ∀ j, start ≤ j → j < i → ¬OccursAt pattern l j := by
  rw [nextMatch, find?_range'_eq_some]
  constructor
  · rintro ⟨hoccurs, hmem, hfirst⟩
    refine ⟨(mem_range'_1.mp hmem).1, of_decide_eq_true hoccurs, fun j hj hlt hoccurs' => ?_⟩
    have hnot := hfirst j hj hlt
    rw [decide_eq_true hoccurs'] at hnot
    cases hnot
  · rintro ⟨hle, hoccurs, hfirst⟩
    have hlt := hoccurs.add_length_le hne
    refine ⟨decide_eq_true hoccurs, mem_range'_1.mpr ⟨hle, by omega⟩, fun j hj hlt => ?_⟩
    rw [decide_eq_false (hfirst j hj hlt)]
    rfl

theorem nextMatch_eq_none_iff (hne : pattern ≠ []) : nextMatch pattern l start = none ↔
    ∀ j, start ≤ j → ¬OccursAt pattern l j := by
  rw [nextMatch, find?_eq_none]
  constructor
  · intro h j hj hoccurs
    have hlt := hoccurs.add_length_le hne
    exact h j (mem_range'_1.mpr ⟨hj, by omega⟩) (decide_eq_true hoccurs)
  · intro h j hj hoccurs
    exact h j (mem_range'_1.mp hj).1 (of_decide_eq_true hoccurs)

/-- A pattern is found behind elements among which its first one is not. -/
theorem nextMatch_of_notMem {a : α} (h : a ∉ l) (r : List α) :
    nextMatch (a :: pattern) (l ++ (a :: pattern) ++ r) 0 = some l.length := by
  rw [nextMatch_eq_some_iff (cons_ne_nil a pattern), append_assoc]
  refine ⟨Nat.zero_le _, ?_, fun j _ hlt hoccurs => ?_⟩
  · rw [OccursAt, drop_left]
    exact prefix_append _ _
  · have hat := (occursAt_cons.mp hoccurs).1
    rw [getElem?_append_left hlt] at hat
    exact h (mem_of_getElem? hat)

end Search

/-! ### Separators -/

section Separators

variable [BEq α] [LawfulBEq α] {a : α}

/-- The first separator stands behind what contains none. -/
theorem idxOf?_append_cons (h : a ∉ l) (r : List α) : (l ++ a :: r).idxOf? a = some l.length := by
  rw [idxOf?_eq_some_iff]
  refine ⟨by simp, by simp, fun j hlt heq => h ?_⟩
  rw [getElem_append_left hlt] at heq
  exact heq ▸ getElem_mem hlt

/-- Parts that end in a separator are taken apart again. -/
theorem splitOn_flatMap_append_singleton {β : Type*} {f : β → List α} {parts : List β}
    (h : ∀ x ∈ parts, a ∉ f x) :
    (parts.flatMap fun x => f x ++ [a]).splitOn a = parts.map f ++ [[]] := by
  induction parts with
  | nil => exact splitOn_nil a
  | cons x parts ih =>
    rw [flatMap_cons, append_assoc, singleton_append, splitOn_append_cons_self,
      splitOn_eq_singleton (h x mem_cons_self), ih fun y hy => h y (mem_cons_of_mem x hy)]
    rfl

end Separators

end List
