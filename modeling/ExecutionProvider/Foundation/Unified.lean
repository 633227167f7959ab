import Mathlib.Data.List.Basic
import Mathlib.Data.List.Infix

/-!
# Unified hunks

A unified hunk changes one place of a list of lines. It says where the place is in the old and in
the new list, how many lines it has there, and which of them are kept, removed and added. A side
without lines is named by the line in front of it, and by zero at the beginning of the list.

Trimming the lines that two lists have in common at their beginnings and at their ends leaves one
place where they differ.

## Main definitions

* `Unified.Hunk`: a hunk.
* `Unified.Hunk.WellFormed`, `Unified.Hunk.apply`: the rules of the format, and what a hunk does.
* `commonPrefix`: the length of what two lists have in common at their beginnings.
* `Unified.trimmed`: how many lines lists have in common at their beginnings and at their ends.

## Main results

* `Unified.trimmed_eq_length_iff`: nothing is left of a list when the other one has it around a gap.
* `Unified.take_append_middle`: a list is made of the trimmed ends and of what is left of it.
-/

/-- The length of what two lists have in common at their beginnings. -/
def commonPrefix {α : Type*} [DecidableEq α] : List α → List α → ℕ
  | a :: l, b :: m => if a = b then commonPrefix l m + 1 else 0
  | _, _ => 0

section CommonPrefix

variable {α : Type*} [DecidableEq α] {l m : List α}

theorem commonPrefix_cons_cons (a b : α) (l m : List α) :
    commonPrefix (a :: l) (b :: m) = if a = b then commonPrefix l m + 1 else 0 := rfl

theorem commonPrefix_le_left : (l m : List α) → commonPrefix l m ≤ l.length
  | [], _ => Nat.zero_le _
  | _ :: _, [] => Nat.zero_le _
  | a :: l, b :: m => by
    rw [commonPrefix_cons_cons, List.length_cons]
    have hle := commonPrefix_le_left l m
    split_ifs <;> omega

theorem commonPrefix_comm : (l m : List α) → commonPrefix l m = commonPrefix m l
  | [], [] => rfl
  | [], _ :: _ => rfl
  | _ :: _, [] => rfl
  | a :: l, b :: m => by
    rw [commonPrefix_cons_cons, commonPrefix_cons_cons, commonPrefix_comm l m]
    by_cases h : a = b
    · rw [if_pos h, if_pos h.symm]
    · rw [if_neg h, if_neg (Ne.symm h)]

theorem take_commonPrefix : (l m : List α) →
    l.take (commonPrefix l m) = m.take (commonPrefix l m)
  | [], _ => rfl
  | _ :: _, [] => rfl
  | a :: l, b :: m => by
    rw [commonPrefix_cons_cons]
    split_ifs with h
    · rw [List.take_succ_cons, List.take_succ_cons, take_commonPrefix l m, h]
    · rfl

/-- Lists that begin alike have that beginning in common. -/
theorem length_le_commonPrefix : (x : List α) → (l m : List α) →
    x.length ≤ commonPrefix (x ++ l) (x ++ m)
  | [], _, _ => Nat.zero_le _
  | a :: x, l, m => by
    rw [List.cons_append, List.cons_append, commonPrefix_cons_cons, if_pos rfl, List.length_cons]
    exact Nat.succ_le_succ (length_le_commonPrefix x l m)

theorem commonPrefix_append (x l m : List α) :
    commonPrefix (x ++ l) (x ++ m) = x.length + commonPrefix l m := by
  induction x with
  | nil => rw [List.nil_append, List.nil_append, List.length_nil, Nat.zero_add]
  | cons a x ih =>
    rw [List.cons_append, List.cons_append, commonPrefix_cons_cons, if_pos rfl, ih,
      List.length_cons]
    omega

end CommonPrefix

namespace Unified

/-! ### Hunks -/

/-- What becomes of a line. -/
inductive Mark
  | kept
  | removed
  | added
deriving DecidableEq, Repr

/-- A hunk: where it begins in the old and in the new list, how many lines it has there, and its
lines. -/
structure Hunk (α : Type*) where
  oldStart : ℕ
  oldCount : ℕ
  newStart : ℕ
  newCount : ℕ
  lines : List (Mark × α)

/-- The number of lines in front of a side of a hunk. -/
def linesBefore (start count : ℕ) : ℕ := if count = 0 then start else start - 1

namespace Hunk

variable {α : Type*}

/-- The lines of the old list. -/
def oldLines (h : Hunk α) : List α := (h.lines.filter fun l => l.1 ≠ .added).map Prod.snd

/-- The lines of the new list. -/
def newLines (h : Hunk α) : List α := (h.lines.filter fun l => l.1 ≠ .removed).map Prod.snd

/-- The rules of the format: a hunk has as many lines as it says, a side with lines begins with a
line, and both sides have as many lines in front of them. -/
structure WellFormed (h : Hunk α) : Prop where
  oldCount : h.oldLines.length = h.oldCount
  newCount : h.newLines.length = h.newCount
  oldStart : h.oldCount ≠ 0 → h.oldStart ≠ 0
  newStart : h.newCount ≠ 0 → h.newStart ≠ 0
  before : linesBefore h.oldStart h.oldCount = linesBefore h.newStart h.newCount

/-- What a hunk makes of a list. It must find its old lines where it says they are. -/
def apply [DecidableEq α] (h : Hunk α) (old : List α) : Option (List α) :=
  let before := linesBefore h.oldStart h.oldCount
  if before + h.oldCount ≤ old.length ∧ (old.drop before).take h.oldCount = h.oldLines then
    some (old.take before ++ h.newLines ++ old.drop (before + h.oldCount))
  else none

end Hunk

/-! ### Trimming -/

section Trim

variable {α : Type*} [DecidableEq α] {old new : List α}

/-- How many lines lists have in common at their ends, behind those that they have in common at
their beginnings. -/
def commonSuffix (old new : List α) : ℕ :=
  commonPrefix (old.drop (commonPrefix old new)).reverse (new.drop (commonPrefix old new)).reverse

/-- How many lines lists have in common at their beginnings and at their ends. -/
def trimmed (old new : List α) : ℕ := commonPrefix old new + commonSuffix old new

/-- What is left of a list when its ends are trimmed. -/
def middle (l : List α) (before after : ℕ) : List α :=
  (l.drop before).take (l.length - before - after)

theorem trimmed_comm (old new : List α) : trimmed old new = trimmed new old := by
  rw [trimmed, trimmed, commonSuffix, commonSuffix, commonPrefix_comm new old,
    commonPrefix_comm (new.drop _).reverse]

theorem trimmed_le_left (old new : List α) : trimmed old new ≤ old.length := by
  have hprefix := commonPrefix_le_left old new
  have hsuffix := commonPrefix_le_left (old.drop (commonPrefix old new)).reverse
    (new.drop (commonPrefix old new)).reverse
  rw [List.length_reverse, List.length_drop] at hsuffix
  rw [trimmed, commonSuffix]
  omega

theorem commonPrefix_eq_length_of_prefix {l m : List α} (h : l <+: m) :
    commonPrefix l m = l.length := by
  obtain ⟨t, rfl⟩ := h
  have hle := length_le_commonPrefix l [] t
  rw [List.append_nil] at hle
  exact le_antisymm (commonPrefix_le_left _ _) hle

/-- Nothing is left of a list exactly when the other list has it around a gap. -/
theorem trimmed_eq_length_iff :
    trimmed old new = old.length ↔ ∃ x y z, old = x ++ z ∧ new = x ++ y ++ z := by
  constructor
  · intro h
    have hreverse := take_commonPrefix (old.drop (commonPrefix old new)).reverse
      (new.drop (commonPrefix old new)).reverse
    have hall : (old.drop (commonPrefix old new)).reverse <+:
        (new.drop (commonPrefix old new)).reverse := by
      rw [trimmed, commonSuffix] at h
      rw [List.take_of_length_le (by rw [List.length_reverse, List.length_drop]; omega)] at hreverse
      rw [hreverse]
      exact List.take_prefix _ _
    obtain ⟨y, hy⟩ := List.reverse_prefix.mp hall
    refine ⟨old.take (commonPrefix old new), y, old.drop (commonPrefix old new),
      (List.take_append_drop _ _).symm, ?_⟩
    rw [List.append_assoc, hy, take_commonPrefix, List.take_append_drop]
  · rintro ⟨x, y, z, rfl, rfl⟩
    rw [List.append_assoc, trimmed, commonSuffix, commonPrefix_append]
    have hdrop (l : List α) : (x ++ l).drop (x.length + commonPrefix z (y ++ z)) =
        l.drop (commonPrefix z (y ++ z)) := by
      rw [List.drop_append, List.drop_of_length_le (Nat.le_add_right _ _), List.nil_append,
        Nat.add_sub_cancel_left]
    have hle := commonPrefix_le_left z (y ++ z)
    have hsuffix :
        z.drop (commonPrefix z (y ++ z)) <:+ (y ++ z).drop (commonPrefix z (y ++ z)) := by
      refine List.suffix_of_suffix_length_le ((List.drop_suffix _ z).trans (List.suffix_append y z))
        (List.drop_suffix _ _) ?_
      rw [List.length_drop, List.length_drop, List.length_append]
      omega
    rw [hdrop, hdrop, commonPrefix_eq_length_of_prefix (List.reverse_prefix.mpr hsuffix),
      List.length_reverse, List.length_drop, List.length_append]
    omega

/-- A list, made of the ends of another one and of what is left of it. -/
theorem take_append_middle (old new : List α) :
    old.take (commonPrefix old new) ++ middle new (commonPrefix old new) (commonSuffix old new) ++
      old.drop (old.length - commonSuffix old new) = new := by
  have hreverse := take_commonPrefix (old.drop (commonPrefix old new)).reverse
    (new.drop (commonPrefix old new)).reverse
  have hold := trimmed_le_left old new
  have hnew := trimmed_comm old new ▸ trimmed_le_left new old
  rw [trimmed] at hold hnew
  rw [← commonSuffix, List.take_reverse, List.take_reverse, List.reverse_inj, List.drop_drop,
    List.drop_drop, List.length_drop, List.length_drop] at hreverse
  have hend : old.drop (old.length - commonSuffix old new) = new.drop (commonPrefix old new +
      (new.length - commonPrefix old new - commonSuffix old new)) := by
    rw [← hreverse]
    congr 1
    omega
  rw [hend, middle, take_commonPrefix, List.append_assoc, ← List.drop_drop, List.take_append_drop,
    List.take_append_drop]

omit [DecidableEq α] in
theorem length_middle (l : List α) (before after : ℕ) :
    (middle l before after).length = l.length - before - after := by
  rw [middle, List.length_take, List.length_drop]
  omega

end Trim

end Unified
