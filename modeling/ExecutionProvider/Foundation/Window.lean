import Mathlib.Data.List.DropRight

/-!
# Windows of a list

The elements of a list from one position up to another. Windows that meet are put together, and
the window of an appended list comes from the windows of its parts.

## Main results

* `extract_append_extract`: windows that meet.
* `extract_append_eq`: the window of an appended list.
-/

namespace List

variable {α : Type*}

/-- The window from one position to a third is made of those that meet in between. -/
theorem extract_append_extract (l : List α) {a b c : ℕ} (hab : a ≤ b) (hbc : b ≤ c) :
    l.extract a b ++ l.extract b c = l.extract a c := by
  simp only [extract_eq_take_drop]
  have hb : b = a + (b - a) := by omega
  have hc : c - a = (b - a) + (c - b) := by omega
  rw [hc, take_add, drop_drop, ← hb]

/-- A window of an appended list is made of the windows of its parts. -/
theorem extract_append_eq (l l' : List α) (a b : ℕ) :
    (l ++ l').extract a b = l.extract a b ++ l'.extract (a - l.length) (b - l.length) := by
  simp only [extract_eq_take_drop, drop_append, take_append, length_drop]
  by_cases ha : a ≤ l.length
  · rw [Nat.sub_eq_zero_of_le ha]
    congr 2
    omega
  · have hl : l.length ≤ a := Nat.le_of_not_le ha
    rw [Nat.sub_eq_zero_of_le hl]
    congr 2
    omega

/-- A window that ends within the first part of an appended list lies in that part. -/
theorem extract_append_of_le (l l' : List α) {a b : ℕ} (h : b ≤ l.length) :
    (l ++ l').extract a b = l.extract a b := by
  rw [extract_append_eq, Nat.sub_eq_zero_of_le h]
  simp

/-- A window that ends before it starts is empty. -/
theorem extract_eq_nil_of_le (l : List α) {a b : ℕ} (h : b ≤ a) : l.extract a b = [] := by
  rw [extract_eq_take_drop, Nat.sub_eq_zero_of_le h, take_zero]

/-- A window of what is left behind some position. -/
theorem extract_drop (l : List α) (n a b : ℕ) :
    (l.drop n).extract a b = l.extract (n + a) (n + b) := by
  simp only [extract_eq_take_drop]
  rw [drop_drop, Nat.add_sub_add_left]

end List
