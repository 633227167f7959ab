import ExecutionProvider.Core.Text
import ExecutionProvider.Foundation.PrefixCode
import ExecutionProvider.Foundation.Unified
import ExecutionProvider.Foundation.Utf8
import ExecutionProvider.Patch.Receipt

/-!
# The diff of a patch

The receipt of a patch shows what changed as unified diffs, one hunk for each section, as far as
there is room.

## Main definitions

* `appendDiff`: the diff of a change that was made is appended to the receipt.
* `hunkText`: how a hunk is written.
* `ShowsChange`: what is appended is a hunk that makes the new lines of the old ones.

## Main results

* `diff_valid_iff`: when that is so.
-/

namespace ExecutionProvider.Patch

open Unified (Hunk Mark)

/-! ### The diff -/

/-- The largest number of bytes of a diff. -/
def maxPatchDiffBytes : ℕ := 64 * 1024

/-- A change that was made: the contents before and after. -/
structure DiffStep where
  path : String
  destination : Option String
  before : Option ByteArray
  after : Option ByteArray

/-- A fragment is appended if there is room. -/
def appendBounded (receipt : PatchReceipt) (fragment : String) : PatchReceipt × Bool :=
  if maxPatchDiffBytes < receipt.diff.utf8ByteSize + fragment.utf8ByteSize then
    ({ receipt with diffTruncated := true }, false)
  else ({ receipt with diff := receipt.diff ++ fragment }, true)

/-- A line is appended if there is room. -/
def appendLine (receipt : PatchReceipt) (marker line : String) : PatchReceipt × Bool :=
  if maxPatchDiffBytes < receipt.diff.utf8ByteSize + line.utf8ByteSize + 2 then
    ({ receipt with diffTruncated := true }, false)
  else ({ receipt with diff := receipt.diff ++ marker ++ line ++ "\n" }, true)

/-- Lines are appended as long as there is room. -/
def appendLines (receipt : PatchReceipt) (marker : String) : List String → PatchReceipt × Bool
  | [] => (receipt, true)
  | line :: lines =>
    match appendLine receipt marker line with
    | (receipt, false) => (receipt, false)
    | (receipt, true) => appendLines receipt marker lines

/-- The header of a diff. -/
def diffHeader (step : DiffStep) : String :=
  "--- a/" ++ step.path ++ "\n+++ b/" ++ step.destination.getD step.path ++ "\n"

/-- The head of a hunk. -/
def hunkHead (oldStart oldCount newStart newCount : ℕ) : String :=
  "@@ -" ++ toString oldStart ++ "," ++ toString oldCount ++ " +" ++ toString newStart ++ "," ++
    toString newCount ++ " @@\n"

/-- The diff of a change is appended. -/
def appendDiff (receipt : PatchReceipt) (step : DiffStep) : PatchReceipt :=
  if receipt.diffTruncated then receipt
  else
    let before := step.before.getD .empty
    let after := step.after.getD .empty
    if 256 * 1024 < before.size + after.size then { receipt with diffTruncated := true }
    else
      match String.fromUTF8? before, String.fromUTF8? after with
      | some a, some b =>
        let old := lines a
        let new := lines b
        let before := commonPrefix old new
        let after := Unified.commonSuffix old new
        let header := diffHeader step ++ hunkHead (before + 1) (old.length - before - after)
          (before + 1) (new.length - before - after)
        match appendBounded receipt header with
        | (receipt, false) => receipt
        | (receipt, true) =>
          match appendLines receipt "-" (Unified.middle old before after) with
          | (receipt, false) => receipt
          | (receipt, true) => (appendLines receipt "+" (Unified.middle new before after)).1
      | _, _ => { receipt with diffTruncated := true }

/-! ### Hunks as they are written -/

/-- How a line of a hunk is marked. -/
def markText : Mark → String
  | .kept => " "
  | .removed => "-"
  | .added => "+"

/-- How a hunk is written. -/
def hunkText (h : Hunk String) : String :=
  hunkHead h.oldStart h.oldCount h.newStart h.newCount ++
    String.join (h.lines.map fun l => markText l.1 ++ l.2 ++ "\n")

/-- What was appended for a change is a hunk by the rules of the format, and makes the lines after
the change of those before it. -/
def ShowsChange (step : DiffStep) (old new : List String) (appended : String) : Prop :=
  ∃ h : Hunk String, appended = diffHeader step ++ hunkText h ∧ h.WellFormed ∧
    h.apply old = some new

/-! ### What is appended -/

variable {receipt receipt' : PatchReceipt} {step : DiffStep} {a b : String}

theorem appendBounded_eq_true {fragment : String}
    (h : appendBounded receipt fragment = (receipt', true)) :
    receipt'.diff = receipt.diff ++ fragment ∧ receipt'.diffTruncated = receipt.diffTruncated := by
  rw [appendBounded] at h
  split_ifs at h
  · cases h
  · obtain rfl := (Prod.mk.inj h).1
    exact ⟨rfl, rfl⟩

theorem appendBounded_eq_false {fragment : String}
    (h : appendBounded receipt fragment = (receipt', false)) : receipt'.diffTruncated = true := by
  rw [appendBounded] at h
  split_ifs at h
  · obtain rfl := (Prod.mk.inj h).1
    rfl
  · cases h

theorem appendLine_eq_true {marker line : String}
    (h : appendLine receipt marker line = (receipt', true)) :
    receipt'.diff = receipt.diff ++ (marker ++ line ++ "\n") ∧
      receipt'.diffTruncated = receipt.diffTruncated := by
  rw [appendLine] at h
  split_ifs at h
  · cases h
  · obtain rfl := (Prod.mk.inj h).1
    refine ⟨?_, rfl⟩
    dsimp only
    rw [String.append_assoc, String.append_assoc, String.append_assoc]

theorem appendLine_eq_false {marker line : String}
    (h : appendLine receipt marker line = (receipt', false)) : receipt'.diffTruncated = true := by
  rw [appendLine] at h
  split_ifs at h
  · obtain rfl := (Prod.mk.inj h).1
    rfl
  · cases h

/-- Lines are appended, or the diff is truncated. -/
theorem appendLines_cases {marker : String} : (ls : List String) → (receipt : PatchReceipt) →
    ((appendLines receipt marker ls).2 = false ∧
      (appendLines receipt marker ls).1.diffTruncated = true) ∨
    ((appendLines receipt marker ls).2 = true ∧
      (appendLines receipt marker ls).1.diff =
        receipt.diff ++ String.join (ls.map fun l => marker ++ l ++ "\n") ∧
      (appendLines receipt marker ls).1.diffTruncated = receipt.diffTruncated)
  | [], receipt => Or.inr ⟨rfl, (String.append_empty).symm, rfl⟩
  | line :: ls, receipt => by
    rw [appendLines]
    cases hline : appendLine receipt marker line with
    | mk receipt' fits =>
      cases fits with
      | false => exact Or.inl ⟨rfl, appendLine_eq_false hline⟩
      | true =>
        obtain ⟨hdiff, htruncated⟩ := appendLine_eq_true hline
        dsimp only
        refine (appendLines_cases ls receipt').imp_right fun ⟨hfits, hrest, hrest'⟩ => ?_
        refine ⟨hfits, ?_, hrest'.trans htruncated⟩
        rw [hrest, hdiff, List.map_cons, String.join_cons, String.append_assoc]

/-- The hunk of a change. -/
def hunkOf (old new : List String) : Hunk String :=
  let before := commonPrefix old new
  let after := Unified.commonSuffix old new
  ⟨before + 1, old.length - before - after, before + 1, new.length - before - after,
    (Unified.middle old before after).map (.removed, ·) ++
      (Unified.middle new before after).map (.added, ·)⟩

/-- A diff that is not truncated has the hunk of the change. -/
theorem appendDiff_eq (hbefore : String.fromUTF8? (step.before.getD .empty) = some a)
    (hafter : String.fromUTF8? (step.after.getD .empty) = some b)
    (hroom : (appendDiff receipt step).diffTruncated = false) :
    (appendDiff receipt step).diff =
      receipt.diff ++ (diffHeader step ++ hunkText (hunkOf (lines a) (lines b))) := by
  unfold appendDiff at hroom ⊢
  by_cases htruncated : receipt.diffTruncated = true
  · rw [if_pos htruncated, htruncated] at hroom
    cases hroom
  rw [if_neg htruncated] at hroom ⊢
  dsimp only at hroom ⊢
  by_cases hsize : 256 * 1024 < (step.before.getD .empty).size + (step.after.getD .empty).size
  · rw [if_pos hsize] at hroom
    cases hroom
  rw [if_neg hsize, hbefore, hafter] at hroom ⊢
  dsimp only at hroom ⊢
  cases hheader : appendBounded receipt (diffHeader step ++ hunkHead
      (commonPrefix (lines a) (lines b) + 1) ((lines a).length - commonPrefix (lines a) (lines b) -
        Unified.commonSuffix (lines a) (lines b)) (commonPrefix (lines a) (lines b) + 1)
      ((lines b).length - commonPrefix (lines a) (lines b) -
        Unified.commonSuffix (lines a) (lines b))) with
  | mk receipt₁ fits =>
    rw [hheader] at hroom
    cases fits with
    | false => exact absurd hroom (by rw [appendBounded_eq_false hheader]; decide)
    | true =>
      have hfirst := (appendBounded_eq_true hheader).1
      dsimp only at hroom ⊢
      have hremoved := @appendLines_cases "-" (Unified.middle (lines a)
        (commonPrefix (lines a) (lines b)) (Unified.commonSuffix (lines a) (lines b))) receipt₁
      generalize appendLines receipt₁ "-" (Unified.middle (lines a)
        (commonPrefix (lines a) (lines b)) (Unified.commonSuffix (lines a) (lines b))) =
        removed at hremoved hroom ⊢
      obtain ⟨receipt₂, fits⟩ := removed
      rcases hremoved with ⟨hfits, hstop⟩ | ⟨hfits, hsecond, -⟩
      · obtain rfl : fits = false := hfits
        exact absurd hroom (by rw [show receipt₂.diffTruncated = true from hstop]; decide)
      obtain rfl : fits = true := hfits
      dsimp only at hroom hsecond ⊢
      have hadded := @appendLines_cases "+" (Unified.middle (lines b)
        (commonPrefix (lines a) (lines b)) (Unified.commonSuffix (lines a) (lines b))) receipt₂
      rcases hadded with ⟨-, hstop⟩ | ⟨-, hthird, -⟩
      · exact absurd hroom (by rw [hstop]; decide)
      rw [hthird, hsecond, hfirst, hunkText, hunkOf]
      dsimp only
      rw [List.map_append, String.join_append, List.map_map, List.map_map]
      simp only [String.append_assoc]
      rfl

/-! ### The numbers of a hunk -/

/-- A number in front of a mark. -/
def numberWord (stop : Char) (n : ℕ) : List Char := (toString n).toList ++ [stop]

theorem numberWord_prefixFree {stop : Char} (hstop : stop.isDigit = false) :
    PrefixFree (numberWord stop) := by
  refine @PrefixFree.of_read _ _ _ (fun cs => some (Nat.ofDigitChars 10
    (cs.takeWhile Char.isDigit) 0, (cs.dropWhile Char.isDigit).tail)) fun n r => ?_
  have hlist : (toString n).toList = Nat.toDigits 10 n := Nat.toList_repr
  have hdigits (c : Char) (hc : c ∈ Nat.toDigits 10 n) : c.isDigit = true :=
    Nat.isDigit_of_mem_toDigits (by decide) (by decide) hc
  rw [numberWord, hlist, List.append_assoc, List.takeWhile_append_of_pos hdigits,
    List.dropWhile_append_of_pos hdigits, List.singleton_append,
    List.takeWhile_cons_of_neg (by simp [hstop]), List.dropWhile_cons_of_neg (by simp [hstop]),
    List.append_nil, Nat.ofDigitChars_toDigits (by decide) (by decide), List.tail_cons]

theorem toList_hunkHead (oldStart oldCount newStart newCount : ℕ) :
    (hunkHead oldStart oldCount newStart newCount).toList = "@@ -".toList ++
      (numberWord ',' oldStart ++ (numberWord ' ' oldCount ++ ("+".toList ++
        (numberWord ',' newStart ++ (numberWord ' ' newCount ++ "@@\n".toList))))) := by
  rw [hunkHead]
  simp only [String.toList_append, numberWord, List.append_assoc]
  rfl

/-- The numbers of a hunk can be read from its text. -/
theorem hunkText_numbers {h h' : Hunk String} (heq : hunkText h = hunkText h') :
    h.oldStart = h'.oldStart ∧ h.oldCount = h'.oldCount ∧ h.newStart = h'.newStart ∧
      h.newCount = h'.newCount := by
  have hlist := congrArg String.toList heq
  rw [hunkText, hunkText, String.toList_append, String.toList_append, toList_hunkHead,
    toList_hunkHead] at hlist
  simp only [List.append_assoc, List.append_cancel_left_eq] at hlist
  obtain ⟨holdStart, hlist⟩ := numberWord_prefixFree (by decide) hlist
  obtain ⟨holdCount, hlist⟩ := numberWord_prefixFree (by decide) hlist
  rw [List.append_cancel_left_eq] at hlist
  obtain ⟨hnewStart, hlist⟩ := numberWord_prefixFree (by decide) hlist
  obtain ⟨hnewCount, -⟩ := numberWord_prefixFree (by decide) hlist
  exact ⟨holdStart, holdCount, hnewStart, hnewCount⟩

/-! ### The hunk of a change -/

section Hunk

variable {old new : List String}

theorem oldLines_hunkOf : (hunkOf old new).oldLines =
    Unified.middle old (commonPrefix old new) (Unified.commonSuffix old new) := by
  simp [hunkOf, Hunk.oldLines, List.filter_map, Function.comp_def]

theorem newLines_hunkOf : (hunkOf old new).newLines =
    Unified.middle new (commonPrefix old new) (Unified.commonSuffix old new) := by
  simp [hunkOf, Hunk.newLines, List.filter_map, Function.comp_def]

/-- Both sides of a hunk have lines when neither list is the other one around a gap. -/
theorem counts_pos_iff : (hunkOf old new).oldCount ≠ 0 ∧ (hunkOf old new).newCount ≠ 0 ↔
    (¬∃ x y z, old = x ++ z ∧ new = x ++ y ++ z) ∧ ¬∃ x y z, new = x ++ z ∧ old = x ++ y ++ z := by
  have hold := Unified.trimmed_le_left old new
  have hnew := Unified.trimmed_le_left new old
  rw [← Unified.trimmed_eq_length_iff, ← Unified.trimmed_eq_length_iff]
  rw [Unified.trimmed_comm new old] at hnew ⊢
  rw [hunkOf]
  dsimp only
  rw [Unified.trimmed] at hold hnew ⊢
  omega

/-- A hunk with lines on both sides is right. -/
theorem hunkOf_valid (hold : (hunkOf old new).oldCount ≠ 0) (hnew : (hunkOf old new).newCount ≠ 0) :
    (hunkOf old new).WellFormed ∧ (hunkOf old new).apply old = some new := by
  have hbefore : Unified.linesBefore (hunkOf old new).oldStart (hunkOf old new).oldCount =
      commonPrefix old new := if_neg hold
  have hbefore' : Unified.linesBefore (hunkOf old new).newStart (hunkOf old new).newCount =
      commonPrefix old new := if_neg hnew
  have hle := Unified.trimmed_le_left old new
  rw [Unified.trimmed] at hle
  have hcount : (hunkOf old new).oldCount =
      old.length - commonPrefix old new - Unified.commonSuffix old new := rfl
  refine ⟨⟨?_, ?_, fun _ => Nat.succ_ne_zero _, fun _ => Nat.succ_ne_zero _,
    hbefore.trans hbefore'.symm⟩, ?_⟩
  · rw [oldLines_hunkOf, Unified.length_middle]
    rfl
  · rw [newLines_hunkOf, Unified.length_middle]
    rfl
  · rw [Hunk.apply, hbefore, oldLines_hunkOf, newLines_hunkOf, hcount, if_pos ⟨by omega, rfl⟩,
      show commonPrefix old new + (old.length - commonPrefix old new -
        Unified.commonSuffix old new) = old.length - Unified.commonSuffix old new by omega,
      Unified.take_append_middle]

/-- A right hunk with the numbers of the change has lines on both sides. -/
theorem counts_ne_zero_of_valid {h : Hunk String}
    (hnumbers : h.oldStart = (hunkOf old new).oldStart ∧ h.oldCount = (hunkOf old new).oldCount ∧
      h.newStart = (hunkOf old new).newStart ∧ h.newCount = (hunkOf old new).newCount)
    (hvalid : h.WellFormed) (happly : h.apply old = some new) :
    (hunkOf old new).oldCount ≠ 0 ∧ (hunkOf old new).newCount ≠ 0 := by
  obtain ⟨holdStart, holdCount, hnewStart, hnewCount⟩ := hnumbers
  have hstart : (hunkOf old new).oldStart = commonPrefix old new + 1 := rfl
  have hstart' : (hunkOf old new).newStart = commonPrefix old new + 1 := rfl
  have hbefore := hvalid.before
  rw [holdStart, holdCount, hnewStart, hnewCount, hstart, hstart', Unified.linesBefore,
    Unified.linesBefore] at hbefore
  by_cases hold : (hunkOf old new).oldCount = 0
  · by_cases hnew : (hunkOf old new).newCount = 0
    · -- the lists are the same, and the hunk begins behind their end
      have hlength : (Unified.middle new (commonPrefix old new)
          (Unified.commonSuffix old new)).length = 0 := (Unified.length_middle _ _ _).trans hnew
      have hle := Unified.trimmed_le_left old new
      rw [Unified.trimmed] at hle
      have hsame : old = new := by
        have hmade := Unified.take_append_middle old new
        rw [List.length_eq_zero_iff.mp hlength, List.append_nil] at hmade
        have hcount : old.length - commonPrefix old new - Unified.commonSuffix old new = 0 := hold
        rwa [show old.length - Unified.commonSuffix old new = commonPrefix old new by omega,
          List.take_append_drop] at hmade
      have hprefix : commonPrefix old new = old.length := by
        rw [← hsame]
        exact Unified.commonPrefix_eq_length_of_prefix (List.prefix_refl old)
      rw [Hunk.apply, holdStart, holdCount, hstart, hold, Unified.linesBefore, if_pos rfl,
        if_neg fun hin => absurd hin.1 (by omega)] at happly
      cases happly
    · rw [if_pos hold, if_neg hnew] at hbefore
      omega
  · refine ⟨hold, fun hnew => ?_⟩
    rw [if_neg hold, if_pos hnew] at hbefore
    omega

end Hunk

/-- What is appended is right only when both sides of the hunk have lines. -/
theorem counts_ne_zero_of_shows (hbefore : String.fromUTF8? (step.before.getD .empty) = some a)
    (hafter : String.fromUTF8? (step.after.getD .empty) = some b)
    (hroom : (appendDiff receipt step).diffTruncated = false) {appended : String}
    (hdiff : (appendDiff receipt step).diff = receipt.diff ++ appended)
    (hshows : ShowsChange step (lines a) (lines b) appended) :
    (hunkOf (lines a) (lines b)).oldCount ≠ 0 ∧ (hunkOf (lines a) (lines b)).newCount ≠ 0 := by
  obtain ⟨h, htext, hvalid, happly⟩ := hshows
  rw [appendDiff_eq hbefore hafter hroom, htext] at hdiff
  have hhunk : hunkText h = hunkText (hunkOf (lines a) (lines b)) := by
    rw [← String.toList_inj] at hdiff ⊢
    simp only [String.toList_append, List.append_cancel_left_eq] at hdiff
    exact hdiff.symm
  exact counts_ne_zero_of_valid (hunkText_numbers hhunk) hvalid happly

/-- **The diff of a patch.** What is appended for a change, when it is not truncated, is a hunk that
makes the lines after the change of those before it, exactly when neither text has the lines of the
other around a gap: the hunk of an insertion, a deletion or no change at all begins one line too
late on the side that has no lines. -/
theorem diff_valid_iff (receipt : PatchReceipt) (step : DiffStep) (a b : String)
    (hbefore : String.fromUTF8? (step.before.getD .empty) = some a)
    (hafter : String.fromUTF8? (step.after.getD .empty) = some b)
    (hroom : (appendDiff receipt step).diffTruncated = false) :
    (∃ appended, (appendDiff receipt step).diff = receipt.diff ++ appended ∧
      ShowsChange step (lines a) (lines b) appended) ↔
    (¬∃ x y z, lines a = x ++ z ∧ lines b = x ++ y ++ z) ∧
      ¬∃ x y z, lines b = x ++ z ∧ lines a = x ++ y ++ z := by
  rw [← counts_pos_iff]
  constructor
  · rintro ⟨appended, hdiff, hshows⟩
    exact counts_ne_zero_of_shows hbefore hafter hroom hdiff hshows
  · rintro ⟨hold, hnew⟩
    obtain ⟨hvalid, happly⟩ := hunkOf_valid hold hnew
    exact ⟨_, appendDiff_eq hbefore hafter hroom, _, rfl, hvalid, happly⟩

/-- A receipt of which nothing is written yet. -/
def emptyReceipt : PatchReceipt := ⟨"m", .applied, true, [], "", false, none⟩

/-- A file that is added. -/
def addedFile : DiffStep := ⟨"f", none, none, some "a\n".toUTF8⟩

/-- The hunk of a file that is added begins at a line that the old text does not have. -/
theorem diff_valid_iff_added :
    (appendDiff emptyReceipt addedFile).diffTruncated = false ∧
      (appendDiff emptyReceipt addedFile).diff = "--- a/f\n+++ b/f\n@@ -1,0 +1,1 @@\n+a\n" ∧
      ¬∃ appended, (appendDiff emptyReceipt addedFile).diff = emptyReceipt.diff ++ appended ∧
        ShowsChange addedFile (lines "") (lines "a\n") appended := by
  have hbefore : String.fromUTF8? (addedFile.before.getD .empty) = some "" :=
    String.fromUTF8?_toUTF8 ""
  have hafter : String.fromUTF8? (addedFile.after.getD .empty) = some "a\n" :=
    String.fromUTF8?_toUTF8 "a\n"
  have hroom : (appendDiff emptyReceipt addedFile).diffTruncated = false := by decide +kernel
  refine ⟨hroom, by decide +kernel, ?_⟩
  rintro ⟨appended, hdiff, hshows⟩
  exact (counts_ne_zero_of_shows hbefore hafter hroom hdiff hshows).1 (by decide +kernel)

/-- A file in which a line is changed. -/
def changedFile : DiffStep := ⟨"f", none, some "a\n".toUTF8, some "b\n".toUTF8⟩

/-- The hunk of a line that is changed. -/
theorem diff_valid_iff_changed : ∃ appended,
    (appendDiff emptyReceipt changedFile).diff = emptyReceipt.diff ++ appended ∧
      ShowsChange changedFile (lines "a\n") (lines "b\n") appended := by
  have hbefore : String.fromUTF8? (changedFile.before.getD .empty) = some "a\n" :=
    String.fromUTF8?_toUTF8 "a\n"
  have hafter : String.fromUTF8? (changedFile.after.getD .empty) = some "b\n" :=
    String.fromUTF8?_toUTF8 "b\n"
  refine (diff_valid_iff emptyReceipt changedFile "a\n" "b\n" hbefore hafter
    (by decide +kernel)).mpr ?_
  rw [← counts_pos_iff]
  decide +kernel

end ExecutionProvider.Patch
