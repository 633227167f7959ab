import Mathlib.Data.List.Chain
import ExecutionProvider.Core.Types
import ExecutionProvider.Foundation.Occurrences
import ExecutionProvider.Patch.Codex

/-!
# Replacements in a file

A file of a patch in the format of text replacements has a list of edits, each of which replaces a
text that occurs in the file. The texts are compared with their line breaks as LF; the breaks of the
file are restored afterwards, and a byte order mark stays where it is.

Texts are lists of characters here, and positions count characters.

## Main definitions

* `normalizeBreaks`: a text with LF as its line breaks.
* `findRanges`: the ranges that the edits match.
* `applyReplacements`: the text after all edits.
* `Accepted`: the condition under which the edits are accepted.
* `Unambiguous`: the condition under which they should be.

## Main results

* `applyReplacements_eq_ok_iff`: when the edits are accepted, and what comes of them.
* `replacements_exact`: what changes in a file with line breaks of one kind.
* `acceptance_iff`: when the two conditions agree.
-/

namespace ExecutionProvider.Patch

open List (Replacement OccursAt nextMatch substitute sortByStart)

/-! ### Line breaks -/

/-- The byte order mark at the beginning of a text. -/
def byteOrderMark : Char := '\uFEFF'

/-- Every CRLF replaced by LF. -/
def joinCrLf : List Char → List Char
  | '\r' :: '\n' :: cs => '\n' :: joinCrLf cs
  | c :: cs => c :: joinCrLf cs
  | [] => []

/-- A text with LF as its line breaks. -/
def normalizeBreaks (cs : List Char) : List Char :=
  (joinCrLf cs).map fun c => if c = '\r' then '\n' else c

/-- Whether the first line break of a text is CRLF. -/
def isCrLf (cs : List Char) : Bool :=
  (nextMatch ['\r', '\n'] cs 0).any fun i => nextMatch ['\n'] cs 0 = some (i + 1)

/-- How a character is written in a text whose line breaks are CRLF, or LF. -/
def writeBreak (crlf : Bool) (c : Char) : List Char :=
  if crlf ∧ c = '\n' then ['\r', '\n'] else [c]

/-- The byte order mark of a text. -/
def markOf (cs : List Char) : List Char :=
  if cs.head? = some byteOrderMark then [byteOrderMark] else []

/-- A text behind its byte order mark. -/
def bodyOf (cs : List Char) : List Char := cs.drop (markOf cs).length

/-! ### The edits -/

/-- The text that an edit replaces. -/
def oldTextOf (edit : TextEdit) : List Char := normalizeBreaks edit.oldText.toList

/-- The ranges that the edits match, each with the number of its edit. The work done so far goes in
and comes out. -/
def findRanges (base : List Char) :
    ℕ → List TextEdit → ℕ → Except (Error × ℕ) (List (Replacement Char × ℕ)) × ℕ
  | _, [], work => (.ok [], work)
  | i, edit :: edits, work =>
    let old := oldTextOf edit
    if old = [] then (.error (.invalid "oldText must not be empty", i), work)
    else
      let work := work + (String.ofList base).utf8ByteSize
      if maxMatchWork < work then
        (.error (⟨.resourceLimit, "replacement matching work limit exceeded"⟩, i), work)
      else
        match nextMatch old base 0 with
        | none => (.error (.invalid "oldText not found", i), work)
        | some first =>
          if (nextMatch old base (first + old.length)).isSome then
            (.error (.invalid "oldText is ambiguous", i), work)
          else
            match findRanges base (i + 1) edits work with
            | (.error e, work) => (.error e, work)
            | (.ok ranges, work) =>
              (.ok ((⟨first, old.length, normalizeBreaks edit.newText.toList⟩, i) :: ranges), work)

/-- The first range that begins before the end of the range in front of it. -/
def overlapping : List (Replacement Char × ℕ) → Option (Replacement Char × ℕ)
  | r :: r' :: ranges => if r'.1.start < r.1.stop then some r' else overlapping (r' :: ranges)
  | _ => none

/-- The text after all edits. An error names an edit. -/
def applyReplacements (text : String) (edits : List TextEdit) (work : ℕ) :
    Except (Error × ℕ) String × ℕ :=
  let mark := markOf text.toList
  let body := bodyOf text.toList
  let base := normalizeBreaks body
  match findRanges base 0 edits work with
  | (.error e, work) => (.error e, work)
  | (.ok ranges, work) =>
    let ranges := ranges.insertionSort fun r r' => r.1.start ≤ r'.1.start
    match overlapping ranges with
    | some r => (.error (.invalid "replacement ranges overlap", r.2), work)
    | none =>
      let result := ranges.foldr (fun r cs => cs.splice r.1) base
      if result = base then (.error (.invalid "replacement produced no changes", 0), work)
      else (.ok (String.ofList (mark ++ result.flatMap (writeBreak (isCrLf body)))), work)

/-! ### What is found -/

variable {base : List Char} {edit : TextEdit} {edits edits' : List TextEdit} {text out : String}
  {work : ℕ}

/-- The range that an edit matches. -/
def rangeOf (base : List Char) (edit : TextEdit) : Replacement Char :=
  ⟨(nextMatch (oldTextOf edit) base 0).getD 0, (oldTextOf edit).length,
    normalizeBreaks edit.newText.toList⟩

/-- The text that an edit replaces is found, and is not found again behind the end of its first
occurrence. -/
def FoundOnce (base : List Char) (edit : TextEdit) : Prop :=
  oldTextOf edit ≠ [] ∧ OccursAt (oldTextOf edit) base (rangeOf base edit).start ∧
    (∀ i, OccursAt (oldTextOf edit) base i → (rangeOf base edit).start ≤ i) ∧
    ∀ i, (rangeOf base edit).stop ≤ i → ¬OccursAt (oldTextOf edit) base i

/-- Two ranges of which one ends before the other begins. -/
def Separate (r r' : Replacement Char) : Prop := r.stop ≤ r'.start ∨ r'.stop ≤ r.start

/-- The work of matching edits. -/
def matchWork (base : List Char) (edits : List TextEdit) : ℕ :=
  edits.length * (String.ofList base).utf8ByteSize

theorem foundOnce_iff : FoundOnce base edit ↔ oldTextOf edit ≠ [] ∧
    ∃ first, nextMatch (oldTextOf edit) base 0 = some first ∧
      nextMatch (oldTextOf edit) base (first + (oldTextOf edit).length) = none := by
  constructor
  · rintro ⟨hne, hoccurs, hfirst, hnone⟩
    have hnext : nextMatch (oldTextOf edit) base 0 = some (rangeOf base edit).start :=
      (List.nextMatch_eq_some_iff hne).mpr
        ⟨Nat.zero_le _, hoccurs, fun j _ hlt hj => Nat.not_lt.mpr (hfirst j hj) hlt⟩
    exact ⟨hne, _, hnext, (List.nextMatch_eq_none_iff hne).mpr hnone⟩
  · rintro ⟨hne, first, hnext, hnone⟩
    have hstart : (rangeOf base edit).start = first := by rw [rangeOf, hnext, Option.getD_some]
    obtain ⟨-, hoccurs, hfirst⟩ := (List.nextMatch_eq_some_iff hne).mp hnext
    refine ⟨hne, hstart ▸ hoccurs, fun i hi => ?_, fun i hi => ?_⟩
    · rw [hstart]
      exact Nat.le_of_not_lt fun hlt => hfirst i (Nat.zero_le _) hlt hi
    · rw [Replacement.stop, hstart] at hi
      exact (List.nextMatch_eq_none_iff hne).mp hnone i hi

theorem FoundOnce.stop_le_length (h : FoundOnce base edit) :
    (rangeOf base edit).stop ≤ base.length := h.2.1.add_length_le h.1

theorem FoundOnce.count_pos (h : FoundOnce base edit) : 0 < (rangeOf base edit).count :=
  List.length_pos_iff.mpr h.1

/-- The ranges are found when every text is found once and the work stays within its limit. -/
theorem findRanges_eq_ok_iff {i : ℕ} {ranges : List (Replacement Char × ℕ)} :
    (findRanges base i edits work).1 = .ok ranges ↔ (∀ edit ∈ edits, FoundOnce base edit) ∧
      (edits ≠ [] → work + matchWork base edits ≤ maxMatchWork) ∧
      ranges = (edits.map (rangeOf base)).zipIdx i := by
  induction edits generalizing i work ranges with
  | nil =>
    constructor
    · intro h
      exact ⟨fun _ hedit => absurd hedit List.not_mem_nil, fun hne => absurd rfl hne,
        (Except.ok.inj h).symm⟩
    · rintro ⟨-, -, rfl⟩
      rfl
  | cons edit edits ih =>
    have hall : (∀ e ∈ edit :: edits, FoundOnce base e) ↔
        FoundOnce base edit ∧ ∀ e ∈ edits, FoundOnce base e := List.forall_mem_cons
    have hcost : matchWork base (edit :: edits) =
        (String.ofList base).utf8ByteSize + matchWork base edits := by
      rw [matchWork, matchWork, List.length_cons, Nat.succ_mul, Nat.add_comm]
    have hsplit : (edit :: edits ≠ [] → work + matchWork base (edit :: edits) ≤ maxMatchWork) ↔
        work + (String.ofList base).utf8ByteSize ≤ maxMatchWork ∧ (edits ≠ [] →
          work + (String.ofList base).utf8ByteSize + matchWork base edits ≤ maxMatchWork) := by
      rw [hcost]
      constructor
      · intro h
        have hle := h (List.cons_ne_nil _ _)
        exact ⟨by omega, fun _ => by omega⟩
      · rintro ⟨hle, hrest⟩ -
        by_cases hnil : edits = []
        · rw [hnil, matchWork, List.length_nil, Nat.zero_mul]
          omega
        · have := hrest hnil
          omega
    rw [hall, hsplit, foundOnce_iff, findRanges]
    dsimp only
    by_cases hne : oldTextOf edit = []
    · rw [if_pos hne]
      exact ⟨fun h => (by cases h), fun h => absurd hne h.1.1.1⟩
    rw [if_neg hne]
    by_cases hwork : maxMatchWork < work + (String.ofList base).utf8ByteSize
    · rw [if_pos hwork]
      exact ⟨fun h => (by cases h), fun h => absurd h.2.1.1 (Nat.not_le.mpr hwork)⟩
    rw [if_neg hwork]
    cases hnext : nextMatch (oldTextOf edit) base 0 with
    | none =>
      refine ⟨fun h => (by cases h), ?_⟩
      rintro ⟨⟨⟨-, first, hfirst, -⟩, -⟩, -⟩
      cases hfirst
    | some first =>
      dsimp only
      cases hagain : nextMatch (oldTextOf edit) base (first + (oldTextOf edit).length) with
      | some again =>
        refine ⟨fun h => (by cases h), ?_⟩
        rintro ⟨⟨⟨-, first', hfirst, hnone⟩, -⟩, -⟩
        obtain rfl := Option.some.inj hfirst
        cases hagain.symm.trans hnone
      | none =>
        have hrange : rangeOf base edit =
            ⟨first, (oldTextOf edit).length, normalizeBreaks edit.newText.toList⟩ := by
          rw [rangeOf, hnext, Option.getD_some]
        rw [if_neg (by simp), List.map_cons, List.zipIdx_cons, hrange]
        specialize @ih (work + (String.ofList base).utf8ByteSize) (i + 1)
        generalize findRanges base (i + 1) edits (work + (String.ofList base).utf8ByteSize) =
          found at ih ⊢
        obtain ⟨answer, work'⟩ := found
        cases answer with
        | error e =>
          refine ⟨fun h => (by cases h), ?_⟩
          rintro ⟨⟨-, hrest⟩, ⟨-, hlimit⟩, -⟩
          cases ih.mpr ⟨hrest, hlimit, rfl⟩
        | ok found =>
          constructor
          · intro h
            obtain ⟨hrest, hlimit, rfl⟩ := ih.mp rfl
            exact ⟨⟨⟨hne, first, rfl, hagain⟩, hrest⟩, ⟨Nat.not_lt.mp hwork, hlimit⟩,
              (Except.ok.inj h).symm⟩
          · rintro ⟨⟨-, hrest⟩, ⟨-, hlimit⟩, rfl⟩
            obtain rfl := Except.ok.inj (ih.mpr ⟨hrest, hlimit, rfl⟩)
            rfl

/-! ### Ranges in order -/

theorem Separate.symm {r r' : Replacement Char} (h : Separate r r') : Separate r' r := Or.symm h

/-- Ranges with something in them are apart when they are separate. -/
theorem Separate.apart {r r' : Replacement Char} (h : Separate r r') (hcount : 0 < r'.count) :
    r.Apart r' := by
  refine h.imp_right fun hle => ⟨hle, ?_⟩
  have hstop : r'.stop = r'.start + r'.count := rfl
  omega

theorem overlapping_eq_none_iff : {ranges : List (Replacement Char × ℕ)} →
    (overlapping ranges = none ↔ ranges.IsChain fun r r' => r.1.stop ≤ r'.1.start)
  | [] => by simp [overlapping]
  | [r] => by simp [overlapping]
  | r :: r' :: ranges => by
    rw [overlapping, List.isChain_cons_cons, ← overlapping_eq_none_iff]
    split_ifs with hlt
    · exact ⟨fun h => (by cases h), fun h => absurd h.1 (Nat.not_le.mpr hlt)⟩
    · exact ⟨fun h => ⟨Nat.not_lt.mp hlt, h⟩, fun h => h.2⟩

/-- Ranges of which each ends before the next one begins are in order. -/
theorem pairwise_of_isChain {ranges : List (Replacement Char)}
    (h : ranges.IsChain fun r r' => r.stop ≤ r'.start) :
    ranges.Pairwise fun r r' => r.stop ≤ r'.start := by
  have htrans : IsTrans (Replacement Char) fun r r' => r.stop ≤ r'.start :=
    ⟨fun _ r' _ h h' => (h.trans (Nat.le_add_right r'.start r'.count)).trans h'⟩
  exact List.isChain_iff_pairwise.mp h

/-- The ranges of sorted edits are in order exactly when the ranges are separate. -/
theorem isChain_sortByStart_iff {ranges : List (Replacement Char)}
    (hcount : ∀ r ∈ ranges, 0 < r.count) :
    (sortByStart ranges).IsChain (fun r r' => r.stop ≤ r'.start) ↔ ranges.Pairwise Separate := by
  constructor
  · intro h
    have hseparate : (sortByStart ranges).Pairwise Separate :=
      (pairwise_of_isChain h).imp fun hle => Or.inl hle
    exact ((List.perm_sortByStart ranges).pairwise_iff fun h => h.symm).mp hseparate
  · intro h
    have hapart : ranges.Pairwise Replacement.Apart :=
      h.imp_of_mem fun _ hr' hs => hs.apart (hcount _ hr')
    exact (List.pairwise_sortByStart hapart).isChain

/-! ### What is accepted -/

/-- The text that is edited: what stands behind the byte order mark, with LF as its line breaks. -/
def baseOf (text : String) : List Char := normalizeBreaks (bodyOf text.toList)

/-- The text with the first occurrences of all edits replaced. -/
def replaced (base : List Char) (edits : List TextEdit) : List Char :=
  substitute base (edits.map (rangeOf base))

/-- A text, written with its byte order mark and its line breaks. -/
def restore (text : String) (result : List Char) : String :=
  String.ofList (markOf text.toList ++ result.flatMap (writeBreak (isCrLf (bodyOf text.toList))))

/-- What the edits must be: each is found once, their ranges are separate, and they change the
text. -/
structure Accepted (base : List Char) (edits : List TextEdit) : Prop where
  found : ∀ edit ∈ edits, FoundOnce base edit
  separate : (edits.map (rangeOf base)).Pairwise Separate
  changed : replaced base edits ≠ base

theorem Accepted.count_pos (h : Accepted base edits) :
    ∀ r ∈ edits.map (rangeOf base), 0 < r.count := by
  intro r hr
  obtain ⟨edit, hedit, rfl⟩ := List.mem_map.mp hr
  exact (h.found edit hedit).count_pos

theorem Accepted.apart (h : Accepted base edits) :
    (edits.map (rangeOf base)).Pairwise Replacement.Apart :=
  h.separate.imp_of_mem fun _ hr' hs => hs.apart (h.count_pos _ hr')

theorem Accepted.ne_nil (h : Accepted base edits) : edits ≠ [] := by
  rintro rfl
  exact h.changed (List.substitute_nil base)

/-- The ranges of numbered edits, sorted by their starts. -/
theorem map_fst_insertionSort (ranges : List (Replacement Char)) :
    ((ranges.zipIdx 0).insertionSort fun r r' => r.1.start ≤ r'.1.start).map Prod.fst =
      sortByStart ranges := by
  rw [List.map_insertionSort (r := fun r r' : Replacement Char × ℕ => r.1.start ≤ r'.1.start)
    (s := fun r r' => r.start ≤ r'.start) Prod.fst _ fun _ _ _ _ => Iff.rfl, List.zipIdx_map_fst]
  rfl

/-- **What is accepted, and what comes of it.** -/
theorem applyReplacements_eq_ok_iff : (applyReplacements text edits work).1 = .ok out ↔
    Accepted (baseOf text) edits ∧ work + matchWork (baseOf text) edits ≤ maxMatchWork ∧
      out = restore text (replaced (baseOf text) edits) := by
  unfold applyReplacements
  dsimp only
  rw [← baseOf]
  have hfind := @findRanges_eq_ok_iff (baseOf text) edits work 0
  generalize findRanges (baseOf text) 0 edits work = found at hfind ⊢
  obtain ⟨answer, work'⟩ := found
  cases answer with
  | error e =>
    refine ⟨fun h => (by cases h), fun h => ?_⟩
    cases hfind.mpr ⟨h.1.found, fun _ => h.2.1, rfl⟩
  | ok ranges =>
    obtain ⟨hfound, hlimit, rfl⟩ := hfind.mp rfl
    dsimp only
    have hsorted := map_fst_insertionSort (edits.map (rangeOf (baseOf text)))
    generalize ((edits.map (rangeOf (baseOf text))).zipIdx 0).insertionSort
      (fun r r' => r.1.start ≤ r'.1.start) = sorted at hsorted ⊢
    have hcount : ∀ r ∈ edits.map (rangeOf (baseOf text)), 0 < r.count := by
      intro r hr
      obtain ⟨edit, hedit, rfl⟩ := List.mem_map.mp hr
      exact (hfound edit hedit).count_pos
    have hbound : ∀ r ∈ edits.map (rangeOf (baseOf text)), r.stop ≤ (baseOf text).length := by
      intro r hr
      obtain ⟨edit, hedit, rfl⟩ := List.mem_map.mp hr
      exact (hfound edit hedit).stop_le_length
    have hoverlap : overlapping sorted = none ↔
        (edits.map (rangeOf (baseOf text))).Pairwise Separate := by
      rw [overlapping_eq_none_iff, ← isChain_sortByStart_iff hcount, ← hsorted,
        List.isChain_map Prod.fst]
    have hfold (hs : (edits.map (rangeOf (baseOf text))).Pairwise Separate) :
        sorted.foldr (fun r cs => cs.splice r.1) (baseOf text) = replaced (baseOf text) edits := by
      rw [replaced, ← List.foldr_splice_sortByStart _ hbound, ← hsorted, List.foldr_map]
      exact hs.imp_of_mem fun _ hr' h => h.apart (hcount _ hr')
    cases hcheck : overlapping sorted with
    | some r =>
      refine ⟨fun h => (by cases h), fun h => ?_⟩
      cases hcheck.symm.trans (hoverlap.mpr h.1.separate)
    | none =>
      have hseparate := hoverlap.mp hcheck
      dsimp only
      rw [hfold hseparate]
      split_ifs with hsame
      · exact ⟨fun h => (by cases h), fun h => absurd hsame h.1.changed⟩
      · constructor
        · intro h
          have haccepted : Accepted (baseOf text) edits := ⟨hfound, hseparate, hsame⟩
          exact ⟨haccepted, hlimit haccepted.ne_nil, (Except.ok.inj h).symm⟩
        · rintro ⟨-, -, rfl⟩
          rfl

/-! ### Any order of the edits -/

theorem Accepted.starts (h : Accepted base edits) :
    (edits.map (rangeOf base)).Pairwise fun r r' => r.start ≠ r'.start := by
  exact h.apart.imp_of_mem fun hr _ hapart hstart =>
    (h.count_pos _ hr).ne' (hapart.count_eq_zero hstart)

theorem Accepted.replaced_perm (h : Accepted base edits) (hperm : edits.Perm edits') :
    replaced base edits = replaced base edits' :=
  List.substitute_perm base (hperm.map _) h.starts

theorem Accepted.perm (h : Accepted base edits) (hperm : edits.Perm edits') :
    Accepted base edits' where
  found edit hedit := h.found edit (hperm.mem_iff.mpr hedit)
  separate := ((hperm.map _).pairwise_iff fun h => h.symm).mp h.separate
  changed := by
    rw [← h.replaced_perm hperm]
    exact h.changed

/-- The order of the edits does not matter. -/
theorem applyReplacements_perm (hperm : edits.Perm edits')
    (h : (applyReplacements text edits work).1 = .ok out) :
    (applyReplacements text edits' work).1 = .ok out := by
  obtain ⟨haccepted, hwork, rfl⟩ := applyReplacements_eq_ok_iff.mp h
  rw [matchWork, hperm.length_eq] at hwork
  exact applyReplacements_eq_ok_iff.mpr
    ⟨haccepted.perm hperm, hwork, congrArg (restore text) (haccepted.replaced_perm hperm)⟩

/-! ### Line breaks of one kind -/

/-- All line breaks of a text are LF, or all are CRLF. -/
def UniformBreaks (cs : List Char) : Prop :=
  '\r' ∉ cs ∨ ((∀ i, cs[i]? = some '\r' → cs[i + 1]? = some '\n') ∧
    ∀ i, cs[i]? = some '\n' → ∃ j, i = j + 1 ∧ cs[j]? = some '\r')

theorem writeBreak_false (c : Char) : writeBreak false c = [c] := if_neg (by simp)

theorem writeBreak_of_ne {crlf : Bool} {c : Char} (h : c ≠ '\n') : writeBreak crlf c = [c] :=
  if_neg fun hc => h hc.2

theorem writeBreak_ne_nil (crlf : Bool) (c : Char) : writeBreak crlf c ≠ [] := by
  rw [writeBreak]
  split_ifs
  · exact List.cons_ne_nil _ _
  · exact List.cons_ne_nil _ _

theorem joinCrLf_cons_of_ne {c : Char} (cs : List Char) (h : c ≠ '\r') :
    joinCrLf (c :: cs) = c :: joinCrLf cs := by
  rw [joinCrLf]
  exact fun _ hc => absurd hc h

theorem joinCrLf_of_notMem {cs : List Char} (h : '\r' ∉ cs) : joinCrLf cs = cs := by
  induction cs with
  | nil => rfl
  | cons c cs ih =>
    obtain ⟨hc, hcs⟩ := not_or.mp (mt List.mem_cons.mpr h)
    rw [joinCrLf_cons_of_ne cs (Ne.symm hc), ih hcs]

theorem joinCrLf_flatMap {cs : List Char} (h : '\r' ∉ cs) :
    joinCrLf (cs.flatMap (writeBreak true)) = cs := by
  induction cs with
  | nil => rfl
  | cons c cs ih =>
    obtain ⟨hc, hcs⟩ := not_or.mp (mt List.mem_cons.mpr h)
    rw [List.flatMap_cons]
    by_cases hbreak : c = '\n'
    · rw [hbreak, show writeBreak true '\n' = ['\r', '\n'] from rfl]
      exact congrArg _ (ih hcs)
    · rw [writeBreak_of_ne hbreak, List.singleton_append, joinCrLf_cons_of_ne _ (Ne.symm hc),
        ih hcs]

/-- A text without CR is the same after CR was replaced. -/
theorem map_replaceCr {cs : List Char} (h : '\r' ∉ cs) :
    (cs.map fun c => if c = '\r' then '\n' else c) = cs := by
  refine (List.map_congr_left fun c hc => ?_).trans (List.map_id cs)
  exact if_neg fun heq : c = '\r' => h (heq ▸ hc)

/-- A text all of whose line breaks are CRLF is a text with LF, written with CRLF. -/
theorem exists_flatMap_writeBreak : (n : ℕ) → (cs : List Char) → cs.length ≤ n →
    (∀ i, cs[i]? = some '\r' → cs[i + 1]? = some '\n') →
    (∀ i, cs[i]? = some '\n' → ∃ j, i = j + 1 ∧ cs[j]? = some '\r') →
    ∃ lf : List Char, '\r' ∉ lf ∧ cs = lf.flatMap (writeBreak true)
  | _, [], _, _, _ => ⟨[], List.not_mem_nil, rfl⟩
  | 0, c :: cs, hlength, _, _ => absurd hlength (Nat.not_succ_le_zero _)
  | n + 1, c :: cs, hlength, hcr, hlf => by
    have hbreak : c ≠ '\n' := by
      rintro rfl
      obtain ⟨j, hj, -⟩ := hlf 0 rfl
      cases hj
    by_cases hc : c = '\r'
    · -- the text behind CRLF
      obtain _ | ⟨d, cs⟩ := cs
      · cases hcr 0 (congrArg some hc)
      obtain rfl : d = '\n' := Option.some.inj (hcr 0 (congrArg some hc))
      obtain ⟨lf, hlf', heq⟩ := exists_flatMap_writeBreak n cs (by
        rw [List.length_cons, List.length_cons] at hlength
        omega) (fun i hi => hcr (i + 2) hi) fun i hi => by
          obtain ⟨j, hj, hcj⟩ := hlf (i + 2) hi
          obtain rfl : j = i + 1 := by omega
          cases i with
          | zero => cases hcj
          | succ i => exact ⟨i, rfl, hcj⟩
      refine ⟨'\n' :: lf, ?_, ?_⟩
      · rw [List.mem_cons, not_or]
        exact ⟨by decide, hlf'⟩
      · rw [hc, List.flatMap_cons, ← heq]
        rfl
    · obtain ⟨lf, hlf', heq⟩ := exists_flatMap_writeBreak n cs
        (Nat.succ_le_succ_iff.mp hlength) (fun i hi => hcr (i + 1) hi) fun i hi => by
          obtain ⟨j, hj, hcj⟩ := hlf (i + 1) hi
          obtain rfl : j = i := by omega
          cases j with
          | zero => exact absurd (Option.some.inj hcj) hc
          | succ j => exact ⟨j, rfl, hcj⟩
      refine ⟨c :: lf, ?_, ?_⟩
      · rw [List.mem_cons, not_or]
        exact ⟨Ne.symm hc, hlf'⟩
      · rw [List.flatMap_cons, writeBreak_of_ne hbreak, ← heq]
        rfl

/-- A text all of whose line breaks are CRLF has such a break first. -/
theorem isCrLf_of_mem {cs : List Char} (hmem : '\n' ∈ cs)
    (hlf : ∀ i, cs[i]? = some '\n' → ∃ j, i = j + 1 ∧ cs[j]? = some '\r') : isCrLf cs = true := by
  have hline (i : ℕ) : OccursAt ['\n'] cs i ↔ cs[i]? = some '\n' := by
    rw [List.occursAt_cons]
    exact and_iff_left (List.occursAt_nil _ _)
  have hcrlf (i : ℕ) : OccursAt ['\r', '\n'] cs i ↔ cs[i]? = some '\r' ∧
      cs[i + 1]? = some '\n' := by
    rw [List.occursAt_cons, hline]
  cases hnext : nextMatch ['\n'] cs 0 with
  | none =>
    obtain ⟨i, hi⟩ := List.mem_iff_getElem?.mp hmem
    exact absurd ((hline i).mpr hi)
      ((List.nextMatch_eq_none_iff (List.cons_ne_nil _ _)).mp hnext i (Nat.zero_le i))
  | some i =>
    obtain ⟨-, hoccurs, hfirst⟩ := (List.nextMatch_eq_some_iff (List.cons_ne_nil _ _)).mp hnext
    obtain ⟨j, rfl, hj⟩ := hlf i ((hline i).mp hoccurs)
    have hbreak : nextMatch ['\r', '\n'] cs 0 = some j := by
      refine (List.nextMatch_eq_some_iff (List.cons_ne_nil _ _)).mpr ⟨Nat.zero_le j, ?_, ?_⟩
      · exact (hcrlf j).mpr ⟨hj, (hline _).mp hoccurs⟩
      · intro k _ hk hkoccurs
        exact hfirst (k + 1) (Nat.zero_le _) (by omega) ((hline _).mpr ((hcrlf k).mp hkoccurs).2)
    rw [isCrLf, hbreak, Option.any_some, hnext]
    exact decide_eq_true rfl

/-- **Line breaks of one kind are restored.** -/
theorem flatMap_writeBreak_normalizeBreaks {cs : List Char} (h : UniformBreaks cs) :
    (normalizeBreaks cs).flatMap (writeBreak (isCrLf cs)) = cs := by
  rcases h with h | ⟨hcr, hlf⟩
  · have hnone : nextMatch ['\r', '\n'] cs 0 = none := by
      refine (List.nextMatch_eq_none_iff (List.cons_ne_nil _ _)).mpr fun i _ hi => h ?_
      exact List.mem_iff_getElem?.mpr ⟨i, (List.occursAt_cons.mp hi).1⟩
    have hcrlf : isCrLf cs = false := by rw [isCrLf, hnone, Option.any_none]
    rw [hcrlf, normalizeBreaks, joinCrLf_of_notMem h, map_replaceCr h]
    exact (List.flatMap_congr fun c _ => writeBreak_false c).trans (List.flatMap_singleton' cs)
  · obtain ⟨lf, hnot, rfl⟩ := exists_flatMap_writeBreak _ _ le_rfl hcr hlf
    have hnormal : normalizeBreaks (lf.flatMap (writeBreak true)) = lf := by
      rw [normalizeBreaks, joinCrLf_flatMap hnot, map_replaceCr hnot]
    rw [hnormal]
    by_cases hmem : '\n' ∈ lf
    · have hmem' : '\n' ∈ lf.flatMap (writeBreak true) :=
        List.mem_flatMap.mpr ⟨'\n', hmem, by decide⟩
      rw [isCrLf_of_mem hmem' hlf]
    · refine List.flatMap_congr fun c hc => ?_
      have hne : c ≠ '\n' := fun heq => hmem (heq ▸ hc)
      rw [writeBreak_of_ne hne, writeBreak_of_ne hne]

/-! ### The result -/

/-- The range of the file that an edit replaces, and its new text in the line breaks of the file. -/
def fileRange (text : String) (edit : TextEdit) : Replacement Char :=
  (rangeOf (baseOf text) edit).write (markOf text.toList)
    (writeBreak (isCrLf (bodyOf text.toList))) (baseOf text)

theorem markOf_append_bodyOf (cs : List Char) : markOf cs ++ bodyOf cs = cs := by
  rw [bodyOf, markOf]
  split_ifs with hmark
  · obtain ⟨rest, rfl⟩ := List.head?_eq_some_iff.mp hmark
    rfl
  · rfl

/-- A text with line breaks of one kind, made of the text that is edited. -/
theorem toList_eq_of_uniform (h : UniformBreaks (bodyOf text.toList)) :
    text.toList = markOf text.toList ++
      (baseOf text).flatMap (writeBreak (isCrLf (bodyOf text.toList))) := by
  rw [baseOf, flatMap_writeBreak_normalizeBreaks h, markOf_append_bodyOf]

/-- The range of a file that an edit replaces holds the old text in the line breaks of the file. -/
theorem take_fileRange (h : UniformBreaks (bodyOf text.toList))
    (hfound : FoundOnce (baseOf text) edit) :
    (text.toList.drop (fileRange text edit).start).take (fileRange text edit).count =
      (oldTextOf edit).flatMap (writeBreak (isCrLf (bodyOf text.toList))) := by
  have hold : ((baseOf text).drop (rangeOf (baseOf text) edit).start).take
      (rangeOf (baseOf text) edit).count = oldTextOf edit := hfound.2.1.take_eq
  have hwrite := @List.take_drop_write _ _ (markOf text.toList)
    (writeBreak (isCrLf (bodyOf text.toList))) (baseOf text) (rangeOf (baseOf text) edit)
  rwa [← toList_eq_of_uniform h, hold] at hwrite

/-- **Replacement result.** The order of the edits changes neither whether they are accepted nor
what comes of them. In a file with line breaks of one kind, accepted edits replace the ranges of the
file that hold the old texts, in its line breaks, by the new texts in its line breaks; nothing else
changes. -/
theorem replacements_exact (text : String) (edits : List TextEdit) (work : ℕ) :
    (∀ edits', edits.Perm edits' → ∀ out, (applyReplacements text edits' work).1 = .ok out ↔
      (applyReplacements text edits work).1 = .ok out) ∧
    (UniformBreaks (bodyOf text.toList) → ∀ out,
      (applyReplacements text edits work).1 = .ok out →
      out.toList = substitute text.toList (edits.map (fileRange text)) ∧
      (edits.map (fileRange text)).Pairwise Separate ∧
      ∀ edit ∈ edits, OccursAt (oldTextOf edit) (baseOf text) (rangeOf (baseOf text) edit).start ∧
        (text.toList.drop (fileRange text edit).start).take (fileRange text edit).count =
          (oldTextOf edit).flatMap (writeBreak (isCrLf (bodyOf text.toList)))) := by
  refine ⟨fun edits' hperm out => ⟨applyReplacements_perm hperm.symm, applyReplacements_perm hperm⟩,
    fun huniform out h => ?_⟩
  obtain ⟨haccepted, -, rfl⟩ := applyReplacements_eq_ok_iff.mp h
  refine ⟨?_, ?_, fun edit hedit => ⟨(haccepted.found edit hedit).2.1,
    take_fileRange huniform (haccepted.found edit hedit)⟩⟩
  · have hbound : ∀ r ∈ edits.map (rangeOf (baseOf text)), r.stop ≤ (baseOf text).length := by
      intro r hr
      obtain ⟨edit, hedit, rfl⟩ := List.mem_map.mp hr
      exact (haccepted.found edit hedit).stop_le_length
    rw [restore, String.toList_ofList, replaced, List.append_flatMap_substitute_of_apart
      (writeBreak_ne_nil _) haccepted.apart haccepted.count_pos hbound,
      ← toList_eq_of_uniform huniform, List.map_map]
    rfl
  · rw [List.pairwise_map]
    refine (List.pairwise_map.mp haccepted.separate).imp fun {edit edit'} hs => ?_
    rw [Separate, fileRange, fileRange, Replacement.stop_write, Replacement.stop_write]
    exact hs.imp List.place_mono List.place_mono

/-- Two edits out of order, in a file with a byte order mark and CRLF. -/
theorem replacements_exact_crlf :
    (applyReplacements "\uFEFFa\r\nb" [⟨"b", "c"⟩, ⟨"a", "x\ny"⟩] 0).1 =
      .ok "\uFEFFx\r\ny\r\nc" ∧
    "\uFEFFx\r\ny\r\nc".toList = substitute "\uFEFFa\r\nb".toList
      ([⟨"b", "c"⟩, ⟨"a", "x\ny"⟩].map (fileRange "\uFEFFa\r\nb")) := by
  have hresult : (applyReplacements "\uFEFFa\r\nb" [⟨"b", "c"⟩, ⟨"a", "x\ny"⟩] 0).1 =
      .ok "\uFEFFx\r\ny\r\nc" := by decide +kernel
  have hbody : bodyOf "\uFEFFa\r\nb".toList = ['a', '\r', '\n', 'b'] := by decide +kernel
  have huniform : UniformBreaks (bodyOf "\uFEFFa\r\nb".toList) := by
    rw [hbody]
    refine Or.inr ⟨fun i hi => ?_, fun i hi => ?_⟩
    · obtain rfl : i = 1 := by
        rcases i with _ | _ | _ | _ | i <;> first | rfl | simp at hi
      rfl
    · obtain rfl : i = 2 := by
        rcases i with _ | _ | _ | _ | i <;> first | rfl | simp at hi
      exact ⟨1, rfl, rfl⟩
  exact ⟨hresult, ((replacements_exact _ _ 0).2 huniform _ hresult).1⟩

/-! ### Unique occurrences -/

/-- The replacement of an edit at a position. -/
def replacementAt (edit : TextEdit) (position : ℕ) : Replacement Char :=
  ⟨position, (oldTextOf edit).length, normalizeBreaks edit.newText.toList⟩

/-- What the edits of a file should be: the text of each occurs at exactly one position, the ranges
there are separate, and replacing them changes the text. -/
def Unambiguous (base : List Char) (edits : List TextEdit) : Prop :=
  ∃ position : TextEdit → ℕ,
    (∀ edit ∈ edits, oldTextOf edit ≠ [] ∧
      ∀ i, OccursAt (oldTextOf edit) base i ↔ i = position edit) ∧
    (edits.map fun edit => replacementAt edit (position edit)).Pairwise Separate ∧
    substitute base (edits.map fun edit => replacementAt edit (position edit)) ≠ base

/-- The text of an edit occurs again where it overlaps its first occurrence. -/
def OverlapsItself (base : List Char) (edit : TextEdit) : Prop :=
  ∃ i, (rangeOf base edit).start < i ∧ i < (rangeOf base edit).stop ∧
    OccursAt (oldTextOf edit) base i

/-- A text that occurs at one position only is found there. -/
theorem rangeOf_eq_of_unique {position : ℕ} (hne : oldTextOf edit ≠ [])
    (h : ∀ i, OccursAt (oldTextOf edit) base i ↔ i = position) :
    rangeOf base edit = replacementAt edit position := by
  have hnext : nextMatch (oldTextOf edit) base 0 = some position :=
    (List.nextMatch_eq_some_iff hne).mpr ⟨Nat.zero_le _, (h position).mpr rfl,
      fun j _ hlt hj => hlt.ne ((h j).mp hj)⟩
  rw [rangeOf, hnext, Option.getD_some, replacementAt]

theorem foundOnce_of_unique {position : ℕ} (hne : oldTextOf edit ≠ [])
    (h : ∀ i, OccursAt (oldTextOf edit) base i ↔ i = position) :
    FoundOnce base edit ∧ ¬OverlapsItself base edit := by
  have hrange := rangeOf_eq_of_unique hne h
  have hpos := List.length_pos_iff.mpr hne
  refine ⟨⟨hne, ?_, fun i hi => ?_, fun i hi hoccurs => ?_⟩, ?_⟩
  · exact (h _).mpr (congrArg Replacement.start hrange)
  · rw [hrange]
    exact ((h i).mp hi).ge
  · rw [hrange, Replacement.stop, replacementAt, (h i).mp hoccurs] at hi
    dsimp only at hi
    omega
  · rintro ⟨i, hlt, -, hoccurs⟩
    rw [hrange] at hlt
    exact hlt.ne' ((h i).mp hoccurs)

/-- A text that is found once occurs once, unless it overlaps itself. -/
theorem FoundOnce.occursAt_iff (h : FoundOnce base edit) (hself : ¬OverlapsItself base edit)
    (i : ℕ) : OccursAt (oldTextOf edit) base i ↔ i = (rangeOf base edit).start := by
  constructor
  · intro hi
    by_contra hne
    have hle := h.2.2.1 i hi
    exact hself ⟨i, by omega, Nat.lt_of_not_le fun hstop => h.2.2.2 i hstop hi, hi⟩
  · rintro rfl
    exact h.2.1

/-- Edits are as they should be when they are accepted and none overlaps itself. -/
theorem unambiguous_iff : Unambiguous base edits ↔
    Accepted base edits ∧ ∀ edit ∈ edits, ¬OverlapsItself base edit := by
  constructor
  · rintro ⟨position, hunique, hseparate, hchanged⟩
    have hranges : (edits.map fun edit => replacementAt edit (position edit)) =
        edits.map (rangeOf base) := List.map_congr_left fun edit hedit =>
      (rangeOf_eq_of_unique (hunique edit hedit).1 (hunique edit hedit).2).symm
    rw [hranges] at hseparate hchanged
    have heach (edit : TextEdit) (hedit : edit ∈ edits) :=
      foundOnce_of_unique (hunique edit hedit).1 (hunique edit hedit).2
    exact ⟨⟨fun edit hedit => (heach edit hedit).1, hseparate, hchanged⟩,
      fun edit hedit => (heach edit hedit).2⟩
  · rintro ⟨haccepted, hself⟩
    refine ⟨fun edit => (rangeOf base edit).start, fun edit hedit => ?_, haccepted.separate,
      haccepted.changed⟩
    have hfound := haccepted.found edit hedit
    exact ⟨hfound.1, hfound.occursAt_iff (hself edit hedit)⟩

/-- **Replacement acceptance.** Edits within the work limit are accepted exactly when each text
occurs at one position only, the ranges are separate and the text changes; but for edits that pass
although the text of one of them occurs again, overlapping its first occurrence: the scan for a
second occurrence starts behind the first. -/
theorem acceptance_iff (text : String) (edits : List TextEdit) (work : ℕ)
    (hwork : work + matchWork (baseOf text) edits ≤ maxMatchWork) :
    ((∃ out, (applyReplacements text edits work).1 = .ok out) ↔
      Unambiguous (baseOf text) edits) ↔
    ¬(Accepted (baseOf text) edits ∧ ∃ edit ∈ edits, OverlapsItself (baseOf text) edit) := by
  have haccepted : (∃ out, (applyReplacements text edits work).1 = .ok out) ↔
      Accepted (baseOf text) edits := by
    constructor
    · rintro ⟨out, h⟩
      exact (applyReplacements_eq_ok_iff.mp h).1
    · intro h
      exact ⟨_, applyReplacements_eq_ok_iff.mpr ⟨h, hwork, rfl⟩⟩
  rw [haccepted, unambiguous_iff]
  constructor
  · rintro hiff ⟨h, edit, hedit, hself⟩
    exact (hiff.mp h).2 edit hedit hself
  · intro hnot
    refine ⟨fun h => ⟨h, fun edit hedit hself => hnot ⟨h, edit, hedit, hself⟩⟩, fun h => h.1⟩

/-- A text that overlaps itself: it is replaced at the first of its two positions. -/
theorem acceptance_iff_overlap :
    0 + matchWork (baseOf "aaa") [⟨"aa", "b"⟩] ≤ maxMatchWork ∧
      ¬((∃ out, (applyReplacements "aaa" [⟨"aa", "b"⟩] 0).1 = .ok out) ↔
        Unambiguous (baseOf "aaa") [⟨"aa", "b"⟩]) := by
  have hresult : (applyReplacements "aaa" [⟨"aa", "b"⟩] 0).1 = .ok "ba" := by decide +kernel
  refine ⟨by decide +kernel, fun h => ?_⟩
  obtain ⟨position, hunique, -⟩ := h.mp ⟨_, hresult⟩
  obtain ⟨-, hiff⟩ := hunique ⟨"aa", "b"⟩ (List.mem_singleton_self _)
  have hzero := (hiff 0).mp (by decide +kernel)
  have hone := (hiff 1).mp (by decide +kernel)
  omega

/-- A text of two lines. -/
def twoLines : String := "let x = 1\r\nlet y = 22\r\n"

/-- Edits of the two lines, in another order than that of their texts. -/
def unorderedEdits : List TextEdit :=
  [⟨"y = 22", "z = 3"⟩, ⟨"1\nlet", "4\nvar"⟩, ⟨"let x", "x"⟩]

/-- Several edits whose texts occur once. -/
theorem acceptance_iff_once :
    (∃ out, (applyReplacements twoLines unorderedEdits 0).1 = .ok out) ↔
      Unambiguous (baseOf twoLines) unorderedEdits := by
  have hnone : ∀ edit ∈ unorderedEdits, ∀ i < (rangeOf (baseOf twoLines) edit).stop,
      (rangeOf (baseOf twoLines) edit).start < i →
      ¬ OccursAt (oldTextOf edit) (baseOf twoLines) i := by
    decide +kernel
  refine (acceptance_iff twoLines unorderedEdits 0 (by decide +kernel)).mpr ?_
  rintro ⟨-, edit, hedit, i, hlt, hstop, hoccurs⟩
  exact hnone edit hedit i hstop hlt hoccurs

end ExecutionProvider.Patch
