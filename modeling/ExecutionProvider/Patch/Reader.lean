import ExecutionProvider.Patch.CodexResult
import ExecutionProvider.Patch.Parser

/-!
# Reading a patch line by line

The loops of the parser amount to one pass over the lines of a patch, in which a state says what
stands open: nothing, a file to be added, a file to be updated of which only the header was
read, or the lines of an update. The pass gives the sections as they stand in the text; the lines
of an update are made into chunks afterwards.

## Main definitions

* `UpdateLine`: a line of an update.
* `SectionText`: a section as it stands in the text, and what the parser makes of it.
* `ReadState.step`, `read`: one line, and the pass over all lines.

## Main results

* `parseCodex_eq_read`: the parser always has a result, which is that of the pass.
-/

namespace ExecutionProvider.Patch

/-! ### The lines of an update -/

/-- A line of an update: the head of a hunk with its anchor, the mark that a hunk lies at the end
of the file, or a line that is added, removed, or expected and kept. -/
inductive UpdateLine
  | hunk (anchor : Option String)
  | eof
  | added (text : String)
  | removed (text : String)
  | context (text : String)
deriving DecidableEq, Repr

namespace UpdateLine

/-- What a line is read as. -/
def read (line : String) : Option UpdateLine :=
  if isHunk line then some (.hunk (stripPrefix "@@ " line))
  else if line = endOfFile then some .eof
  else
    match stripPrefix "+" line, stripPrefix "-" line, stripPrefix " " line with
    | some t, _, _ => some (.added t)
    | none, some t, _ => some (.removed t)
    | none, none, some t => some (.context t)
    | none, none, none => none

end UpdateLine

namespace UpdateState

/-- The variables of the loop after a line. -/
def next (s : UpdateState) : UpdateLine → UpdateState
  | .hunk anchor =>
    { chunks := s.finish
      chunk := if s.filled then ⟨anchor, [], [], false⟩ else { s.chunk with anchor := anchor }
      active := true }
  | .eof => { s with chunk := { s.chunk with eof := true } }
  | .added t => { s with chunk := { s.chunk with new := s.chunk.new ++ [t] }, active := true }
  | .removed t => { s with chunk := { s.chunk with old := s.chunk.old ++ [t] }, active := true }
  | .context t =>
    { s with
      chunk := { s.chunk with old := s.chunk.old ++ [t], new := s.chunk.new ++ [t] }
      active := true }

/-- The loop reads a line and goes on from it. -/
theorem line_eq (s : UpdateState) (number : ℕ) (line : String) :
    s.line number line =
      match UpdateLine.read line with
      | some l => .ok (s.next l)
      | none => .error (.invalid s!"invalid update line {number}") := by
  rw [UpdateState.line, UpdateLine.read]
  by_cases hhunk : isHunk line = true
  · rw [if_pos hhunk, if_pos hhunk]
    by_cases hfilled : s.filled = true
    · simp only [next, finish, hfilled, if_true]
    · simp only [next, finish, hfilled, Bool.false_eq_true, if_false]
  · rw [if_neg hhunk, if_neg hhunk]
    by_cases heof : line = endOfFile
    · rw [if_pos heof, if_pos heof]
      rfl
    · rw [if_neg heof, if_neg heof]
      cases stripPrefix "+" line with
      | some t => rfl
      | none =>
        cases stripPrefix "-" line with
        | some t => rfl
        | none =>
          cases stripPrefix " " line with
          | some t => rfl
          | none => rfl

end UpdateState

/-- The chunks that the lines of an update make. -/
def chunksOf (lines : List UpdateLine) : List Chunk :=
  (lines.foldl UpdateState.next .init).finish

@[simp] theorem chunksOf_nil : chunksOf [] = [] := rfl

/-! ### The pass over the lines -/

/-- A section of a patch as it stands in the text. -/
inductive SectionText
  | add (path : String) (lines : List String)
  | delete (path : String)
  | update (path : String) (moveTo : Option String) (lines : List UpdateLine)
deriving DecidableEq

/-- What the parser makes of a section. -/
def SectionText.parsed : SectionText → Section
  | add path lines => .add path (terminated lines)
  | delete path => .delete path
  | update path moveTo lines => .update path moveTo (chunksOf lines)

/-- What stands open when a line is read. -/
inductive ReadState
  | between
  | adding (path : String) (lines : List String)
  | opened (path : String)
  | updating (path : String) (moveTo : Option String) (lines : List UpdateLine)
deriving DecidableEq

/-- The file that a line says an update moves to. -/
def moveTarget (line : String) : Option String := stripPrefix "*** Move to: " (trim line)

namespace ReadState

/-- Whether a line ends what stands open. -/
def ends : ReadState → String → Bool
  | between, _ => true
  | adding _ _, line => startsWith "*** " line
  | opened _, line => (moveTarget line).isNone && endsSection line
  | updating _ _ _, line => endsSection line

@[simp] theorem ends_between (line : String) : between.ends line = true := rfl

/-- The section that stood open. -/
def close : ReadState → Result (List SectionText)
  | between => .ok []
  | adding path lines => .ok [.add path lines]
  | opened _ => .error (.invalid "update section has no changes")
  | updating path moveTo lines =>
    if chunksOf lines = [] then .error (.invalid "update section has no changes")
    else .ok [.update path moveTo lines]

@[simp] theorem close_between : between.close = .ok [] := rfl

theorem close_updating {ls : List UpdateLine} (h : chunksOf ls ≠ []) (path : String)
    (moveTo : Option String) :
    (updating path moveTo ls).close = .ok [.update path moveTo ls] := by
  rw [close, if_neg h]

theorem close_updating_eq_error {ls : List UpdateLine} (h : chunksOf ls = []) (path : String)
    (moveTo : Option String) :
    (updating path moveTo ls).close = .error (.invalid "update section has no changes") := by
  rw [close, if_pos h]

/-- The header of a section, given its number. A file to be deleted has no lines. -/
def header (number : ℕ) (line : String) : Result (List SectionText × ReadState) :=
  if isRouting (trim line) then
    .error ⟨.unsupportedOperation, "embedded patch routing directives are unsupported"⟩
  else
    match stripPrefix "*** Add File: " (trim line), stripPrefix "*** Delete File: " (trim line),
      stripPrefix "*** Update File: " (trim line) with
    | some path, _, _ => .ok ([], adding path [])
    | none, some path, _ => .ok ([.delete path], between)
    | none, none, some path => .ok ([], opened path)
    | none, none, none => .error (.invalid s!"unexpected patch directive at line {number}")

/-- A line of an update, given its number. -/
def update (number : ℕ) (path : String) (moveTo : Option String) (lines : List UpdateLine)
    (line : String) : Result ReadState :=
  match UpdateLine.read line with
  | some l => .ok (updating path moveTo (lines ++ [l]))
  | none => .error (.invalid s!"invalid update line {number}")

/-- A line that ends nothing, given its number. -/
def content (number : ℕ) : ReadState → String → Result ReadState
  | between, _ => .ok between
  | adding path lines, line =>
    match stripPrefix "+" line with
    | some t => .ok (adding path (lines ++ [t]))
    | none => .error (.invalid s!"invalid add line {number}")
  | opened path, line =>
    match moveTarget line with
    | some target => .ok (updating path (some target) [])
    | none => update number path none [] line
  | updating path moveTo lines, line => update number path moveTo lines line

/-- One line, given its number: the sections it ends, and what stands open then. -/
def step (number : ℕ) (s : ReadState) (line : String) : Result (List SectionText × ReadState) :=
  if s.ends line then
    match s.close with
    | .error e => .error e
    | .ok done => (header number line).map fun r => (done ++ r.1, r.2)
  else (s.content number line).map fun s => ([], s)

end ReadState

/-- The sections that the lines end, from line number `number` on. -/
def read : ℕ → ReadState → List String → Result (List SectionText)
  | _, s, [] => s.close
  | number, s, line :: lines =>
    match s.step number line with
    | .error e => .error e
    | .ok (done, s) => (read (number + 1) s lines).map (done ++ ·)

/-- The sections of a patch as they stand in the text. -/
def readCodex (text : String) : Result (List SectionText) :=
  let lines := patchLines text
  if (lines.head?.all fun l => trim l ≠ "*** Begin Patch") ||
      lines.getLast?.all fun l => trim l ≠ "*** End Patch" then
    .error (.invalid "expected *** Begin Patch and *** End Patch")
  else read 2 .between lines.dropLast.tail

/-! ### The parser and the pass -/

variable {lines : List String} {i : ℕ}

section Read

variable {s : ReadState} {number : ℕ} {rest : List String}

/-- What stood open is closed before anything else. -/
theorem read_of_close {done : List SectionText} (hclose : s.close = .ok done)
    (hends : ∀ line ∈ rest.head?, s.ends line = true) :
    read number s rest = (read number .between rest).map (done ++ ·) := by
  cases rest with
  | nil =>
    rw [read, read, hclose]
    exact congrArg Except.ok (List.append_nil done).symm
  | cons line rest =>
    have hline : s.ends line = true := hends line rfl
    rw [read, read, ReadState.step, ReadState.step, if_pos hline,
      if_pos (ReadState.ends_between line), hclose]
    cases ReadState.header number line with
    | error e => rfl
    | ok r =>
      change (read (number + 1) r.2 rest).map (fun texts => done ++ r.1 ++ texts) =
        ((read (number + 1) r.2 rest).map fun texts => [] ++ r.1 ++ texts).map (done ++ ·)
      cases read (number + 1) r.2 rest with
      | error e => rfl
      | ok texts => exact congrArg Except.ok (List.append_assoc _ _ _)

theorem read_of_close_error {e : Error} (hclose : s.close = .error e)
    (hends : ∀ line ∈ rest.head?, s.ends line = true) : read number s rest = .error e := by
  cases rest with
  | nil => rw [read, hclose]
  | cons line rest =>
    have hline : s.ends line = true := hends line rfl
    rw [read, ReadState.step, if_pos hline, hclose]

/-- A line that ends nothing is content of what stands open. -/
theorem read_cons_of_content {line : String} (hends : s.ends line = false) :
    read number s (line :: rest) =
      match s.content number line with
      | .error e => .error e
      | .ok s => read (number + 1) s rest := by
  rw [read, ReadState.step, hends, if_neg Bool.false_ne_true]
  cases s.content number line with
  | error e => rfl
  | ok s' =>
    change (read (number + 1) s' rest).map ([] ++ ·) = read (number + 1) s' rest
    cases read (number + 1) s' rest <;> rfl

end Read

/-- The lines between the first and the last, from an index on. -/
theorem drop_dropLast_of_lt (hi : i < lines.length - 1) :
    ∃ line, lines[i]? = some line ∧
      lines.dropLast.drop i = line :: lines.dropLast.drop (i + 1) := by
  have hlen : i < lines.dropLast.length := by rw [List.length_dropLast]; exact hi
  refine ⟨lines.dropLast[i], ?_, List.drop_eq_getElem_cons hlen⟩
  rw [List.getElem_dropLast]
  exact List.getElem?_eq_getElem _

theorem drop_dropLast_of_ge (hi : ¬ i < lines.length - 1) : lines.dropLast.drop i = [] :=
  List.drop_eq_nil_of_le (by rw [List.length_dropLast]; omega)

/-- The loop over the lines of an added file stops where the pass closes it. -/
theorem parseAdd_eq {fuel : ℕ} (path : String) (added : List String)
    (hfuel : lines.length - 1 - i < fuel) :
    (∃ added' i', i ≤ i' ∧
      parseAdd lines fuel i (terminated added) = some (.ok (terminated added', i')) ∧
      (∀ line ∈ (lines.dropLast.drop i').head?, (ReadState.adding path added').ends line = true) ∧
      read (i + 1) (.adding path added) (lines.dropLast.drop i) =
        read (i' + 1) (.adding path added') (lines.dropLast.drop i')) ∨
    ∃ e, parseAdd lines fuel i (terminated added) = some (.error e) ∧
      read (i + 1) (.adding path added) (lines.dropLast.drop i) = .error e := by
  induction fuel generalizing i added with
  | zero => exact absurd hfuel (Nat.not_lt_zero _)
  | succ fuel ih =>
    by_cases hi : i < lines.length - 1
    · obtain ⟨line, hline, hdrop⟩ := drop_dropLast_of_lt hi
      simp only [parseAdd, if_pos hi, hline]
      by_cases hends : startsWith "*** " line = true
      · simp only [if_pos hends]
        refine Or.inl ⟨added, i, le_rfl, rfl, fun line' hline' => ?_, rfl⟩
        rw [hdrop] at hline'
        obtain rfl := Option.some.inj hline'
        exact hends
      · rw [if_neg hends, hdrop, read_cons_of_content (by simpa [ReadState.ends] using hends),
          ReadState.content]
        cases stripPrefix "+" line with
        | none => exact Or.inr ⟨_, rfl, rfl⟩
        | some t =>
          have hcontent : terminated added ++ t ++ "\n" = terminated (added ++ [t]) := by
            rw [terminated_append, String.append_assoc]
            simp [terminated]
          dsimp only
          rw [hcontent]
          rcases @ih (i + 1) (added ++ [t]) (by omega) with
            ⟨added', i', hle, hparse, hends', hread⟩ | herror
          · exact Or.inl ⟨added', i', by omega, hparse, hends', hread⟩
          · exact Or.inr herror
    · simp only [parseAdd, if_neg hi]
      refine Or.inl ⟨added, i, le_rfl, rfl, fun line' hline' => ?_, rfl⟩
      rw [drop_dropLast_of_ge hi] at hline'
      cases hline'

/-- The loop over the lines of an update stops where the pass closes it. -/
theorem parseUpdate_eq {fuel : ℕ} (path : String) (moveTo : Option String)
    (ls : List UpdateLine) (hfuel : lines.length - 1 - i < fuel) :
    (∃ ls' i', i ≤ i' ∧
      parseUpdate lines fuel i (ls.foldl .next .init) =
        some (.ok (ls'.foldl .next .init, i')) ∧
      (∀ line ∈ (lines.dropLast.drop i').head?, endsSection line = true) ∧
      read (i + 1) (.updating path moveTo ls) (lines.dropLast.drop i) =
        read (i' + 1) (.updating path moveTo ls') (lines.dropLast.drop i')) ∨
    ∃ e, parseUpdate lines fuel i (ls.foldl .next .init) = some (.error e) ∧
      read (i + 1) (.updating path moveTo ls) (lines.dropLast.drop i) = .error e := by
  induction fuel generalizing i ls with
  | zero => exact absurd hfuel (Nat.not_lt_zero _)
  | succ fuel ih =>
    by_cases hi : i < lines.length - 1
    · obtain ⟨line, hline, hdrop⟩ := drop_dropLast_of_lt hi
      simp only [parseUpdate, if_pos hi, hline]
      by_cases hends : endsSection line = true
      · simp only [if_pos hends]
        refine Or.inl ⟨ls, i, le_rfl, rfl, fun line' hline' => ?_, rfl⟩
        rw [hdrop] at hline'
        obtain rfl := Option.some.inj hline'
        exact hends
      · rw [if_neg hends, hdrop, read_cons_of_content (by simpa [ReadState.ends] using hends),
          ReadState.content, ReadState.update, UpdateState.line_eq]
        cases UpdateLine.read line with
        | none => exact Or.inr ⟨_, rfl, rfl⟩
        | some l =>
          have hfold : (ls.foldl .next .init : UpdateState).next l =
              (ls ++ [l]).foldl .next .init := by rw [List.foldl_append]; rfl
          dsimp only
          rw [hfold]
          rcases @ih (i + 1) (ls ++ [l]) (by omega) with
            ⟨ls', i', hle, hparse, hends', hread⟩ | herror
          · exact Or.inl ⟨ls', i', by omega, hparse, hends', hread⟩
          · exact Or.inr herror
    · simp only [parseUpdate, if_neg hi]
      refine Or.inl ⟨ls, i, le_rfl, rfl, fun line' hline' => ?_, rfl⟩
      rw [drop_dropLast_of_ge hi] at hline'
      cases hline'

/-- The loop over an update, from behind its header on: the move, the lines, and the end. -/
theorem parseMove_eq (path : String) :
    ∃ moveTo i', i ≤ i' ∧ i' ≤ i + 1 ∧ parseMove lines i = some (moveTo, i') ∧
      (read (i + 1) (.opened path) (lines.dropLast.drop i) =
        read (i' + 1) (.updating path moveTo []) (lines.dropLast.drop i')) := by
  by_cases hi : i < lines.length - 1
  · obtain ⟨line, hline, hdrop⟩ := drop_dropLast_of_lt hi
    cases htarget : moveTarget line with
    | some target =>
      refine ⟨some target, i + 1, Nat.le_succ i, le_rfl, ?_, ?_⟩
      · simp only [parseMove, if_pos hi, hline]
        rw [← moveTarget, htarget]
      · rw [hdrop, read_cons_of_content (by simp [ReadState.ends, htarget]), ReadState.content,
          htarget]
    | none =>
      refine ⟨none, i, le_rfl, Nat.le_succ i, ?_, ?_⟩
      · simp only [parseMove, if_pos hi, hline]
        rw [← moveTarget, htarget]
      · rw [hdrop]
        by_cases hends : endsSection line = true
        · rw [@read_of_close_error (.opened path) _ _ _ rfl
              (by simp [ReadState.ends, htarget, hends]),
            read_of_close_error (ReadState.close_updating_eq_error chunksOf_nil path none)
              (by simp [ReadState.ends, hends])]
        · rw [read_cons_of_content (by simpa [ReadState.ends, htarget] using hends),
            read_cons_of_content (by simpa [ReadState.ends] using hends), ReadState.content,
            htarget]
          rfl
  · refine ⟨none, i, le_rfl, Nat.le_succ i, by rw [parseMove, if_neg hi], ?_⟩
    rw [drop_dropLast_of_ge hi, read, read, ReadState.close_updating_eq_error chunksOf_nil]
    rfl

/-- The loop over the sections is the pass over the lines. -/
theorem parseSections_eq {fuel : ℕ} (sections : List Section)
    (hfuel : lines.length - 1 - i < fuel) :
    parseSections lines fuel i sections =
      some ((read (i + 1) .between (lines.dropLast.drop i)).map fun texts =>
        sections ++ texts.map SectionText.parsed) := by
  induction fuel generalizing i sections with
  | zero => exact absurd hfuel (Nat.not_lt_zero _)
  | succ fuel ih =>
    by_cases hi : i < lines.length - 1
    · obtain ⟨line, hline, hdrop⟩ := drop_dropLast_of_lt hi
      have hinner (j : ℕ) : lines.length - 1 - j < lines.length := by omega
      rw [parseSections, if_pos hi, hline, hdrop, read, ReadState.step,
        if_pos (ReadState.ends_between line), ReadState.close_between, ReadState.header]
      dsimp only
      by_cases hrouting : isRouting (trim line) = true
      · rw [if_pos hrouting, if_pos hrouting]
        rfl
      rw [if_neg hrouting, if_neg hrouting]
      cases stripPrefix "*** Add File: " (trim line) with
      | some path =>
        dsimp only [Except.map]
        rcases parseAdd_eq path [] (hinner (i + 1)) with
          ⟨added, i', hle, hparse, hends, hread⟩ | ⟨e, hparse, hread⟩
        · rw [terminated_nil] at hparse
          rw [hparse, hread, read_of_close rfl hends]
          dsimp only
          rw [ih _ (by omega)]
          cases read (i' + 1) .between (lines.dropLast.drop i') with
          | error e => rfl
          | ok texts => simp [Except.map, SectionText.parsed]
        · rw [terminated_nil] at hparse
          rw [hparse, hread]
      | none =>
        cases stripPrefix "*** Delete File: " (trim line) with
        | some path =>
          dsimp only [Except.map]
          rw [ih _ (by omega)]
          cases read (i + 1 + 1) .between (lines.dropLast.drop (i + 1)) with
          | error e => rfl
          | ok texts => simp [Except.map, SectionText.parsed]
        | none =>
          cases stripPrefix "*** Update File: " (trim line) with
          | none => rfl
          | some path =>
            dsimp only [Except.map]
            obtain ⟨moveTo, i₁, hle₁, hle₂, hmove, hread₁⟩ := @parseMove_eq lines (i + 1) path
            rw [hmove, hread₁]
            dsimp only
            rcases parseUpdate_eq path moveTo [] (hinner i₁) with
              ⟨ls, i', hle, hparse, hends, hread⟩ | ⟨e, hparse, hread⟩
            · rw [List.foldl_nil] at hparse
              rw [hparse, hread]
              dsimp only
              rw [← chunksOf]
              by_cases hempty : chunksOf ls = []
              · rw [if_pos hempty,
                  read_of_close_error (ReadState.close_updating_eq_error hempty path moveTo) hends]
              · rw [if_neg hempty, ih _ (by omega),
                  read_of_close (ReadState.close_updating hempty path moveTo) hends]
                cases read (i' + 1) .between (lines.dropLast.drop i') with
                | error e => rfl
                | ok texts => simp [Except.map, SectionText.parsed]
            · rw [List.foldl_nil] at hparse
              rw [hparse, hread]
    · rw [parseSections, if_neg hi, drop_dropLast_of_ge hi]
      exact congrArg (fun s => some (Except.ok s)) (List.append_nil sections).symm

/-- **The parser reads line by line.** It has a result for every text, so it ends and never leaves
the lines; and the result is what the pass over the lines gives. -/
theorem parseCodex_eq_read (text : String) :
    parseCodex text = some ((readCodex text).map (List.map SectionText.parsed)) := by
  rw [parseCodex, readCodex]
  split_ifs with hframe
  · rfl
  · have hne : patchLines text ≠ [] := fun hnil => hframe (by rw [hnil]; rfl)
    have hlen : 0 < (patchLines text).length := List.length_pos_of_ne_nil hne
    rw [parseSections_eq [] (by omega), List.drop_one]
    rfl

end ExecutionProvider.Patch
