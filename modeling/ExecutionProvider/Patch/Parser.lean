import ExecutionProvider.Core.Types
import ExecutionProvider.Patch.Codex

/-!
# The parser of Codex patches

The text of a patch is split into lines. Between a first and a last line that mark it as a patch
stand its sections: files to be added, to be deleted, or to be updated in hunks. The parser goes
over the lines by their indices, in three loops: one over the sections, and one inside it for the
lines of a section that adds or updates a file.

The loops are given fuel, as the source does not say why they end, and an index that is out of
range has no result. `parseCodex` always has one (see `parseCodex_eq_read`).

## Main definitions

* `Section`: what a patch does with one file.
* `patchLines`: the lines of a patch.
* `UpdateState.line`: one line of an update section.
* `parseCodex`: the sections of a patch.
-/

namespace ExecutionProvider.Patch

/-- What a patch does with one file. -/
inductive Section
  | add (path content : String)
  | delete (path : String)
  | update (path : String) (moveTo : Option String) (chunks : List Chunk)
  | replace (file : ReplacementFile)
deriving DecidableEq

/-- The file that a section names. -/
def Section.path : Section → String
  | add path _ => path
  | delete path => path
  | update path _ _ => path
  | replace file => file.path

/-- The file that a section moves to. -/
def Section.moveTo : Section → Option String
  | update _ moveTo _ => moveTo
  | _ => none

/-- The lines of a patch. -/
def patchLines (text : String) : List String := (lines (trim text)).map stripReturn

/-- Directives about where a patch is to be applied. -/
def isRouting (header : String) : Bool :=
  startsWith "*** Environment ID:" header || startsWith "*** Workdir:" header ||
    startsWith "*** Workdir " header

/-- The line that a hunk begins with. -/
def isHunk (line : String) : Bool := line = "@@" || startsWith "@@ " line

/-- The line that says that a hunk lies at the end of the file. -/
def endOfFile : String := "*** End of File"

/-- A line that ends the section it stands in. -/
def endsSection (line : String) : Bool := startsWith "*** " line && line ≠ endOfFile

/-! ### The lines of an update -/

/-- The variables of the loop over the lines of an update. -/
structure UpdateState where
  chunks : List Chunk
  chunk : Chunk
  active : Bool
deriving DecidableEq

namespace UpdateState

/-- The state before the first line. -/
def init : UpdateState := ⟨[], ⟨none, [], [], false⟩, false⟩

/-- Whether the current chunk has lines. -/
def filled (s : UpdateState) : Bool := s.active && (s.chunk.old ≠ [] || s.chunk.new ≠ [])

/-- One line of an update, given its number. There is no result when it is none. -/
def line (s : UpdateState) (number : ℕ) (line : String) : Result UpdateState :=
  if isHunk line then
    let s := if s.filled then ⟨s.chunks ++ [s.chunk], ⟨none, [], [], false⟩, s.active⟩ else s
    .ok { s with chunk := { s.chunk with anchor := stripPrefix "@@ " line }, active := true }
  else if line = endOfFile then
    .ok { s with chunk := { s.chunk with eof := true } }
  else
    match stripPrefix "+" line, stripPrefix "-" line, stripPrefix " " line with
    | some t, _, _ =>
      .ok { s with chunk := { s.chunk with new := s.chunk.new ++ [t] }, active := true }
    | none, some t, _ =>
      .ok { s with chunk := { s.chunk with old := s.chunk.old ++ [t] }, active := true }
    | none, none, some t =>
      .ok { s with
        chunk := { s.chunk with old := s.chunk.old ++ [t], new := s.chunk.new ++ [t] }
        active := true }
    | none, none, none => .error (.invalid s!"invalid update line {number}")

/-- The chunks after the last line. -/
def finish (s : UpdateState) : List Chunk :=
  if s.filled then s.chunks ++ [s.chunk] else s.chunks

end UpdateState

/-! ### The loops over the lines -/

/-- The loop over the lines of an added file, from index `i` on. -/
def parseAdd (lines : List String) : ℕ → ℕ → String → Option (Result (String × ℕ))
  | 0, _, _ => none
  | fuel + 1, i, content =>
    if i < lines.length - 1 then
      match lines[i]? with
      | none => none
      | some line =>
        if startsWith "*** " line then some (.ok (content, i))
        else
          match stripPrefix "+" line with
          | none => some (.error (.invalid s!"invalid add line {i + 1}"))
          | some t => parseAdd lines fuel (i + 1) (content ++ t ++ "\n")
    else some (.ok (content, i))

/-- The loop over the lines of an update, from index `i` on. -/
def parseUpdate (lines : List String) : ℕ → ℕ → UpdateState → Option (Result (UpdateState × ℕ))
  | 0, _, _ => none
  | fuel + 1, i, s =>
    if i < lines.length - 1 then
      match lines[i]? with
      | none => none
      | some line =>
        if endsSection line then some (.ok (s, i))
        else
          match s.line (i + 1) line with
          | .error e => some (.error e)
          | .ok s => parseUpdate lines fuel (i + 1) s
    else some (.ok (s, i))

/-- The move at index `i`, with the index behind it. -/
def parseMove (lines : List String) (i : ℕ) : Option (Option String × ℕ) :=
  if i < lines.length - 1 then
    match lines[i]? with
    | none => none
    | some line =>
      match stripPrefix "*** Move to: " (trim line) with
      | some target => some (some target, i + 1)
      | none => some (none, i)
  else some (none, i)

/-- The loop over the sections, from index `i` on. -/
def parseSections (lines : List String) : ℕ → ℕ → List Section → Option (Result (List Section))
  | 0, _, _ => none
  | fuel + 1, i, sections =>
    if i < lines.length - 1 then
      match lines[i]? with
      | none => none
      | some line =>
        let header := trim line
        let i := i + 1
        if isRouting header then
          some (.error
            ⟨.unsupportedOperation, "embedded patch routing directives are unsupported"⟩)
        else
          match stripPrefix "*** Add File: " header, stripPrefix "*** Delete File: " header,
            stripPrefix "*** Update File: " header with
          | some path, _, _ =>
            match parseAdd lines lines.length i "" with
            | none => none
            | some (.error e) => some (.error e)
            | some (.ok (content, i)) =>
              parseSections lines fuel i (sections ++ [.add path content])
          | none, some path, _ => parseSections lines fuel i (sections ++ [.delete path])
          | none, none, some path =>
            match parseMove lines i with
            | none => none
            | some (moveTo, i) =>
              match parseUpdate lines lines.length i .init with
              | none => none
              | some (.error e) => some (.error e)
              | some (.ok (s, i)) =>
                if s.finish = [] then some (.error (.invalid "update section has no changes"))
                else parseSections lines fuel i (sections ++ [.update path moveTo s.finish])
          | none, none, none =>
            some (.error (.invalid s!"unexpected patch directive at line {i}"))
    else some (.ok sections)

/-- The sections of a patch. There is no result when the parser leaves the lines or does not
end. -/
def parseCodex (text : String) : Option (Result (List Section)) :=
  let lines := patchLines text
  if (lines.head?.all fun l => trim l ≠ "*** Begin Patch") ||
      lines.getLast?.all fun l => trim l ≠ "*** End Patch" then
    some (.error (.invalid "expected *** Begin Patch and *** End Patch"))
  else parseSections lines lines.length 1 []

end ExecutionProvider.Patch
