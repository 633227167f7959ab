import ExecutionProvider.Core.Error
import ExecutionProvider.Core.Text
import ExecutionProvider.Foundation.Substitution

/-!
# Applying the chunks of a Codex update

An update section of a Codex patch is a list of chunks. Each chunk names the lines it expects
and the lines that take their place; an optional anchor moves the cursor from which the expected
lines are sought. `applyCodex` splits the text of a file into lines, finds a range of lines
for every chunk, splices the new lines in from the last range to the first, and joins the result.

## Main definitions

* `Chunk`: one hunk of an update section.
* `seek`: the search for a pattern of lines, in four passes of decreasing strictness.
* `matchChunks`: the ranges of lines that the chunks match.
* `applyCodex`: the text after the update.
-/

namespace ExecutionProvider.Patch

open List (Replacement)

/-! ### Lines -/

/-- Typographic dashes, quotes and blanks written with their ASCII counterparts. -/
def punctuation (s : String) : String :=
  s.map fun c =>
    let n := c.toNat
    if (0x2010 ≤ n && n ≤ 0x2015) || n == 0x2212 then '-'
    else if 0x2018 ≤ n && n ≤ 0x201B then '\''
    else if 0x201C ≤ n && n ≤ 0x201F then '"'
    else if n == 0xA0 || (0x2002 ≤ n && n ≤ 0x200A) || n == 0x202F || n == 0x205F || n == 0x3000
    then ' '
    else c

/-- The lines of a text: what stands between its newlines, without the empty element that a
newline at the end of the text leaves. -/
def textLines (text : String) : List String :=
  let lines := (text.toList.splitOn '\n').map String.ofList
  if lines.getLast? = some "" then lines.dropLast else lines

/-- The text made of the given lines. An empty element that stands for the newline at the end is
appended unless the last line is empty already. -/
def joinLines (lines : List String) : String :=
  "\n".intercalate (if lines.getLast? = some "" then lines else lines ++ [""])

/-! ### The search for lines -/

/-- The number of line comparisons that the sections of one patch may spend. -/
def maxMatchWork : ℕ := 30000000

/-- The passes of a search, from the strictest comparison of lines to the most lenient. -/
inductive MatchPass
  | exact
  | trimmedEnd
  | trimmed
  | punctuation
deriving DecidableEq, Repr

/-- Whether a line agrees with a line of the pattern in a pass. -/
def MatchPass.agrees : MatchPass → String → String → Bool
  | .exact, a, b => a == b
  | .trimmedEnd, a, b => trimEnd a == trimEnd b
  | .trimmed, a, b => trim a == trim b
  | .punctuation, a, b => Patch.punctuation (trim a) == Patch.punctuation (trim b)

/-- Whether the lines from position `i` on agree with the pattern in a pass. -/
def matchesAt (lines pattern : List String) (pass : MatchPass) (i : ℕ) : Bool :=
  (((lines.drop i).take pattern.length).zip pattern).all fun p => pass.agrees p.1 p.2

/-- One pass over the `n` positions from `i` on. The work done so far goes in and comes out. -/
def seekPass (lines pattern : List String) (pass : MatchPass) :
    ℕ → ℕ → ℕ → Result (Option ℕ × ℕ)
  | _, 0, work => .ok (none, work)
  | i, n + 1, work =>
    if maxMatchWork < work + pattern.length then
      .error ⟨.resourceLimit, "patch matching work limit exceeded"⟩
    else if matchesAt lines pattern pass i then
      .ok (some i, work + pattern.length)
    else
      seekPass lines pattern pass (i + 1) n (work + pattern.length)

/-- The given passes one after another, until one of them finds the pattern. -/
def seekPasses (lines pattern : List String) (start n : ℕ) :
    List MatchPass → ℕ → Result (Option ℕ × ℕ)
  | [], work => .ok (none, work)
  | pass :: passes, work =>
    match seekPass lines pattern pass start n work with
    | .error e => .error e
    | .ok (some i, work) => .ok (some i, work)
    | .ok (none, work) => seekPasses lines pattern start n passes work

/-- The first position from `start` on where the pattern occurs. With `eof` set, only the last
lines of the file are compared. -/
def seek (lines pattern : List String) (start : ℕ) (eof : Bool) (work : ℕ) :
    Result (Option ℕ × ℕ) :=
  if lines.length < pattern.length then
    .ok (none, work)
  else
    let last := lines.length - pattern.length
    let first := if eof then last else start
    seekPasses lines pattern first (last + 1 - first)
      [.exact, .trimmedEnd, .trimmed, .punctuation] work

/-! ### The ranges of the chunks -/

/-- One hunk of an update section. -/
structure Chunk where
  anchor : Option String
  old : List String
  new : List String
  eof : Bool
deriving DecidableEq, Repr

/-- The variables of the loop over the chunks. -/
structure MatchState where
  cursor : ℕ
  lastEnd : ℕ
  replacements : List (Replacement String)
  work : ℕ
deriving DecidableEq, Repr

/-- The cursor after the anchor of a chunk, and the work done. -/
def seekAnchor (lines : List String) (n : ℕ) (chunk : Chunk) (cursor work : ℕ) :
    Result (ℕ × ℕ) :=
  match chunk.anchor with
  | none => .ok (cursor, work)
  | some anchor =>
    match seek lines [anchor] cursor false work with
    | .error e => .error e
    | .ok (none, _) => .error (.invalid s!"hunk {n}: context anchor not found")
    | .ok (some i, work) => .ok (i + 1, work)

/-- A list without the empty line at its end, which stands for the newline at the end of the
file. -/
def dropSentinel (lines : List String) : List String :=
  if lines.getLast? = some "" then lines.dropLast else lines

/-- The range that the expected lines of a chunk match from the cursor on. When they are not
found and end in an empty line, they are sought without it. -/
def seekOld (lines : List String) (n : ℕ) (chunk : Chunk) (cursor work : ℕ) :
    Result (Replacement String × ℕ) :=
  match seek lines chunk.old cursor chunk.eof work with
  | .error e => .error e
  | .ok (some i, work) => .ok (⟨i, chunk.old.length, chunk.new⟩, work)
  | .ok (none, work) =>
    if chunk.old.getLast? = some "" then
      match seek lines chunk.old.dropLast cursor chunk.eof work with
      | .error e => .error e
      | .ok (some i, work) =>
        .ok (⟨i, chunk.old.dropLast.length, dropSentinel chunk.new⟩, work)
      | .ok (none, _) => .error (.invalid s!"hunk {n}: expected lines not found")
    else
      .error (.invalid s!"hunk {n}: expected lines not found")

/-- One round of the loop over the chunks. A pure insertion goes to the end of the file and
leaves the cursor behind its anchor. -/
def matchChunk (lines : List String) (n : ℕ) (chunk : Chunk) (s : MatchState) :
    Result MatchState :=
  match seekAnchor lines n chunk s.cursor s.work with
  | .error e => .error e
  | .ok (cursor, work) =>
    if chunk.old = [] then
      .ok { s with
        cursor := cursor
        work := work
        replacements := s.replacements ++ [⟨lines.length, 0, chunk.new⟩] }
    else
      match seekOld lines n chunk cursor work with
      | .error e => .error e
      | .ok (r, work) =>
        if r.start < cursor ∨ r.start < s.lastEnd ∨ lines.length < r.stop then
          .error (.invalid s!"hunk {n}: overlapping or out-of-order range")
        else
          .ok ⟨r.stop, r.stop, s.replacements ++ [r], work⟩

/-- The loop over the chunks, from chunk number `n` on. -/
def matchLoop (lines : List String) : ℕ → List Chunk → MatchState → Result MatchState
  | _, [], s => .ok s
  | n, chunk :: chunks, s =>
    match matchChunk lines n chunk s with
    | .error e => .error e
    | .ok s => matchLoop lines (n + 1) chunks s

/-- The ranges of lines that the chunks match, with their new lines, and the work done. -/
def matchChunks (lines : List String) (chunks : List Chunk) (work : ℕ) :
    Result (List (Replacement String) × ℕ) :=
  match matchLoop lines 0 chunks ⟨0, 0, [], work⟩ with
  | .error e => .error e
  | .ok s => .ok (s.replacements, s.work)

/-- The text after an update: the new lines of every chunk are spliced in, from the last range
to the first. -/
def applyCodex (text : String) (chunks : List Chunk) (work : ℕ) : Result (String × ℕ) :=
  match matchChunks (textLines text) chunks work with
  | .error e => .error e
  | .ok (replacements, work) =>
    .ok (joinLines ((List.sortByStart replacements).foldr (fun r lines => lines.splice r)
      (textLines text)), work)

end ExecutionProvider.Patch
