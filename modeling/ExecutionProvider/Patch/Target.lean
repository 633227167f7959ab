import ExecutionProvider.Filesystem.Files
import ExecutionProvider.Foundation.Table

/-!
# The files that a patch names

The path of a section is resolved component by component. A component that is a symbolic link is
replaced by what it points to, up to forty times; what exists is then written in its canonical form,
and what does not exist stays as it is. Two paths of one patch that lead to the same file must be
spelled alike, apart from dots.

## Main definitions

* `resolveComponent`: a path, extended by a component and resolved.
* `target`: the file that a path leads to.
-/

namespace ExecutionProvider.Patch

open Filesystem

/-- The largest number of bytes of a path. -/
def maxPathBytes : ℕ := 4096

/-- A path whose links at the end are followed, at most as many as given. -/
def followLinks : ℕ → String → FileM String
  | 0, resolved => pure resolved
  | n + 1, resolved => do
    match ← attempt (sys (.symlinkMetadata resolved)) with
    | .error _ => return resolved
    | .ok metadata =>
      if !metadata.isSymlink then return resolved
      let link ← io (sys (.readLink resolved))
      if Path.isAbsolute link then followLinks n link
      else
        match Path.parent resolved with
        | none => throw (.invalid "invalid patch path")
        | some parent => followLinks n (Path.join parent link)

/-- A path in its canonical form, if it exists. -/
def canonicalIfExists (resolved : String) : FileM String := do
  match ← attempt (sys (.metadata resolved)) with
  | .ok _ => io (sys (.canonicalize resolved))
  | .error _ => return resolved

/-- A path without links at its end, in its canonical form if it exists. -/
def resolveEnd (path : String) : FileM String := do
  let resolved ← followLinks maxLinks path
  if ((← attempt (sys (.symlinkMetadata resolved))).toOption.any Metadata.isSymlink) then
    throw (.invalid "too many symbolic links")
  canonicalIfExists resolved

/-- A resolved path, extended by a component. -/
def resolveComponent (resolved : String) : Path.Component → FileM String
  | .parentDir => return Path.pop resolved
  | .curDir => return resolved
  | c => resolveEnd (Path.join resolved c.text)

/-- The files that were named so far, each with the path by which it was named. -/
abbrev Aliases := Table (List Path.Component) String

/-- A path in a directory. -/
def absolute (cwd input : String) : FileM String := do
  let joined := if Path.isAbsolute input then input else Path.join cwd input
  if Path.isAbsolute joined then return joined
  else return Path.join (← io (sys .currentDir)) joined

/-- A file is named by a path. It may not have been named by another one. -/
def Aliases.name (aliases : Aliases) (resolved normalized : String) : Result Aliases :=
  match aliases.lookup (Path.components resolved) with
  | some prior =>
    if Path.components prior ≠ Path.components normalized then
      .error (.invalid ("conflicting path aliases: " ++ prior ++ " and " ++ normalized))
    else .ok (aliases.insert (Path.components resolved) normalized)
  | none => .ok (aliases.insert (Path.components resolved) normalized)

/-- The file that a path leads to, with the files that were named so far. -/
def target (cwd input : String) (aliases : Aliases) : FileM (String × Aliases) := do
  if input = "" then throw (.invalid "empty patch path")
  let joined ← absolute cwd input
  if maxPathBytes < joined.utf8ByteSize then
    throw ⟨.resourceLimit, "patch path exceeds 4096 bytes"⟩
  let resolved ← (Path.components joined).foldlM resolveComponent ""
  let aliases ← aliases.name resolved (Path.normalize joined)
  return (resolved, aliases)

end ExecutionProvider.Patch
