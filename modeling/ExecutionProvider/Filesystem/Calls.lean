import Mathlib.Data.Nat.Notation
import ExecutionProvider.Core.Error
import ExecutionProvider.Foundation.Programs

/-!
# Calls of the operating system

The work on files is a program of calls. The answers are those of the operating system, where any
call may fail and where other processes change files as they like.

## Main definitions

* `SysCall`, `SysCall.Answer`: the calls and what they are answered.
* `SysCall.changes`: whether a call changes a file or a directory.
* `FileM`: fallible work on files.

## Main results

* `ends_attempt`, `ends_io`: rules for single calls.
-/

namespace ExecutionProvider.Filesystem

/-- An error of the operating system. -/
structure IoError where
  notFound : Bool
  message : String
deriving DecidableEq

/-- The error of the core for one of the operating system. -/
def mapIo (e : IoError) : Error := ⟨if e.notFound then .notFound else .io, e.message⟩

/-- What is known of a file, or of a symbolic link. -/
structure Metadata where
  isFile : Bool
  isDirectory : Bool
  isSymlink : Bool
  size : ℕ
  permissions : ℕ
deriving DecidableEq

/-- A call of the operating system. An open file goes by a number. -/
inductive SysCall
  | symlinkMetadata (path : String)
  | metadata (path : String)
  | readLink (path : String)
  | canonicalize (path : String)
  | currentDir
  | openFile (path : String)
  | readUpTo (file limit : ℕ)
  | createDirAll (path : String)
  | createNew (path : String)
  | writeAll (file : ℕ) (data : List UInt8)
  | syncAll (file : ℕ)
  | setPermissions (path : String) (permissions : ℕ)
  | rename (source destination : String)
  | removeFile (path : String)
  | newUuid
deriving DecidableEq

/-- What a call is answered. -/
@[reducible] def SysCall.Answer : SysCall → Type
  | symlinkMetadata _ | metadata _ => Except IoError Metadata
  | readLink _ | canonicalize _ | currentDir => Except IoError String
  | openFile _ | createNew _ => Except IoError ℕ
  | readUpTo _ _ => Except IoError (List UInt8)
  | createDirAll _ | writeAll _ _ | syncAll _ | setPermissions _ _ | rename _ _ | removeFile _ =>
    Except IoError Unit
  | newUuid => String

/-- The error that a call is answered, if any. -/
def SysCall.failure : (c : SysCall) → c.Answer → Option IoError
  | symlinkMetadata _, .error e | metadata _, .error e => some e
  | readLink _, .error e | canonicalize _, .error e | currentDir, .error e => some e
  | openFile _, .error e | createNew _, .error e | readUpTo _ _, .error e => some e
  | createDirAll _, .error e | writeAll _ _, .error e | syncAll _, .error e => some e
  | setPermissions _ _, .error e | rename _ _, .error e | removeFile _, .error e => some e
  | _, _ => none

/-- Whether a call changes a file or a directory. -/
def SysCall.changes : SysCall → Bool
  | createDirAll _ | createNew _ | writeAll _ _ | setPermissions _ _ | rename _ _ |
    removeFile _ => true
  | _ => false

/-- Work on files. -/
abbrev FileWork (α : Type) := Program SysCall SysCall.Answer α

/-- A single call. -/
def sys (c : SysCall) : FileWork c.Answer := .perform c

/-- Fallible work on files. -/
abbrev FileM := ExceptT Error (Program SysCall SysCall.Answer)

/-- A call whose failure is left to the caller. -/
def attempt {α : Type} (c : FileWork (Except IoError α)) : FileM (Except IoError α) :=
  ExceptT.lift c

/-- A call whose failure is an error. -/
def io {α : Type} (c : FileWork (Except IoError α)) : FileM α := do
  match ← attempt c with
  | .ok a => return a
  | .error e => throw (mapIo e)

/-! ### Rules -/

theorem notFound_mapIo_iff {e : IoError} : (mapIo e).code = .notFound ↔ e.notFound = true := by
  cases h : e.notFound <;> simp [mapIo, h]

section Rules

open Program

variable {σ α : Type} {env : Environment σ SysCall SysCall.Answer} {s : σ} {Q : α → σ → Prop}
  {E : Error → σ → Prop} {p : FileWork (Except IoError α)}

theorem ends_attempt {Q : Except IoError α → σ → Prop} :
    Ends env s Q E (attempt p) ↔ p.Ensures env s Q := ends_lift

/-- A call whose failure is an error. -/
theorem ends_io : Ends env s Q E (io p) ↔ p.Ensures env s fun r t => match r with
    | .ok a => Q a t
    | .error e => E (mapIo e) t := by
  refine ends_bind.trans (ends_lift.trans ?_)
  refine ⟨fun h => h.mono fun r t => ?_, fun h => h.mono fun r t => ?_⟩
  all_goals
    cases r with
    | ok a => exact id
    | error e => exact id

end Rules

end ExecutionProvider.Filesystem
