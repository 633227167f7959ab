import ExecutionProvider.Filesystem.Calls
import ExecutionProvider.Filesystem.Steps
import ExecutionProvider.Foundation.Table

/-!
# A disk

What the operating system answers the calls of one process, when no other process changes files. Any
call may fail, apart from those that do not touch the disk. A call that fails leaves the disk as it
is, except that directories may have been created, or a file may be written in part.

A file goes by its identity, so that it may stand at several places. How many links are followed is
up to the system, call by call.

## Main definitions

* `Disk`: directories, files and links.
* `Disk.resolve`, `Disk.entry`: where a path leads, with the link at its end followed or not.
* `Disk.perform`: a call, and the disk after it.
* `Disk.Answers`: the same with calls that fail.
* `faulty`: the environment of a process, in which the calls are recorded that fail.
-/

namespace ExecutionProvider.Filesystem

open FileTree (Failure)

/-- A file. -/
structure FileData where
  content : List UInt8
  permissions : ℕ
deriving DecidableEq

/-- What stands at the places of a disk, the files by their identities, and the directory of the
process. -/
structure Disk where
  nodes : Table (List String) (FileNode ℕ String)
  files : ℕ → FileData
  cwd : List String

/-- Whether a file stands at a place. -/
def isFile : FileNode ℕ String → Bool
  | .file _ => true
  | _ => false

/-- What is said of steps that lead nowhere. -/
def failureError : Failure → IoError
  | .notFound => ⟨true, "No such file or directory (os error 2)"⟩
  | .notDirectory => ⟨false, "Not a directory (os error 20)"⟩
  | .loop => ⟨false, "Too many levels of symbolic links (os error 40)"⟩

def existsError : IoError := ⟨false, "File exists (os error 17)"⟩

def directoryError : IoError := ⟨false, "Is a directory (os error 21)"⟩

def invalidError : IoError := ⟨false, "Invalid argument (os error 22)"⟩

/-- The canonical path of a place. -/
def placePath : List String → String
  | [] => "/"
  | p => "/".intercalate ("" :: p.reverse)

namespace Disk

variable (d : Disk)

/-! ### Paths -/

/-- What stands at a place. -/
def node (p : List String) : Option (FileNode ℕ String) := d.nodes.lookup p

/-- The tree of places. -/
def tree : FileTree String ℕ String := ⟨d.node, Path.readLink⟩

/-- The place from which a path leads on. -/
def origin (path : String) : List String := if Path.isAbsolute path then [] else d.cwd

section Resolution

variable (links : ℕ)

/-- Where some steps of a path lead. -/
def follow (path : String) (steps : List (FileStep String)) : Except IoError (List String) :=
  if path = "" then .error (failureError .notFound)
  else (d.tree.enter links (d.origin path) steps).mapError failureError

/-- The place to which a path leads. -/
def resolve (path : String) : Except IoError (List String) := d.follow links path (Path.steps path)

/-- A place at which a directory stands. -/
def inDirectory (p : List String) : Except IoError (List String) :=
  match d.node p with
  | some .dir => .ok p
  | some _ => .error (failureError .notDirectory)
  | none => .error (failureError .notFound)

/-- The directory to which some steps of a path lead. -/
def directory (path : String) (steps : List (FileStep String)) : Except IoError (List String) :=
  (d.follow links path steps).bind d.inDirectory

/-- A place below another one, by the last step of a path. -/
def below (refused : IoError) (p : List String) :
    Option (FileStep String) → Except IoError (List String)
  | some (.down name) => .ok (name :: p)
  | _ => .error refused

/-- The place that a path names. A path that does not end in a name is refused. -/
def named (refused : IoError) (path : String) : Except IoError (List String) :=
  (d.directory links path (Path.steps path).dropLast).bind fun p =>
    below refused p (Path.steps path).getLast?

/-- The place to which a path leads when the link at its end is not followed. -/
def entry (path : String) : Except IoError (List String) :=
  match (Path.steps path).getLast? with
  | some (.down _) => d.named links invalidError path
  | _ => d.directory links path (Path.steps path)

end Resolution

/-- A place with what stands there. -/
def standing (p : List String) : Except IoError (List String × FileNode ℕ String) :=
  match d.node p with
  | some node => .ok (p, node)
  | none => .error (failureError .notFound)

/-- What stands at the place of a path. -/
def found (place : Except IoError (List String)) :
    Except IoError (List String × FileNode ℕ String) :=
  place.bind d.standing

/-- What is known of what stands at a place. -/
def metadataOf : FileNode ℕ String → Metadata
  | .dir => ⟨false, true, false, 4096, 493⟩
  | .file i => ⟨true, false, false, (d.files i).content.length, (d.files i).permissions⟩
  | .link text => ⟨false, false, true, text.utf8ByteSize, 511⟩

/-! ### Calls -/

section Calls

variable (links : ℕ)

/-- A place at which nothing stands. -/
def vacant (p : List String) : Except IoError (List String) :=
  match d.node p with
  | some _ => .error existsError
  | none => .ok p

/-- A directory is created. -/
def mkdir (path : String) : Except IoError Disk :=
  ((d.named links existsError path).bind d.vacant).map fun p =>
    { d with nodes := d.nodes.insert p .dir }

/-- Whether a path leads to a directory. -/
def isDirectory (path : String) : Bool :=
  match d.found (d.resolve links path) with
  | .ok (_, .dir) => true
  | _ => false

/-- A directory is created, after those above it that do not exist. -/
def createDirs (d : Disk) : List String → Except IoError Unit × Disk
  | [] => (.ok (), d)
  | path :: above =>
    match d.mkdir links path with
    | .ok d => (.ok (), d)
    | .error e =>
      if e.notFound then
        match createDirs d above with
        | (.error e, d) => (.error e, d)
        | (.ok (), d) =>
          match d.mkdir links path with
          | .ok d => (.ok (), d)
          | .error e => (if d.isDirectory links path then .ok () else .error e, d)
      else (if d.isDirectory links path then .ok () else .error e, d)

/-- A path and the paths above it, at most as many as given. -/
def ancestors : ℕ → String → List String
  | 0, _ => []
  | n + 1, path =>
    if path = "" then []
    else path :: (Path.parent path).elim [] (ancestors n)

/-- The directories of a path are created. -/
def createDirAll (path : String) : Except IoError Unit × Disk :=
  d.createDirs links (ancestors (path.length + 1) path)

/-- A file with its data. -/
def set (i : ℕ) (file : FileData) : Disk := { d with files := Function.update d.files i file }

/-- A file is written behind what was written before. -/
def write (i : ℕ) (data : List UInt8) : Disk :=
  d.set i ⟨(d.files i).content ++ data, (d.files i).permissions⟩

/-- A new file at a place. -/
def create (i : ℕ) (p : List String) : Disk :=
  { d with nodes := d.nodes.insert p (.file i), files := Function.update d.files i ⟨[], 420⟩ }

/-- What stands at a place is moved to another one. -/
def move (p q : List String) (node : FileNode ℕ String) : Disk :=
  { d with nodes := (d.nodes.erase p).insert q node }

/-- What is no directory. -/
def leafAt : List String × FileNode ℕ String → Except IoError (List String × FileNode ℕ String)
  | (_, .dir) => .error directoryError
  | r => .ok r

/-- The file or link that a path names. -/
def leafNamed (path : String) : Except IoError (List String × FileNode ℕ String) :=
  (d.found (d.named links directoryError path)).bind leafAt

/-- The file or link of a path takes the place of another one. Two places of the same file are left
alone. -/
def renamed (source destination : String) : Except IoError Unit × Disk :=
  match d.leafNamed links source with
  | .error e => (.error e, d)
  | .ok (p, node) =>
    match d.named links directoryError destination with
    | .error e => (.error e, d)
    | .ok q =>
      if d.node q = some .dir then (.error directoryError, d)
      else if isFile node ∧ d.node q = some node then (.ok (), d)
      else (.ok (), d.move p q node)

/-- What a path that is removed leaves. -/
def removed (path : String) : Except IoError Unit × Disk :=
  match d.leafNamed links path with
  | .error e => (.error e, d)
  | .ok (p, _) => (.ok (), { d with nodes := d.nodes.erase p })

/-- The permissions of what a path leads to are set. -/
def chmod (path : String) (permissions : ℕ) : Except IoError Unit × Disk :=
  match d.found (d.resolve links path) with
  | .error e => (.error e, d)
  | .ok (_, .file i) => (.ok (), d.set i ⟨(d.files i).content, permissions⟩)
  | .ok _ => (.ok (), d)

/-- The text of a link. -/
def linkText : List String × FileNode ℕ String → Except IoError String
  | (_, .link text) => .ok text
  | _ => .error invalidError

/-- A file that is opened. -/
def fileId : List String × FileNode ℕ String → Except IoError ℕ
  | (_, .file i) => .ok i
  | _ => .error directoryError

/-- A new file is created. -/
def createNew (fresh : ℕ) (path : String) : Except IoError ℕ × Disk :=
  match (d.named links directoryError path).bind d.vacant with
  | .error e => (.error e, d)
  | .ok p => (.ok fresh, d.create fresh p)

/-- A call, and the disk after it. The identifier and the identity of a new file come from
outside. -/
def perform (unique : String) (fresh : ℕ) : (c : SysCall) → c.Answer × Disk
  | .symlinkMetadata path => ((d.found (d.entry links path)).map fun r => d.metadataOf r.2, d)
  | .metadata path => ((d.found (d.resolve links path)).map fun r => d.metadataOf r.2, d)
  | .readLink path => ((d.found (d.entry links path)).bind linkText, d)
  | .canonicalize path => ((d.found (d.resolve links path)).map fun r => placePath r.1, d)
  | .currentDir => (.ok (placePath d.cwd), d)
  | .openFile path => ((d.found (d.resolve links path)).bind fileId, d)
  | .readUpTo file limit => (.ok ((d.files file).content.take limit), d)
  | .createDirAll path => d.createDirAll links path
  | .createNew path => d.createNew links fresh path
  | .writeAll file data => (.ok (), d.write file data)
  | .syncAll _ => (.ok (), d)
  | .setPermissions path permissions => d.chmod links path permissions
  | .rename source destination => d.renamed links source destination
  | .removeFile path => d.removed links path
  | .newUuid => (unique, d)

end Calls

/-! ### Calls that fail -/

/-- An identifier that no name contains. -/
def Unused (unique : String) : Prop :=
  '/' ∉ unique.toList ∧ ∀ name p, d.node (name :: p) ≠ none → ¬ unique.toList <:+: name.toList

/-- An identity under which no file stands. -/
def Fresh (i : ℕ) : Prop := ∀ p, d.node p ≠ some (.file i)

/-- A disk with more directories. -/
structure Grown (d d' : Disk) : Prop where
  node : ∀ p, d'.node p = d.node p ∨ d.node p = none ∧ d'.node p = some .dir
  files : d'.files = d.files
  cwd : d'.cwd = d.cwd

/-- What a call may leave that fails. -/
inductive Spoils : SysCall → Disk → Prop
  | nothing (c : SysCall) : Spoils c d
  | directories {path d'} (h : d.Grown d') : Spoils (.createDirAll path) d'
  | part {file data written} (h : written <+: data) :
      Spoils (.writeAll file data) (d.write file written)

/-- What a call may be answered, and the disk after it. A call that fails is not taken for one that
does not find a file. -/
inductive Answers : (c : SysCall) → c.Answer → Disk → Prop
  | performed {links unique fresh} (c : SysCall) (hunused : d.Unused unique)
      (hfresh : d.Fresh fresh) :
      Answers c (d.perform links unique fresh c).1 (d.perform links unique fresh c).2
  | failed {c : SysCall} {r d' e} (hr : c.failure r = some e) (he : e.notFound = false)
      (hspoils : d.Spoils c d') : Answers c r d'

end Disk

/-- The environment of a process. The calls are recorded that fail. -/
def faulty : Environment (Disk × List SysCall) SysCall SysCall.Answer := fun s c r t =>
  s.1.Answers c r t.1 ∧ t.2 = if (c.failure r).isSome then s.2 ++ [c] else s.2

end ExecutionProvider.Filesystem
