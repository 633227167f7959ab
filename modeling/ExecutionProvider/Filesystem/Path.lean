import Mathlib.Algebra.GroupWithZero.Nat
import Mathlib.Algebra.Order.BigOperators.Group.List
import Mathlib.Data.List.DropRight
import Mathlib.Data.String.Basic

/-!
# Paths

A path is a text. Its components are what stands between slashes; empty segments and dots are no
components, except for the root in front and for a dot in front of a relative path.

## Main definitions

* `Path.components`: the components of a path. Paths are compared by them.
* `Path.parent`, `Path.fileName`: a path without its last component, and the last component.
* `Path.pop`, `Path.join`: a path without its last component, if it has one, and a path below
  another.
* `Path.normalize`: a path without dots.
* `Path.le`: the order of paths.

## Main results

* `Path.utf8ByteSize_normalize_le`: a path without dots is hardly longer than it was.
-/

namespace ExecutionProvider.Path

/-- A component of a path. -/
inductive Component
  | rootDir
  | curDir
  | parentDir
  | normal (name : String)
deriving DecidableEq

/-- What stands between slashes. -/
def segments (path : String) : List String := (path.toList.splitOn '/').map String.ofList

/-- The component that a segment is, unless it is the first one. -/
def component (segment : String) : Option Component :=
  if segment = "" ∨ segment = "." then none
  else if segment = ".." then some .parentDir
  else some (.normal segment)

/-- Whether a path starts at the root. -/
def isAbsolute (path : String) : Bool := path.toList.head? = some '/'

/-- The components of a path. -/
def components (path : String) : List Component :=
  if isAbsolute path then .rootDir :: (segments path).filterMap component
  else if (segments path).head? = some "." then .curDir :: (segments path).filterMap component
  else (segments path).filterMap component

/-- Segments without those at the end that are no components. -/
def trimSegments (rest : List String) : List String := rest.rdropWhile fun s => component s = none

/-- The text of a path whose first segment is given. -/
def ofSegments (first : String) (rest : List String) : String :=
  if first = "" ∧ rest = [] then "/" else "/".intercalate (first :: rest)

/-- A path without its last component. -/
def parent (path : String) : Option String :=
  match segments path with
  | [] => none
  | first :: rest =>
    match trimSegments rest with
    | [] => if first = "" then none else some ""
    | s :: rest => some (ofSegments first (trimSegments (s :: rest).dropLast))

/-- The last component of a path, when it is a name. -/
def fileName (path : String) : Option String :=
  match (components path).getLast? with
  | some (.normal name) => some name
  | _ => none

/-- A path below another one. An absolute path replaces the other one. -/
def join (path tail : String) : String :=
  if isAbsolute tail then tail
  else if path.toList.getLast?.all (· = '/') then path ++ tail
  else path ++ "/" ++ tail

/-- A path without its last component, if it has one. -/
def pop (path : String) : String := (parent path).getD path

/-! ### Components -/

/-- The text of a component. -/
def Component.text : Component → String
  | rootDir => "/"
  | curDir => "."
  | parentDir => ".."
  | normal name => name

/-- A path that is extended by a component, without dots. -/
def push (path : String) : Component → String
  | .parentDir => pop path
  | .curDir => path
  | c => join path c.text

/-- A path without dots. -/
def normalize (path : String) : String := (components path).foldl push ""

/-- Which of two different components comes first. -/
def Component.before : Component → Component → Bool
  | normal name, normal name' => name < name'
  | normal _, _ => false
  | _, normal _ => true
  | rootDir, _ => true
  | _, rootDir => false
  | curDir, _ => true
  | _, curDir => false
  | parentDir, parentDir => false

/-- The order of paths, which is that of their components. -/
def le : List Component → List Component → Bool
  | [], _ => true
  | _ :: _, [] => false
  | c :: cs, d :: ds => if c = d then le cs ds else c.before d

/-! ### Sizes -/

section Sizes

variable {path tail : String}

/-- The bytes of segments, each with a slash. -/
def segmentsSize (l : List String) : ℕ := (l.map fun s => s.utf8ByteSize + 1).sum

@[simp] theorem segmentsSize_cons (s : String) (l : List String) :
    segmentsSize (s :: l) = s.utf8ByteSize + 1 + segmentsSize l := rfl

theorem segmentsSize_le_of_sublist {l l' : List String} (h : l.Sublist l') :
    segmentsSize l ≤ segmentsSize l' :=
  (h.map _).sum_le_sum fun _ _ => Nat.zero_le _

theorem utf8ByteSize_intercalate (s : String) (l : List String) :
    ("/".intercalate (s :: l)).utf8ByteSize + 1 = segmentsSize (s :: l) := by
  have hslash : "/".utf8ByteSize = 1 := by decide
  induction l generalizing s with
  | nil =>
    rw [String.intercalate_singleton]
    rfl
  | cons t l ih =>
    rw [String.intercalate_cons_cons, String.utf8ByteSize_append, String.utf8ByteSize_append,
      segmentsSize_cons, ← ih t, hslash]
    omega

theorem intercalate_segments (path : String) : "/".intercalate (segments path) = path := by
  have hlist : (segments path).map String.toList = path.toList.splitOn '/' := by
    simp [segments, Function.comp_def]
  rw [← String.toList_inj, String.toList_intercalate, hlist]
  exact List.intercalate_splitOn '/'

theorem segmentsSize_segments (path : String) :
    segmentsSize (segments path) = path.utf8ByteSize + 1 := by
  cases hs : segments path with
  | nil => simp [segments] at hs
  | cons s l => rw [← utf8ByteSize_intercalate, ← hs, intercalate_segments]

theorem utf8ByteSize_ofSegments_le (first : String) {l rest : List String} (h : l.Sublist rest)
    (hne : rest ≠ []) :
    (ofSegments first l).utf8ByteSize + 1 ≤ segmentsSize (first :: rest) := by
  have hsub := segmentsSize_le_of_sublist h
  rw [ofSegments]
  split_ifs
  · have hpos : 0 < segmentsSize rest := by
      obtain ⟨t, l', rfl⟩ := List.exists_cons_of_ne_nil hne
      rw [segmentsSize_cons]
      omega
    have hslash : "/".utf8ByteSize = 1 := by decide
    rw [segmentsSize_cons]
    omega
  · rw [utf8ByteSize_intercalate, segmentsSize_cons, segmentsSize_cons]
    omega

theorem utf8ByteSize_pop_le (path : String) : (pop path).utf8ByteSize ≤ path.utf8ByteSize := by
  have hsize := segmentsSize_segments path
  rw [pop, parent]
  split
  · exact Nat.le_refl _
  · next first rest hs =>
    rw [hs] at hsize
    split
    · split_ifs
      · exact Nat.le_refl _
      · exact Nat.zero_le _
    · next s l htrim =>
      have hsub : (trimSegments (s :: l).dropLast).Sublist rest :=
        (List.rdropWhile_prefix _ _).sublist.trans
          ((List.dropLast_sublist _).trans (htrim ▸ (List.rdropWhile_prefix _ _).sublist))
      have hne : rest ≠ [] := by
        rintro rfl
        cases htrim
      have hle := utf8ByteSize_ofSegments_le first hsub hne
      rw [hsize] at hle
      exact Nat.le_of_succ_le_succ hle

theorem utf8ByteSize_join_le (path tail : String) :
    (join path tail).utf8ByteSize ≤ path.utf8ByteSize + tail.utf8ByteSize + 1 := by
  have hslash : "/".utf8ByteSize = 1 := by decide
  rw [join]
  split_ifs
  · omega
  · rw [String.utf8ByteSize_append]
    omega
  · rw [String.utf8ByteSize_append, String.utf8ByteSize_append, hslash]
    omega

/-- What a component adds to a path at most. -/
def Component.size : Component → ℕ
  | rootDir => 1
  | normal name => name.utf8ByteSize + 1
  | _ => 0

theorem utf8ByteSize_push_le (path : String) (c : Component) :
    (push path c).utf8ByteSize ≤ path.utf8ByteSize + c.size := by
  cases c with
  | rootDir => exact Nat.le_add_left 1 _
  | curDir => exact Nat.le_refl _
  | parentDir => exact utf8ByteSize_pop_le path
  | normal name =>
    exact utf8ByteSize_join_le path name

theorem sum_size_filterMap_le (l : List String) :
    ((l.filterMap component).map Component.size).sum ≤ segmentsSize l := by
  induction l with
  | nil => exact Nat.le_refl 0
  | cons s l ih =>
    rw [segmentsSize_cons, List.filterMap_cons]
    cases hs : component s with
    | none => exact ih.trans (Nat.le_add_left _ _)
    | some c =>
      have hc : c.size ≤ s.utf8ByteSize + 1 := by
        rw [component] at hs
        split_ifs at hs
        all_goals
          obtain rfl := Option.some.inj hs
          simp [Component.size]
      rw [List.map_cons, List.sum_cons]
      omega

theorem sum_size_components_le (path : String) :
    ((components path).map Component.size).sum ≤ path.utf8ByteSize + 2 := by
  have hsum := sum_size_filterMap_le (segments path)
  rw [segmentsSize_segments] at hsum
  rw [components]
  split_ifs
  · have hroot : Component.rootDir.size = 1 := rfl
    rw [List.map_cons, List.sum_cons]
    omega
  · have hdot : Component.curDir.size = 0 := rfl
    rw [List.map_cons, List.sum_cons]
    omega
  · omega

/-- A path without dots is hardly longer than it was. -/
theorem utf8ByteSize_normalize_le (path : String) :
    (normalize path).utf8ByteSize ≤ path.utf8ByteSize + 2 := by
  have hfold (cs : List Component) (p : String) :
      (cs.foldl push p).utf8ByteSize ≤ p.utf8ByteSize + (cs.map Component.size).sum := by
    induction cs generalizing p with
    | nil => exact Nat.le_refl _
    | cons c cs ih =>
      have hpush := utf8ByteSize_push_le p c
      have hrest := ih (push p c)
      rw [List.foldl_cons, List.map_cons, List.sum_cons]
      omega
  have hsum := sum_size_components_le path
  have hall := hfold (components path) ""
  have hempty : "".utf8ByteSize = 0 := by decide
  rw [normalize]
  omega

end Sizes

end ExecutionProvider.Path
