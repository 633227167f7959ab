import ExecutionProvider.Filesystem.Path
import ExecutionProvider.Foundation.FileTree

/-!
# The steps of a path

The operating system goes along a path segment by segment. A path below another one leads where the
steps of both lead, and the parent of a path to the directory in which its last name stands.

## Main definitions

* `Path.steps`: the steps of a path.
* `Path.readLink`: how the text of a link is read.

## Main results

* `exists_steps_join`: the steps of a path below another one.
* `exists_parent`: where the parent of a path leads.
* `exists_steps_beside`: the steps of a path in the place of the last name of another one.
-/

namespace ExecutionProvider.Path

/-- The step that a segment is. -/
def step (segment : String) : FileStep String :=
  match component segment with
  | some (.normal name) => .down name
  | some .parentDir => .up
  | _ => .stay

/-- The steps of a path. -/
def steps (path : String) : List (FileStep String) := (segments path).map step

/-- How the text of a link is read. -/
def readLink (text : String) : Bool × List (FileStep String) := (isAbsolute text, steps text)

/-! ### Segments -/

variable {path tail name : String} {first : String} {rest : List String}

theorem steps_ne_nil (path : String) : steps path ≠ [] := by
  simp [steps, segments]

theorem notMem_of_mem_splitOn {cs part : List Char} (h : part ∈ cs.splitOn '/') : '/' ∉ part := by
  induction cs generalizing part with
  | nil =>
    obtain rfl := List.mem_singleton.mp h
    exact List.not_mem_nil
  | cons c cs ih =>
    rw [List.splitOn_cons_eq_if_modifyHead] at h
    split_ifs at h with hc
    · obtain rfl | hmem := List.mem_cons.mp h
      · exact List.not_mem_nil
      · exact ih hmem
    · cases hparts : cs.splitOn '/' with
      | nil =>
        rw [hparts] at h
        cases h
      | cons first parts =>
        rw [hparts, List.modifyHead_cons] at h
        rw [hparts] at ih
        obtain rfl | hmem := List.mem_cons.mp h
        · intro hslash
          obtain rfl | hfirst := List.mem_cons.mp hslash
          · exact hc (beq_self_eq_true _)
          · exact ih List.mem_cons_self hfirst
        · exact ih (List.mem_cons_of_mem _ hmem)

theorem notMem_of_mem_segments {s : String} (h : s ∈ segments path) : '/' ∉ s.toList := by
  obtain ⟨cs, hcs, rfl⟩ := List.mem_map.mp h
  rw [String.toList_ofList]
  exact notMem_of_mem_splitOn hcs

/-- Segments with slashes between them are those of the text they make. -/
theorem segments_intercalate {l : List String} (h : ∀ s ∈ l, '/' ∉ s.toList) (hne : l ≠ []) :
    segments ("/".intercalate l) = l := by
  have hparts : ∀ s ∈ l.map String.toList, '/' ∉ s := by simpa using h
  rw [segments, String.toList_intercalate, show "/".toList = ['/'] from rfl,
    List.splitOn_intercalate '/' hparts (by simpa using hne), List.map_map]
  simp [Function.comp_def]

theorem segments_append_slash (path tail : String) :
    segments (path ++ "/" ++ tail) = segments path ++ segments tail := by
  rw [segments, segments, segments, String.toList_append, String.toList_append, List.append_assoc,
    show "/".toList ++ tail.toList = '/' :: tail.toList from rfl, List.splitOn_append_cons_self,
    List.map_append]

theorem segments_of_notMem (h : '/' ∉ name.toList) : segments name = [name] := by
  have hone := segments_intercalate (l := [name]) (by simpa using h) (List.cons_ne_nil _ _)
  rwa [String.intercalate_singleton] at hone

/-- A path that is made of segments is absolute when the first one is empty and others follow. -/
theorem isAbsolute_intercalate (h : '/' ∉ first.toList) (rest : List String) :
    isAbsolute ("/".intercalate (first :: rest)) = decide (first = "" ∧ rest ≠ []) := by
  have hhead : first.toList.head? ≠ some '/' := by
    intro hhead
    obtain ⟨cs, hcs⟩ := List.head?_eq_some_iff.mp hhead
    exact h (hcs ▸ List.mem_cons_self)
  cases rest with
  | nil =>
    rw [String.intercalate_singleton, isAbsolute]
    simpa using hhead
  | cons s rest =>
    rw [String.intercalate_cons_cons, isAbsolute, String.toList_append, String.toList_append]
    by_cases hfirst : first = ""
    · subst hfirst
      rfl
    · obtain ⟨c, cs, hcs⟩ := List.exists_cons_of_ne_nil fun hnil =>
        hfirst (String.toList_eq_nil_iff.mp hnil)
      rw [hcs] at hhead ⊢
      simpa [hfirst] using hhead

theorem component_eq_normal {s : String} (h : step s = .down name) :
    component s = some (.normal name) := by
  rw [step] at h
  split at h
  · next name' hname =>
    rw [hname, FileStep.down.inj h]
  · cases h
  · cases h

theorem step_eq_stay {s : String} (h : component s = none) : step s = .stay := by
  rw [step, h]

/-- A path to which a slash need not be added. -/
theorem eq_empty_or_append_slash (h : path.toList.getLast?.all (· = '/') = true) :
    path = "" ∨ ∃ head, path = head ++ "/" := by
  cases hchars : path.toList.getLast? with
  | none => exact .inl (String.toList_eq_nil_iff.mp (List.getLast?_eq_none_iff.mp hchars))
  | some c =>
    rw [hchars] at h
    obtain rfl : c = '/' := by simpa using h
    obtain ⟨cs, hcs⟩ := List.getLast?_eq_some_iff.mp hchars
    refine .inr ⟨String.ofList cs, ?_⟩
    rw [← String.toList_inj, String.toList_append, String.toList_ofList, hcs]
    rfl

theorem isAbsolute_append (hne : path ≠ "") (tail : String) :
    isAbsolute (path ++ tail) = isAbsolute path := by
  obtain ⟨c, cs, hcs⟩ := List.exists_cons_of_ne_nil fun hnil =>
    hne (String.toList_eq_nil_iff.mp hnil)
  rw [isAbsolute, isAbsolute, String.toList_append, hcs, List.cons_append, List.head?_cons,
    List.head?_cons]

theorem isAbsolute_join (h : isAbsolute tail = false) (path : String) :
    isAbsolute (join path tail) = isAbsolute path := by
  rw [join, if_neg (by rw [h]; exact Bool.false_ne_true)]
  by_cases hempty : path = ""
  · subst hempty
    rw [if_pos (by decide), String.empty_append, h]
    decide
  · split_ifs
    · exact isAbsolute_append hempty tail
    · rw [String.append_assoc]
      exact isAbsolute_append hempty _

theorem isAbsolute_join_of_isAbsolute (h : isAbsolute path = true) (tail : String) :
    isAbsolute (join path tail) = true := by
  cases htail : isAbsolute tail with
  | true => rwa [join, if_pos htail]
  | false => rwa [isAbsolute_join htail]

section Join

variable {t : FileTree String ℕ String} {p q : List String} {l m : List (FileStep String)}

/-- Steps that stay where they are lead nowhere else. -/
theorem enters_of_enters_append_stays {stays : List String}
    (hstays : ∀ s ∈ stays, component s = none) (h : t.Enters p (l ++ stays.map step) q) :
    t.Enters p l q := by
  induction stays using List.reverseRecOn with
  | nil => rwa [List.map_nil, List.append_nil] at h
  | append_singleton stays s ih =>
    rw [List.map_append, List.map_singleton, step_eq_stay (hstays s (by simp)), ← List.append_assoc,
      FileTree.enters_append] at h
    obtain ⟨z, hz, hstay⟩ := h
    have hq := (FileTree.enters_stay_iff (FileTree.dir_of_enters_cons hstay)).mp hstay
    obtain rfl := FileTree.enters_nil_iff.mp hq
    exact ih (fun s' hs' => hstays s' (List.mem_append_left _ hs')) hz

/-- The steps of a path below another one. -/
theorem exists_steps_join (h : isAbsolute tail = false) (path : String) :
    ∃ l, steps (join path tail) = l ++ steps tail ∧
      ∀ {t : FileTree String ℕ String} {p z}, t.Enters p (steps path) z → t.Enters p l z := by
  rw [join, if_neg (by rw [h]; exact Bool.false_ne_true)]
  split_ifs with hlast
  · obtain rfl | ⟨head, rfl⟩ := eq_empty_or_append_slash hlast
    · refine ⟨[], by rw [String.empty_append, List.nil_append], fun {t p z} henters => ?_⟩
      have hempty : steps "" = [.stay] := by decide
      rw [hempty] at henters
      exact (FileTree.enters_stay_iff (FileTree.dir_of_enters_cons henters)).mp henters
    · refine ⟨steps head, ?_, fun {t p z} henters => ?_⟩
      · rw [steps, segments_append_slash, List.map_append]
        rfl
      · have hslash := segments_append_slash head ""
        rw [String.append_empty] at hslash
        rw [steps, hslash, List.map_append] at henters
        have hstays : ∀ s ∈ [""], component s = none := by decide
        exact enters_of_enters_append_stays hstays henters
  · exact ⟨steps path, by rw [steps, segments_append_slash, List.map_append]; rfl, id⟩

/-- The parent of a path that ends in a name leads to the directory in which the name stands. -/
theorem exists_parent (h : steps path = l ++ [.down name]) :
    ∃ par, parent path = some par ∧ isAbsolute par = isAbsolute path ∧
      ∀ {t : FileTree String ℕ String} {p z}, t.node z = some .dir → t.Enters p l z →
        t.Enters p (steps par) z := by
  have hslash : ∀ s ∈ segments path, '/' ∉ s.toList := fun s hs => notMem_of_mem_segments hs
  have hpath := intercalate_segments path
  obtain ⟨r, r', hsegments, rfl, hlast⟩ := List.map_eq_append_iff.mp h
  obtain ⟨s, rfl, hs⟩ := List.map_eq_singleton_iff.mp hlast
  have hnormal := component_eq_normal hs
  have hsome : component s ≠ none := by
    rw [hnormal]
    exact Option.some_ne_none _
  rw [hsegments] at hslash hpath
  cases r with
  | nil =>
    have hne : s ≠ "" := by
      rintro rfl
      exact hsome (by decide)
    refine ⟨"", ?_, ?_, fun {t p z} hdir henters => ?_⟩
    · rw [parent, hsegments]
      simp [trimSegments, hne]
    · rw [← hpath, List.nil_append, isAbsolute_intercalate (hslash s (by simp))]
      simp [isAbsolute]
    · obtain rfl := FileTree.enters_nil_iff.mp henters
      have hempty : steps "" = [.stay] := by decide
      rw [hempty]
      exact .stay hdir (.done _)
  | cons first rest =>
    have htrim : trimSegments (rest ++ [s]) = rest ++ [s] :=
      List.rdropWhile_concat_neg _ _ _ (by simpa using hsome)
    have hparent : parent path = some (ofSegments first (trimSegments rest)) := by
      rw [parent, hsegments, List.cons_append]
      dsimp only
      rw [htrim]
      split
      · next hnil => simp at hnil
      · next a b hab => rw [← hab, List.dropLast_concat]
    have hall : trimSegments rest ++ rest.rtakeWhile (fun s => component s = none) = rest :=
      List.rdropWhile_append_rtakeWhile
    have hstays : ∀ s ∈ rest.rtakeWhile (fun s => component s = none), component s = none :=
      fun s hs => by simpa using List.mem_rtakeWhile_imp hs
    refine ⟨_, hparent, ?_, fun {t p z} hdir henters => ?_⟩
    · rw [← hpath, List.cons_append, isAbsolute_intercalate (hslash first (by simp)), ofSegments]
      split_ifs with hroot
      · rw [hroot.1]
        simp [isAbsolute]
      · rw [isAbsolute_intercalate (hslash first (by simp))]
        by_cases hfirst : first = ""
        · simpa [hfirst] using hroot
        · simp [hfirst]
    · rw [← hall, ← List.cons_append, List.map_append] at henters
      have htrimmed := enters_of_enters_append_stays hstays henters
      rw [ofSegments]
      split_ifs with hroot
      · rw [hroot.1, hroot.2] at htrimmed
        have hsteps : steps "/" = [.stay, .stay] := by decide
        rw [hsteps]
        exact .stay (FileTree.dir_of_enters_cons htrimmed) htrimmed
      · rw [steps, segments_intercalate (fun s hs => hslash s ?_) (List.cons_ne_nil _ _)]
        · exact htrimmed
        · obtain rfl | hmem := List.mem_cons.mp hs
          · exact List.mem_cons_self
          · exact List.mem_cons_of_mem _
              (List.mem_append_left _ ((List.rdropWhile_prefix _ _).mem hmem))

/-- A path in the place of the last name of another one. -/
theorem exists_steps_beside (h : steps path = l ++ [.down name]) (htail : isAbsolute tail = false) :
    ∃ par l', parent path = some par ∧ steps (join par tail) = l' ++ steps tail ∧
      isAbsolute (join par tail) = isAbsolute path ∧
      ∀ {t : FileTree String ℕ String} {p z}, t.node z = some .dir → t.Enters p l z →
        t.Enters p l' z := by
  obtain ⟨par, hpar, habsolute, henters⟩ := exists_parent h
  obtain ⟨l', hl', hjoin⟩ := exists_steps_join htail par
  exact ⟨par, l', hpar, hl', (isAbsolute_join htail par).trans habsolute,
    fun hdir hz => hjoin (henters hdir hz)⟩

end Join

end ExecutionProvider.Path
