import ExecutionProvider.Filesystem.Disk

/-!
# Where the paths of a disk lead

What a call finds at a path does not depend on how many links the system follows: a path leads to
one place at most, and a call that does not fail has found it.

## Main definitions

* `Disk.Leads`, `Disk.Names`: the place to which a path leads, and the place that it names when the
  link at its end is not followed.
* `Disk.Reads`: the content of the file to which a path leads.
* `Disk.Absent`, `Disk.Missing`: a path that leads to nothing, and one that is not found.

## Main results

* `named_eq_ok`, `entry_eq_ok`, `resolve_eq_ok`: what a call has found.
* `absent_of_resolve`, `Missing.absent`: what a call has not found.
* `Leads.mono`, `Names.mono`: paths of a disk with more directories.
-/

namespace ExecutionProvider.Filesystem.Disk

open FileTree (Failure)

variable {d d' : Disk} {path : String} {p q z : List String} {links : ℕ}

/-- A path leads to a place. -/
def Leads (d : Disk) (path : String) (q : List String) : Prop :=
  path ≠ "" ∧ d.tree.Enters (d.origin path) (Path.steps path) q

/-- A path names a place in a directory, whatever stands there. -/
def Names (d : Disk) (path : String) (q : List String) : Prop :=
  path ≠ "" ∧ ∃ l name z, Path.steps path = l ++ [.down name] ∧
    d.tree.Enters (d.origin path) l z ∧ d.node z = some .dir ∧ q = name :: z

/-- A path leads to a file with some content. -/
def Reads (d : Disk) (path : String) (content : List UInt8) : Prop :=
  ∃ q i, d.Leads path q ∧ d.node q = some (.file i) ∧ (d.files i).content = content

/-- A path leads to nothing. -/
def Absent (d : Disk) (path : String) : Prop := ∀ q, d.Leads path q → d.node q = none

/-- A path is not found, links at its end not followed. -/
def Missing (d : Disk) (path : String) : Prop :=
  ∃ links e, d.found (d.entry links path) = .error e ∧ e.notFound = true

theorem Leads.unique (h : d.Leads path p) (h' : d.Leads path q) : p = q := h.2.unique h'.2

theorem Names.unique (h : d.Names path p) (h' : d.Names path q) : p = q := by
  obtain ⟨_, l, name, z, hsteps, henters, _, rfl⟩ := h
  obtain ⟨_, l', name', z', hsteps', henters', _, rfl⟩ := h'
  obtain ⟨rfl, hname⟩ := List.append_inj' (hsteps.symm.trans hsteps') rfl
  obtain rfl := henters.unique henters'
  rw [FileStep.down.inj (List.cons.inj hname).1]

/-- A path leads to the place that it names, unless a link stands there. -/
theorem Names.leads (h : d.Names path q) (hnode : ∀ text, d.node q ≠ some (.link text)) :
    d.Leads path q := by
  obtain ⟨hne, l, name, z, hsteps, henters, hdir, rfl⟩ := h
  refine ⟨hne, ?_⟩
  rw [hsteps]
  exact FileTree.enters_append.mpr ⟨z, henters, .down hdir hnode (.done _)⟩

theorem Reads.unique {content content' : List UInt8} (h : d.Reads path content)
    (h' : d.Reads path content') : content = content' := by
  obtain ⟨q, i, hq, hi, rfl⟩ := h
  obtain ⟨q', i', hq', hi', rfl⟩ := h'
  obtain rfl := hq.unique hq'
  rw [FileNode.file.inj (Option.some.inj (hi.symm.trans hi'))]

/-! ### More directories -/

theorem origin_eq (h : d'.cwd = d.cwd) (path : String) : d'.origin path = d.origin path := by
  rw [origin, origin, h]

theorem Leads.mono (h : d.Leads path q) (hgrows : d.tree.Grows d'.tree) (hcwd : d'.cwd = d.cwd) :
    d'.Leads path q := by
  refine ⟨h.1, ?_⟩
  rw [origin_eq hcwd]
  exact h.2.grows hgrows

theorem Names.mono (h : d.Names path q) (hgrows : d.tree.Grows d'.tree) (hcwd : d'.cwd = d.cwd) :
    d'.Names path q := by
  obtain ⟨hne, l, name, z, hsteps, henters, hdir, hq⟩ := h
  refine ⟨hne, l, name, z, hsteps, ?_, hgrows.dir hdir, hq⟩
  rw [origin_eq hcwd]
  exact henters.grows hgrows

theorem Grown.refl (d : Disk) : d.Grown d := ⟨fun _ => .inl rfl, rfl, rfl⟩

theorem Grown.trans {d'' : Disk} (h : d.Grown d') (h' : d'.Grown d'') : d.Grown d'' := by
  refine ⟨fun p => ?_, h'.files.trans h.files, h'.cwd.trans h.cwd⟩
  obtain hnode' | ⟨hnone', hdir'⟩ := h'.node p
  · rw [hnode']
    exact h.node p
  · obtain hnode | ⟨_, hdir⟩ := h.node p
    · exact .inr ⟨hnode ▸ hnone', hdir'⟩
    · rw [hnone'] at hdir
      cases hdir

theorem Grown.node_eq {node : FileNode ℕ String} (h : d.Grown d') (hnode : d.node p = some node) :
    d'.node p = some node := by
  obtain hsame | ⟨hnone, _⟩ := h.node p
  · rw [hsame, hnode]
  · rw [hnone] at hnode
    cases hnode

theorem Grown.node_eq_none (h : d.Grown d') (hnone : d'.node p = none) : d.node p = none := by
  obtain hsame | ⟨hnone', _⟩ := h.node p
  · rw [← hsame, hnone]
  · exact hnone'

/-- What is no directory was there before. -/
theorem Grown.node_eq_of_ne {node : FileNode ℕ String} (h : d.Grown d')
    (hnode : d'.node p = some node) (hne : node ≠ .dir) : d.node p = some node := by
  obtain hsame | ⟨_, hdir⟩ := h.node p
  · rw [← hsame, hnode]
  · exact absurd (Option.some.inj (hnode.symm.trans hdir)) hne

theorem Grown.tree (h : d.Grown d') : d.tree.Grows d'.tree :=
  ⟨rfl, h.node_eq, fun {_ _} =>
    ⟨fun hlink => h.node_eq_of_ne hlink fun h => (by cases h), h.node_eq⟩⟩

theorem Reads.grown {content : List UInt8} (h : d.Reads path content) (hgrown : d.Grown d') :
    d'.Reads path content := by
  obtain ⟨q, i, hq, hi, hcontent⟩ := h
  exact ⟨q, i, hq.mono hgrown.tree hgrown.cwd, hgrown.node_eq hi, by rw [hgrown.files, hcontent]⟩

/-! ### What a call has found -/

section Found

variable {steps : List (FileStep String)} {refused e : IoError}

theorem follow_eq_error (h : d.follow links path steps = .error e) (he : e.notFound = true) :
    path = "" ∨ d.tree.enter links (d.origin path) steps = .error .notFound := by
  rw [follow] at h
  split_ifs at h with hempty
  · exact .inl hempty
  · refine .inr ?_
    cases hstop : d.tree.enter links (d.origin path) steps with
    | error failure =>
      rw [hstop] at h
      obtain rfl := Except.error.inj h
      cases failure with
      | notFound => rfl
      | notDirectory => cases he
      | loop => cases he
    | ok p =>
      rw [hstop] at h
      cases h

theorem enter_of_follow (h : d.follow links path steps = .ok q) :
    d.tree.enter links (d.origin path) steps = .ok q := by
  rw [follow] at h
  split_ifs at h
  cases hstop : d.tree.enter links (d.origin path) steps with
  | error e =>
    rw [hstop] at h
    cases h
  | ok p =>
    rw [hstop] at h
    rw [Except.ok.inj h]

theorem follow_eq_ok (h : d.follow links path steps = .ok q) :
    path ≠ "" ∧ d.tree.Enters (d.origin path) steps q := by
  refine ⟨?_, FileTree.enters_of_enter_eq_ok (enter_of_follow h)⟩
  rintro rfl
  cases h

theorem follow_of_enter (hne : path ≠ "") {r : Except Failure (List String)}
    (h : d.tree.enter links (d.origin path) steps = r) :
    d.follow links path steps = r.mapError failureError := by
  rw [follow, if_neg hne, h]

theorem resolve_eq_ok (h : d.resolve links path = .ok q) : d.Leads path q := follow_eq_ok h

theorem bind_eq_ok_iff {α β : Type} {x : Except IoError α} {f : α → Except IoError β} {b : β} :
    x.bind f = .ok b ↔ ∃ a, x = .ok a ∧ f a = .ok b := by
  cases x with
  | error e => simp [Except.bind]
  | ok a => simp [Except.bind]

theorem bind_eq_error_iff {α β : Type} {x : Except IoError α} {f : α → Except IoError β} :
    x.bind f = .error e ↔ x = .error e ∨ ∃ a, x = .ok a ∧ f a = .error e := by
  cases x with
  | error e => simp [Except.bind]
  | ok a => simp [Except.bind]

theorem map_eq_ok_iff {α β : Type} {x : Except IoError α} {f : α → β} {b : β} :
    x.map f = .ok b ↔ ∃ a, x = .ok a ∧ f a = b := by
  cases x with
  | error e => simp [Except.map]
  | ok a => simp [Except.map]

theorem map_eq_error_iff {α β : Type} {x : Except IoError α} {f : α → β} :
    x.map f = .error e ↔ x = .error e := by
  cases x with
  | error e => simp [Except.map]
  | ok a => simp [Except.map]

theorem inDirectory_eq_ok (h : d.inDirectory p = .ok q) : p = q ∧ d.node p = some .dir := by
  rw [inDirectory] at h
  split at h
  · next hdir => exact ⟨Except.ok.inj h, hdir⟩
  · cases h
  · cases h

theorem inDirectory_of_dir (h : d.node p = some .dir) : d.inDirectory p = .ok p := by
  rw [inDirectory, h]

theorem node_eq_none_of_inDirectory (h : d.inDirectory p = .error e) (he : e.notFound = true) :
    d.node p = none := by
  rw [inDirectory] at h
  split at h
  · cases h
  · obtain rfl := Except.error.inj h
    cases he
  · next hnone => exact hnone

theorem directory_eq_ok (h : d.directory links path steps = .ok p) :
    d.follow links path steps = .ok p ∧ d.node p = some .dir := by
  obtain ⟨p', hfollow, hp⟩ := bind_eq_ok_iff.mp h
  obtain ⟨rfl, hdir⟩ := inDirectory_eq_ok hp
  exact ⟨hfollow, hdir⟩

theorem getLast?_steps {step : FileStep String} (h : (Path.steps path).getLast? = some step) :
    Path.steps path = (Path.steps path).dropLast ++ [step] :=
  (List.dropLast_append_getLast? step h).symm

theorem below_eq_ok {last : Option (FileStep String)} (h : below refused p last = .ok q) :
    ∃ name, last = some (.down name) ∧ q = name :: p := by
  rw [below.eq_def] at h
  split at h
  · next name => exact ⟨name, rfl, (Except.ok.inj h).symm⟩
  · cases h

theorem named_eq_ok (h : d.named links refused path = .ok q) : d.Names path q := by
  obtain ⟨z, hdirectory, hq⟩ := bind_eq_ok_iff.mp h
  obtain ⟨hfollow, hdir⟩ := directory_eq_ok hdirectory
  obtain ⟨hne, henters⟩ := follow_eq_ok hfollow
  obtain ⟨name, hlast, rfl⟩ := below_eq_ok hq
  exact ⟨hne, _, name, z, getLast?_steps hlast, henters, hdir, rfl⟩

/-- A call finds the place that a path names when it follows enough links. -/
theorem Names.exists_named (h : d.Names path q) :
    ∃ n, ∀ links, n ≤ links → ∀ refused, d.named links refused path = .ok q := by
  obtain ⟨hne, l, name, z, hsteps, henters, hdir, rfl⟩ := h
  obtain ⟨n, hn⟩ := henters.exists_enter_eq_ok
  refine ⟨n, fun links hlinks refused => ?_⟩
  have hfollow := follow_of_enter hne (FileTree.enter_mono hlinks hn)
  rw [named, hsteps, List.dropLast_concat, List.getLast?_concat]
  exact bind_eq_ok_iff.mpr ⟨z, bind_eq_ok_iff.mpr ⟨z, hfollow, inDirectory_of_dir hdir⟩, rfl⟩

/-- A place that is found without a link at the end being followed: the path names it, or it is a
directory. -/
theorem entry_eq_ok (h : d.entry links path = .ok q) :
    d.Names path q ∨ d.node q = some .dir := by
  rw [entry] at h
  split at h
  · exact .inl (named_eq_ok h)
  · exact .inr (directory_eq_ok h).2

theorem standing_eq_ok {node : FileNode ℕ String} (h : d.standing p = .ok (q, node)) :
    p = q ∧ d.node p = some node := by
  rw [standing] at h
  split at h
  · next node' hnode =>
    obtain ⟨rfl, rfl⟩ := Prod.mk.inj (Except.ok.inj h)
    exact ⟨rfl, hnode⟩
  · cases h

theorem standing_eq_error (h : d.standing p = .error e) :
    d.node p = none ∧ e = failureError .notFound := by
  rw [standing] at h
  split at h
  · cases h
  · next hnone => exact ⟨hnone, (Except.error.inj h).symm⟩

theorem vacant_eq_ok (h : d.vacant p = .ok q) : d.node p = none ∧ p = q := by
  rw [vacant] at h
  split at h
  · cases h
  · next hnone => exact ⟨hnone, Except.ok.inj h⟩

theorem found_eq_ok {place : Except IoError (List String)} {node : FileNode ℕ String}
    (h : d.found place = .ok (p, node)) : place = .ok p ∧ d.node p = some node := by
  obtain ⟨p', hplace, hp⟩ := bind_eq_ok_iff.mp h
  obtain ⟨rfl, hnode⟩ := standing_eq_ok hp
  exact ⟨hplace, hnode⟩

theorem found_eq_error {place : Except IoError (List String)} (h : d.found place = .error e) :
    place = .error e ∨ ∃ p, place = .ok p ∧ d.node p = none :=
  (bind_eq_error_iff.mp h).imp_right fun ⟨p, hp, herror⟩ => ⟨p, hp, (standing_eq_error herror).1⟩

/-- A file that is found at a path. -/
theorem found_file {i : ℕ} (h : d.found (d.entry links path) = .ok (q, .file i)) :
    d.Names path q ∧ d.node q = some (.file i) := by
  obtain ⟨hentry, hnode⟩ := found_eq_ok h
  obtain hnames | hdir := entry_eq_ok hentry
  · exact ⟨hnames, hnode⟩
  · rw [hdir] at hnode
    cases hnode

/-- A link that is found at a path. -/
theorem found_link {text : String} (h : d.found (d.entry links path) = .ok (q, .link text)) :
    d.Names path q ∧ d.node q = some (.link text) := by
  obtain ⟨hentry, hnode⟩ := found_eq_ok h
  obtain hnames | hdir := entry_eq_ok hentry
  · exact ⟨hnames, hnode⟩
  · rw [hdir] at hnode
    cases hnode

end Found

/-! ### What a call has not found -/

section NotFound

variable {steps : List (FileStep String)} {e : IoError}

/-- Steps that are not found, with the number of links that was followed. -/
theorem node_eq_none_of_enter (h : path = "" ∨
    d.tree.enter links (d.origin path) (Path.steps path) = .error .notFound)
    (hq : d.Leads path q) : d.node q = none := by
  obtain hempty | hstop := h
  · exact absurd hempty hq.1
  · exact absurd hq.2 (FileTree.not_enters_of_enter_eq_error hstop fun h => by cases h)

theorem absent_of_resolve (h : d.found (d.resolve links path) = .error e)
    (he : e.notFound = true) : d.Absent path := by
  intro q hq
  obtain hfollow | ⟨p, hfollow, hnone⟩ := found_eq_error h
  · exact node_eq_none_of_enter (follow_eq_error hfollow he) hq
  · rw [hq.unique (resolve_eq_ok hfollow), hnone]

/-- Steps of a path that are not found. -/
theorem directory_eq_error (h : d.directory links path steps = .error e) (he : e.notFound = true) :
    path = "" ∨ d.tree.enter links (d.origin path) steps = .error .notFound ∨
      ∃ p, d.tree.enter links (d.origin path) steps = .ok p ∧ d.node p = none := by
  obtain hfollow | ⟨p, hfollow, hp⟩ := bind_eq_error_iff.mp h
  · exact (follow_eq_error hfollow he).imp_right .inl
  · exact .inr (.inr ⟨p, enter_of_follow hfollow, node_eq_none_of_inDirectory hp he⟩)

theorem found_resolve (h : path = "" ∨
    d.tree.enter links (d.origin path) (Path.steps path) = .error .notFound ∨
      ∃ p, d.tree.enter links (d.origin path) (Path.steps path) = .ok p ∧ d.node p = none) :
    d.found (d.resolve links path) = .error (failureError .notFound) := by
  by_cases hempty : path = ""
  · rw [resolve, follow, if_pos hempty]
    rfl
  · obtain hstop | ⟨p, hstop, hnone⟩ := h.resolve_left hempty
    · rw [resolve, follow_of_enter hempty hstop]
      rfl
    · refine bind_eq_error_iff.mpr (.inr ⟨p, follow_of_enter hempty hstop, ?_⟩)
      rw [standing, hnone]

/-- What is not found without a link at the end being followed is not found. -/
theorem found_resolve_of_entry (h : d.found (d.entry links path) = .error e)
    (he : e.notFound = true) :
    d.found (d.resolve links path) = .error (failureError .notFound) := by
  refine found_resolve ?_
  rw [entry] at h
  split at h
  · next name hlast =>
    rw [getLast?_steps hlast]
    obtain hnamed | ⟨q, hnamed, hnone⟩ := found_eq_error h
    · obtain hdirectory | ⟨z, -, hbelow⟩ := bind_eq_error_iff.mp hnamed
      · obtain hempty | hstop | ⟨p, hstop, hnone⟩ := directory_eq_error hdirectory he
        · exact .inl hempty
        · exact .inr (.inl (FileTree.enter_append_of_eq_error hstop))
        · have hlost : d.tree.descend p [.down name] = .failed .notFound :=
            FileTree.descend_of_none hnone
          exact .inr (.inl (FileTree.enter_append_of_failed hstop hlost))
      · rw [hlast] at hbelow
        cases hbelow
    · obtain ⟨z, hdirectory, hbelow⟩ := bind_eq_ok_iff.mp hnamed
      obtain ⟨hfollow, hdir⟩ := directory_eq_ok hdirectory
      rw [hlast] at hbelow
      obtain rfl := Except.ok.inj hbelow
      have hhere : d.tree.descend z [.down name] = .here (name :: z) :=
        FileTree.descend_down hdir fun text hlink => by
          rw [show d.node (name :: z) = some (.link text) from hlink] at hnone
          cases hnone
      exact .inr (.inr ⟨name :: z, FileTree.enter_append_of_here (enter_of_follow hfollow) hhere,
        hnone⟩)
  · obtain hdirectory | ⟨p, hdirectory, hnone⟩ := found_eq_error h
    · exact directory_eq_error hdirectory he
    · rw [(directory_eq_ok hdirectory).2] at hnone
      cases hnone

theorem Missing.absent (h : d.Missing path) : d.Absent path := by
  obtain ⟨links, e, hentry, he⟩ := h
  exact absent_of_resolve (found_resolve_of_entry hentry he) rfl

/-- Nothing stands at the place that a path names which is not found. -/
theorem Missing.node_eq_none (h : d.Missing path) (hq : d.Names path q) : d.node q = none := by
  obtain ⟨links, e, hentry, he⟩ := h
  obtain ⟨hne, l, name, z, hsteps, henters, hdir, rfl⟩ := id hq
  have hlast : (Path.steps path).getLast? = some (.down name) := by
    rw [hsteps, List.getLast?_concat]
  have hinit : (Path.steps path).dropLast = l := by
    rw [hsteps, List.dropLast_concat]
  rw [entry, hlast] at hentry
  obtain hnamed | ⟨q, hnamed, hnone⟩ := found_eq_error hentry
  · obtain hdirectory | ⟨p, -, hbelow⟩ := bind_eq_error_iff.mp hnamed
    · rw [hinit] at hdirectory
      obtain hempty | hstop | ⟨p, hstop, hnone⟩ := directory_eq_error hdirectory he
      · exact absurd hempty hne
      · exact absurd henters
          (FileTree.not_enters_of_enter_eq_error hstop fun h => by cases h)
      · rw [(FileTree.enters_of_enter_eq_ok hstop).unique henters, hdir] at hnone
        cases hnone
    · rw [hlast] at hbelow
      cases hbelow
  · rwa [hq.unique (named_eq_ok hnamed)]

end NotFound

end ExecutionProvider.Filesystem.Disk
