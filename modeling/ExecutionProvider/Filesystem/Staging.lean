import ExecutionProvider.Filesystem.Faults

/-!
# A file that takes a place

A write creates a file beside its target and renames it. What changes on the disk is the file at the
one place, then at the other one: nothing else, whatever call fails on the way.

## Main definitions

* `Disk.leaf`: the content of a file, or the text of a link.
* `Disk.Put`: a disk with a new file at a place.

## Main results

* `Answers.grown`: directories that are created.
* `Answers.put`: a file that is created.
* `Put.write`, `Put.rename`, `Put.remove`: what becomes of it.
* `exists_steps_temporaryPath`: where the new content stands until it is complete.
-/

namespace ExecutionProvider.Filesystem

namespace Disk

variable {d d' d'' : Disk} {path : String} {p q x : List String} {i : ℕ} {links : ℕ}

/-- The content of a file, or the text of a link. -/
def leaf (d : Disk) (p : List String) : Option (List UInt8 ⊕ String) :=
  match d.node p with
  | some (.file i) => some (.inl (d.files i).content)
  | some (.link text) => some (.inr text)
  | _ => none

theorem leaf_of_none (h : d.node p = none) : d.leaf p = none := by
  rw [leaf, h]

theorem leaf_of_file (h : d.node p = some (.file i)) :
    d.leaf p = some (.inl (d.files i).content) := by
  rw [leaf, h]

/-- Places at which the same stands, with the same content. -/
theorem leaf_congr (h : d'.node p = d.node p)
    (hcontent : ∀ i, d.node p = some (.file i) → (d'.files i).content = (d.files i).content) :
    d'.leaf p = d.leaf p := by
  rw [leaf, leaf, h]
  cases hnode : d.node p with
  | none => rfl
  | some node =>
    cases node with
    | dir => rfl
    | link text => rfl
    | file i =>
      dsimp only
      rw [hcontent i hnode]

/-! ### Directories that are created -/

theorem Grown.leaf (h : d.Grown d') (p : List String) : d'.leaf p = d.leaf p := by
  obtain hsame | ⟨hnone, hdir⟩ := h.node p
  · exact leaf_congr hsame fun i _ => by rw [h.files]
  · rw [Disk.leaf, Disk.leaf, hnone, hdir]

theorem grown_mkdir (h : d.mkdir links path = .ok d') : d.Grown d' := by
  obtain ⟨p, hp, rfl⟩ := map_eq_ok_iff.mp h
  obtain ⟨p', -, hvacant⟩ := bind_eq_ok_iff.mp hp
  obtain ⟨hnone, rfl⟩ := vacant_eq_ok hvacant
  refine ⟨fun r => ?_, rfl, rfl⟩
  by_cases hr : r = p'
  · subst hr
    exact .inr ⟨hnone, AList.lookup_insert _⟩
  · exact .inl (AList.lookup_insert_ne hr)

theorem grown_createDirs (l : List String) (d : Disk) : d.Grown (d.createDirs links l).2 := by
  induction l generalizing d with
  | nil => exact .refl d
  | cons path above ih =>
    rw [createDirs]
    split
    · next d' h => exact grown_mkdir h
    · next e h =>
      by_cases he : e.notFound = true
      · rw [if_pos he]
        have habove := ih d
        split
        · next e d' h =>
          rw [h] at habove
          exact habove
        · next d' h =>
          rw [h] at habove
          split
          · next d'' h' => exact habove.trans (grown_mkdir h')
          · exact habove
      · rw [if_neg he]
        exact .refl d

theorem Answers.grown {r : Except IoError Unit} (h : d.Answers (.createDirAll path) r d') :
    d.Grown d' := by
  cases h with
  | performed _ _ _ => exact grown_createDirs _ d
  | failed _ _ hspoils =>
    cases hspoils with
    | nothing _ => exact .refl d
    | directories h => exact h

theorem Answers.of_createDirAll (h : d.Answers (.createDirAll path) (.ok ()) d') :
    ∃ links, d.createDirAll links path = (.ok (), d') := by
  obtain ⟨links, _, _, _, _, hr, rfl⟩ := h.exists_perform (fun e he => by cases he)
  exact ⟨links, Prod.ext hr.symm rfl⟩

/-! ### A new file -/

/-- A disk with a new file at a place where no directory was. -/
structure Put (d d' : Disk) (q : List String) (i : ℕ) : Prop where
  before : d.node q ≠ some .dir
  fresh : d.Fresh i
  node : ∀ p, d'.node p = if p = q then some (.file i) else d.node p
  content : ∀ j, j ≠ i → (d'.files j).content = (d.files j).content
  cwd : d'.cwd = d.cwd

theorem Put.node_self (h : d.Put d' q i) : d'.node q = some (.file i) := by
  rw [h.node, if_pos rfl]

theorem Put.node_of_ne (h : d.Put d' q i) (hp : p ≠ q) : d'.node p = d.node p := by
  rw [h.node, if_neg hp]

theorem Put.leaf_of_ne (h : d.Put d' q i) (hp : p ≠ q) : d'.leaf p = d.leaf p :=
  leaf_congr (h.node_of_ne hp) fun j hj => h.content j fun hji => h.fresh p (hji ▸ hj)

theorem Put.replaces (h : d.Put d' q i) : d.tree.Replaces d'.tree q where
  parse := rfl
  before := h.before
  after := ⟨i, h.node_self⟩
  dir := fun hp => by
    change d'.node _ = _ ↔ d.node _ = _
    rw [h.node_of_ne hp]
  link := fun hp => by
    change d'.node _ = _ ↔ d.node _ = _
    rw [h.node_of_ne hp]

/-- A new file at a place where no link was leaves the directories and links as they were. -/
theorem Put.grows (h : d.Put d' q i) (hlink : ∀ text, d.node q ≠ some (.link text)) :
    d.tree.Grows d'.tree ∧ d'.tree.Grows d.tree := by
  have hdir : ∀ p, d'.node p = some .dir ↔ d.node p = some .dir := fun p => by
    by_cases hp : p = q
    · subst hp
      exact iff_of_false (fun hd => by rw [h.node_self] at hd; cases hd) h.before
    · rw [h.node_of_ne hp]
  have hlinks : ∀ p text, d'.node p = some (.link text) ↔ d.node p = some (.link text) :=
    fun p text => by
      by_cases hp : p = q
      · subst hp
        exact iff_of_false (fun hd => by rw [h.node_self] at hd; cases hd) (hlink text)
      · rw [h.node_of_ne hp]
  exact ⟨⟨rfl, (hdir _).mpr, hlinks _ _⟩, ⟨rfl, (hdir _).mp, (hlinks _ _).symm⟩⟩

theorem Answers.put {j : ℕ} (h : d.Answers (.createNew path) (.ok j) d') :
    ∃ x, d.Names path x ∧ d.node x = none ∧ d.Put d' x j ∧ (d'.files j).content = [] := by
  obtain ⟨links, _, fresh, _, hfresh, hr, rfl⟩ := h.exists_perform (fun e he => by cases he)
  change _ = (d.createNew links fresh path).1 at hr
  change ∃ x, _ ∧ _ ∧ d.Put (d.createNew links fresh path).2 x j ∧
    ((d.createNew links fresh path).2.files j).content = []
  rw [createNew] at hr ⊢
  cases hplace : (d.named links directoryError path).bind d.vacant with
  | error e =>
    rw [hplace] at hr
    cases hr
  | ok x =>
    rw [hplace] at hr
    obtain rfl := Except.ok.inj hr
    obtain ⟨x', hnamed, hvacant⟩ := bind_eq_ok_iff.mp hplace
    obtain ⟨hnone, rfl⟩ := vacant_eq_ok hvacant
    refine ⟨x', named_eq_ok hnamed, hnone, ⟨?_, hfresh, fun p => ?_, fun j' hj => ?_, rfl⟩, ?_⟩
    · rw [hnone]
      exact fun h => by cases h
    · change (d.nodes.insert x' (.file j)).lookup p = _
      split_ifs with hp
      · rw [hp, AList.lookup_insert]
      · exact AList.lookup_insert_ne hp
    · change (Function.update d.files j ⟨[], 420⟩ j').content = _
      rw [Function.update_of_ne hj]
    · change (Function.update d.files j ⟨[], 420⟩ j).content = _
      rw [Function.update_self]

/-- A file that is not created leaves the disk alone. -/
theorem Answers.not_put {e : IoError} (h : d.Answers (.createNew path) (.error e) d') : d' = d := by
  generalize hr : (Except.error e : Except IoError ℕ) = r at h
  cases h with
  | @performed links _ fresh _ _ _ =>
    change _ = (d.createNew links fresh path).1 at hr
    change (d.createNew links fresh path).2 = d
    rw [createNew] at hr ⊢
    cases hplace : (d.named links directoryError path).bind d.vacant with
    | error e => rfl
    | ok x =>
      rw [hplace] at hr
      cases hr
  | failed _ _ hspoils =>
    cases hspoils with
    | nothing _ => rfl

theorem Put.set (h : d.Put d' q i) (file : FileData) : d.Put (d'.set i file) q i where
  before := h.before
  fresh := h.fresh
  node := h.node
  content := fun j hj => by
    change (Function.update d'.files i file j).content = _
    rw [Function.update_of_ne hj, h.content j hj]
  cwd := h.cwd

/-- A file that is written, perhaps in part. -/
theorem Put.write {data : List UInt8} {r : Except IoError Unit} (h : d.Put d' q i)
    (hr : d'.Answers (.writeAll i data) r d'') :
    d.Put d'' q i ∧ (r = .ok () → (d''.files i).content = (d'.files i).content ++ data) := by
  cases hr with
  | performed _ _ _ =>
    refine ⟨h.set _, fun _ => ?_⟩
    change (Function.update d'.files i _ i).content = _
    rw [Function.update_self]
  | failed hfailure _ hspoils =>
    have hnot : r ≠ .ok () := by
      rintro rfl
      cases hfailure
    cases hspoils with
    | nothing _ => exact ⟨h, fun hok => absurd hok hnot⟩
    | part _ => exact ⟨h.set _, fun hok => absurd hok hnot⟩

/-- Permissions are not content. -/
theorem Put.chmod {permissions : ℕ} {r : Except IoError Unit} (h : d.Put d' q i)
    (hr : d'.Answers (.setPermissions path permissions) r d'') :
    d.Put d'' q i ∧ (d''.files i).content = (d'.files i).content := by
  have hset (j : ℕ) (k : ℕ) :
      ((d'.set j ⟨(d'.files j).content, permissions⟩).files k).content = (d'.files k).content := by
    change (Function.update d'.files j _ k).content = _
    by_cases hk : k = j
    · subst hk
      rw [Function.update_self]
    · rw [Function.update_of_ne hk]
  cases hr with
  | @performed links _ _ _ _ _ =>
    change d.Put (d'.chmod links path permissions).2 q i ∧
      ((d'.chmod links path permissions).2.files i).content = _
    rw [Disk.chmod]
    split
    · exact ⟨h, rfl⟩
    · exact ⟨⟨h.before, h.fresh, h.node, fun k hk => (hset _ k).trans (h.content k hk), h.cwd⟩,
        hset _ i⟩
    · exact ⟨h, rfl⟩
  | failed _ _ hspoils =>
    cases hspoils with
    | nothing _ => exact ⟨h, rfl⟩

theorem leafNamed_eq_ok {node : FileNode ℕ String} (h : d.leafNamed links path = .ok (p, node)) :
    d.Names path p ∧ d.node p = some node := by
  obtain ⟨⟨p', node'⟩, hfound, hleaf⟩ := bind_eq_ok_iff.mp h
  obtain ⟨hnamed, hnode⟩ := found_eq_ok hfound
  have heq : (p', node') = (p, node) := by
    cases node' with
    | dir => cases hleaf
    | file i => exact Except.ok.inj hleaf
    | link text => exact Except.ok.inj hleaf
  obtain ⟨rfl, rfl⟩ := Prod.mk.inj heq
  exact ⟨named_eq_ok hnamed, hnode⟩

theorem node_move (d : Disk) (p q r : List String) (node : FileNode ℕ String) :
    (d.move p q node).node r = if r = q then some node else if r = p then none else d.node r := by
  change ((d.nodes.erase p).insert q node).lookup r = _
  split_ifs with hq hp
  · rw [hq, AList.lookup_insert]
  · rw [AList.lookup_insert_ne hq, hp, AList.lookup_erase]
  · rw [AList.lookup_insert_ne hq, AList.lookup_erase_ne hp]
    rfl

/-- A file that was created takes the place of another one. -/
theorem Put.rename {source destination : String} (h : d.Put d' x i) (hvacant : d.node x = none)
    (hx : d'.Names source x) (hanswer : d'.Answers (.rename source destination) (.ok ()) d'') :
    ∃ q, d'.Names destination q ∧ d.Put d'' q i ∧ d''.files = d'.files := by
  obtain ⟨links, _, _, _, _, hr, rfl⟩ := hanswer.exists_perform (fun e he => by cases he)
  change _ = (d'.renamed links source destination).1 at hr
  change ∃ q, _ ∧ d.Put (d'.renamed links source destination).2 q i ∧
    (d'.renamed links source destination).2.files = d'.files
  rw [renamed] at hr ⊢
  cases hsource : d'.leafNamed links source with
  | error e =>
    rw [hsource] at hr
    cases hr
  | ok found =>
    obtain ⟨p, node⟩ := found
    rw [hsource] at hr
    obtain ⟨hp, hnode⟩ := leafNamed_eq_ok hsource
    obtain rfl := hx.unique hp
    obtain rfl := Option.some.inj (h.node_self.symm.trans hnode)
    cases hdestination : d'.named links directoryError destination with
    | error e =>
      rw [hdestination] at hr
      cases hr
    | ok q =>
      rw [hdestination] at hr
      dsimp only at hr ⊢
      by_cases hdir : d'.node q = some .dir
      · rw [if_pos hdir] at hr
        cases hr
      · have hbefore : d.node q ≠ some .dir := by
          by_cases hq : q = x
          · rw [hq, hvacant]
            exact fun h => by cases h
          · rwa [← h.node_of_ne hq]
        refine ⟨q, named_eq_ok hdestination, ?_⟩
        rw [if_neg hdir]
        by_cases hsame : isFile (.file i) = true ∧ d'.node q = some (.file i)
        · -- the path leads to the new file already
          rw [if_pos hsame]
          have hq : q = x := by
            by_contra hq
            exact h.fresh q ((h.node_of_ne hq).symm.trans hsame.2)
          subst hq
          exact ⟨h, rfl⟩
        · rw [if_neg hsame]
          refine ⟨⟨hbefore, h.fresh, fun r => ?_, h.content, h.cwd⟩, rfl⟩
          rw [node_move]
          split_ifs with hrq hrx
          · rfl
          · rw [hrx, hvacant]
          · exact h.node_of_ne hrx

/-- A file that is not renamed leaves the disk alone. -/
theorem Answers.not_renamed {source destination : String} {e : IoError}
    (h : d.Answers (.rename source destination) (.error e) d') : d' = d := by
  generalize hr : (Except.error e : Except IoError Unit) = r at h
  cases h with
  | @performed links _ _ _ _ _ =>
    change _ = (d.renamed links source destination).1 at hr
    change (d.renamed links source destination).2 = d
    rw [renamed] at hr ⊢
    split at hr
    · rfl
    · split at hr
      · rfl
      · split_ifs at hr ⊢
        all_goals rfl
  | failed _ _ hspoils =>
    cases hspoils with
    | nothing _ => rfl

/-- What is removed leaves the other files and links. -/
theorem Answers.removed {r : Except IoError Unit} (h : d.Answers (.removeFile path) r d') :
    (∃ e, r = .error e) ∧ d' = d ∨ ∃ p node, d.Names path p ∧ d.node p = some node ∧ r = .ok () ∧
      d'.leaf p = none ∧ ∀ q, q ≠ p → d'.leaf q = d.leaf q := by
  cases h with
  | @performed links _ _ _ _ _ =>
    change (∃ e, (d.removed links path).1 = .error e) ∧ (d.removed links path).2 = d ∨
      ∃ p node, _ ∧ _ ∧ (d.removed links path).1 = .ok () ∧
        (d.removed links path).2.leaf p = none ∧
        ∀ q, q ≠ p → (d.removed links path).2.leaf q = d.leaf q
    rw [Disk.removed]
    cases hleaf : d.leafNamed links path with
    | error e => exact .inl ⟨⟨e, rfl⟩, rfl⟩
    | ok found =>
      obtain ⟨p, node⟩ := found
      obtain ⟨hp, hnode⟩ := leafNamed_eq_ok hleaf
      refine .inr ⟨p, node, hp, hnode, rfl, ?_, fun q hq => leaf_congr ?_ fun _ _ => rfl⟩
      · exact leaf_of_none (AList.lookup_erase _ _)
      · exact AList.lookup_erase_ne hq
  | failed hfailure _ hspoils =>
    cases hspoils with
    | nothing _ =>
      refine .inl ⟨?_, rfl⟩
      cases r with
      | ok _ => cases hfailure
      | error e => exact ⟨e, rfl⟩

/-- A new file that is removed again. -/
theorem Put.remove {r : Except IoError Unit} (h : d.Put d' x i) (hvacant : d.node x = none)
    (hx : d'.Names path x) (hr : d'.Answers (.removeFile path) r d'') :
    (∃ e, r = .error e) ∧ d'' = d' ∨ ∀ p, d''.leaf p = d.leaf p := by
  obtain hfailed | ⟨p, node, hp, -, -, hnone, hrest⟩ := hr.removed
  · exact .inl hfailed
  · obtain rfl := hx.unique hp
    refine .inr fun q => ?_
    by_cases hq : q = x
    · rw [hq, hnone, leaf, hvacant]
    · rw [hrest q hq, h.leaf_of_ne hq]

end Disk

/-! ### Beside the target -/

section Temporary

variable {d : Disk} {parent target unique : String}

theorem notMem_fileName {name : String} (h : Path.fileName target = some name) :
    '/' ∉ name.toList := by
  rw [Path.fileName] at h
  split at h
  · next name' hlast =>
    obtain rfl := Option.some.inj h
    have hmem : Path.Component.normal name' ∈
        (Path.segments target).filterMap Path.component := by
      have hmem := List.mem_of_getLast? hlast
      rw [Path.components] at hmem
      split_ifs at hmem
      · exact (List.mem_cons.mp hmem).resolve_left fun h => by cases h
      · exact (List.mem_cons.mp hmem).resolve_left fun h => by cases h
      · exact hmem
    obtain ⟨s, hs, hcomponent⟩ := List.mem_filterMap.mp hmem
    rw [Path.component] at hcomponent
    split_ifs at hcomponent
    · cases hcomponent
    · obtain rfl := Path.Component.normal.inj (Option.some.inj hcomponent)
      exact Path.notMem_of_mem_segments hs
  · cases h

/-- The name beside the target has the identifier in it. -/
theorem exists_steps_temporaryPath (hunique : '/' ∉ unique.toList) (parent target : String) :
    ∃ name l, unique.toList <:+: name.toList ∧
      Path.steps (temporaryPath parent target unique) = l ++ [.down name] ∧
      Path.isAbsolute (temporaryPath parent target unique) = Path.isAbsolute parent ∧
      ∀ {t : FileTree String ℕ String} {p z}, t.Enters p (Path.steps parent) z →
        t.Enters p l z := by
  generalize hfile : (Path.fileName target).getD "file" = file
  have hslash : '/' ∉ file.toList := by
    cases hname : Path.fileName target with
    | none =>
      rw [hname] at hfile
      subst hfile
      decide
    | some name =>
      rw [hname] at hfile
      subst hfile
      exact notMem_fileName hname
  generalize hname : "." ++ file ++ ".process-execution-" ++ unique ++ ".tmp" = name
  have hchars : name.toList = '.' :: (file.toList ++ ".process-execution-".toList ++
      unique.toList ++ ".tmp".toList) := by
    rw [← hname]
    simp
  have hnot : '/' ∉ name.toList := by
    rw [hchars]
    simp [hslash, hunique]
  have hnormal : Path.step name = .down name := by
    have hlong : 3 ≤ name.toList.length := by
      rw [hchars]
      simp
      omega
    have hne (s : String) (hs : s.toList.length < 3) : name ≠ s := by
      rintro rfl
      omega
    have hcomponent : Path.component name = some (.normal name) := by
      rw [Path.component, if_neg, if_neg]
      · exact hne ".." (by decide)
      · rintro (h | h)
        · exact hne "" (by decide) h
        · exact hne "." (by decide) h
    rw [Path.step, hcomponent]
  have habsolute : Path.isAbsolute name = false := by
    rw [Path.isAbsolute, hchars]
    rfl
  obtain ⟨l, hl, henters⟩ := Path.exists_steps_join habsolute parent
  refine ⟨name, l, ?_, ?_, ?_, henters⟩
  · rw [hchars]
    exact ⟨'.' :: (file.toList ++ ".process-execution-".toList), ".tmp".toList, rfl⟩
  · rw [temporaryPath, hfile, hname, hl, Path.steps, Path.segments_of_notMem hnot,
      List.map_singleton, hnormal]
  · rw [temporaryPath, hfile, hname]
    exact Path.isAbsolute_join habsolute parent

/-- Nothing stands beside the target under a name that no other name contains. -/
theorem node_eq_none_of_unused {x : List String} (hunused : d.Unused unique)
    (hx : d.Names (temporaryPath parent target unique) x) : d.node x = none := by
  obtain ⟨name, l, hinfix, hsteps, -, -⟩ :=
    exists_steps_temporaryPath hunused.1 parent target
  obtain ⟨-, l', name', z, hsteps', -, -, rfl⟩ := hx
  obtain ⟨-, hname⟩ := List.append_inj' (hsteps.symm.trans hsteps') rfl
  obtain rfl := FileStep.down.inj (List.cons.inj hname).1
  by_contra hnode
  exact hunused.2 name z hnode hinfix

end Temporary

end ExecutionProvider.Filesystem
