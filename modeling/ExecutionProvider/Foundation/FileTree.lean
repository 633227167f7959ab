import Mathlib.Data.List.Basic
import Mathlib.Data.Nat.Notation
import Mathlib.Logic.Function.Basic

/-!
# Trees of files with symbolic links

A place in a tree is the list of names on the way to it, the last one first. The steps of a path
lead from a place to another one: a symbolic link on the way is replaced by the steps that are
written in it. Where steps lead is a relation; the operating system follows a limited number of
links.

## Main definitions

* `FileTree`: what stands at the places of a tree, and how links are read.
* `FileTree.Enters`: where steps lead.
* `FileTree.enter`: the same with a limit on the number of links.
* `FileTree.Meets`: steps that go through a place.

## Main results

* `enters_of_enter_eq_ok`, `Enters.exists_enter_eq_ok`: the two agree when the limit is large.
* `enters_append`: steps one after another.
* `Enters.grows`: what matters of a tree are its directories and links.
* `Replaces.not_enters`: steps that go through a place lead nowhere once a file stands there.
-/

/-- What stands at a place: a directory, a file that goes by its identity, or a link. -/
inductive FileNode (F L : Type)
  | dir
  | file (id : F)
  | link (text : L)
deriving DecidableEq

/-- A step from a place to another one. -/
inductive FileStep (N : Type)
  | stay
  | up
  | down (name : N)
deriving DecidableEq

/-- What stands at the places of a tree, and how links are read: whether they start at the root,
and by which steps they lead on. -/
structure FileTree (N F L : Type) where
  node : List N → Option (FileNode F L)
  parse : L → Bool × List (FileStep N)

namespace FileTree

/-- Why steps lead nowhere. -/
inductive Failure
  | notFound
  | notDirectory
  | loop
deriving DecidableEq

variable {N F L : Type} (t : FileTree N F L)

/-- The place from which a link leads on that stands in a directory. -/
def start (p : List N) (text : L) : List N := if (t.parse text).1 then [] else p

/-- The steps behind a link, followed by others. -/
def behind (text : L) (rest : List (FileStep N)) : List (FileStep N) := (t.parse text).2 ++ rest

/-! ### Where steps lead -/

/-- Where steps lead from a place. Each but the last must lead to a directory. -/
inductive Enters : List N → List (FileStep N) → List N → Prop
  | done (p : List N) : Enters p [] p
  | stay {p rest q} (hdir : t.node p = some .dir) (h : Enters p rest q) :
      Enters p (.stay :: rest) q
  | up {p rest q} (hdir : t.node p = some .dir) (h : Enters p.tail rest q) :
      Enters p (.up :: rest) q
  | down {p name rest q} (hdir : t.node p = some .dir)
      (hnode : ∀ text, t.node (name :: p) ≠ some (.link text)) (h : Enters (name :: p) rest q) :
      Enters p (.down name :: rest) q
  | link {p name rest q text} (hdir : t.node p = some .dir)
      (hnode : t.node (name :: p) = some (.link text))
      (h : Enters (t.start p text) (t.behind text rest) q) : Enters p (.down name :: rest) q

/-- Where steps lead up to the first link. -/
inductive Stop (N L : Type)
  | here (p : List N)
  | link (p : List N) (text : L) (rest : List (FileStep N))
  | failed (e : Failure)

/-- The steps up to the first link. -/
def descend : List N → List (FileStep N) → Stop N L
  | p, [] => .here p
  | p, step :: rest =>
    match t.node p with
    | none => .failed .notFound
    | some .dir =>
      match step with
      | .stay => descend p rest
      | .up => descend p.tail rest
      | .down name =>
        match t.node (name :: p) with
        | some (.link text) => .link p text rest
        | _ => descend (name :: p) rest
    | some _ => .failed .notDirectory

/-- Where steps lead when at most as many links are followed as given. -/
def enter (n : ℕ) (p : List N) (steps : List (FileStep N)) : Except Failure (List N) :=
  match t.descend p steps with
  | .here q => .ok q
  | .failed e => .error e
  | .link p text rest =>
    match n with
    | 0 => .error .loop
    | n + 1 => enter n (t.start p text) (t.behind text rest)

/-- Steps that go through a place, with more steps behind it, before they end in it. -/
inductive Meets (x : List N) : List N → List (FileStep N) → Prop
  | here {p name rest} (hdir : t.node p = some .dir) (hx : name :: p = x) (hrest : rest ≠ []) :
      Meets x p (.down name :: rest)
  | stay {p rest} (hdir : t.node p = some .dir) (h : Meets x p rest) :
      Meets x p (.stay :: rest)
  | up {p rest} (hdir : t.node p = some .dir) (h : Meets x p.tail rest) :
      Meets x p (.up :: rest)
  | down {p name rest} (hdir : t.node p = some .dir) (hne : name :: p ≠ x)
      (hnode : ∀ text, t.node (name :: p) ≠ some (.link text)) (h : Meets x (name :: p) rest) :
      Meets x p (.down name :: rest)
  | link {p name rest text} (hdir : t.node p = some .dir) (hne : name :: p ≠ x)
      (hnode : t.node (name :: p) = some (.link text))
      (h : Meets x (t.start p text) (t.behind text rest)) : Meets x p (.down name :: rest)

variable {t} {p q : List N} {steps rest : List (FileStep N)}

/-- Where steps lead, by the steps up to the first link. -/
def Stop.Leads (t : FileTree N F L) (q : List N) : Stop N L → Prop
  | here p => p = q
  | link p text rest => t.Enters (t.start p text) (t.behind text rest) q
  | failed _ => False

theorem dir_of_enters_cons {step : FileStep N} (h : t.Enters p (step :: rest) q) :
    t.node p = some .dir := by
  cases h with
  | stay hdir _ => exact hdir
  | up hdir _ => exact hdir
  | down hdir _ _ => exact hdir
  | link hdir _ _ => exact hdir

theorem dir_of_enters (h : t.Enters p steps q) (hne : steps ≠ []) : t.node p = some .dir := by
  obtain ⟨step, rest, rfl⟩ := List.exists_cons_of_ne_nil hne
  exact dir_of_enters_cons h

theorem enters_nil_iff : t.Enters p [] q ↔ p = q := by
  refine ⟨fun h => ?_, fun h => h ▸ .done p⟩
  cases h
  rfl

theorem enters_stay_iff (hdir : t.node p = some .dir) :
    t.Enters p (.stay :: rest) q ↔ t.Enters p rest q := by
  refine ⟨fun h => ?_, .stay hdir⟩
  cases h with
  | stay _ h => exact h

theorem enters_up_iff (hdir : t.node p = some .dir) :
    t.Enters p (.up :: rest) q ↔ t.Enters p.tail rest q := by
  refine ⟨fun h => ?_, .up hdir⟩
  cases h with
  | up _ h => exact h

theorem enters_down_iff {name : N} (hdir : t.node p = some .dir)
    (hnode : ∀ text, t.node (name :: p) ≠ some (.link text)) :
    t.Enters p (.down name :: rest) q ↔ t.Enters (name :: p) rest q := by
  refine ⟨fun h => ?_, .down hdir hnode⟩
  cases h with
  | down _ _ h => exact h
  | link _ hlink _ => exact absurd hlink (hnode _)

theorem enters_link_iff {name : N} {text : L} (hdir : t.node p = some .dir)
    (hnode : t.node (name :: p) = some (.link text)) :
    t.Enters p (.down name :: rest) q ↔ t.Enters (t.start p text) (t.behind text rest) q := by
  refine ⟨fun h => ?_, .link hdir hnode⟩
  cases h with
  | down _ hnot _ => exact absurd hnode (hnot text)
  | link _ hlink h =>
    obtain rfl := FileNode.link.inj (Option.some.inj (hnode.symm.trans hlink))
    exact h

theorem enters_iff_descend : t.Enters p steps q ↔ (t.descend p steps).Leads t q := by
  induction steps generalizing p with
  | nil => exact enters_nil_iff
  | cons step rest ih =>
    have hnot (hnode : t.node p ≠ some .dir) : ¬ t.Enters p (step :: rest) q :=
      fun h => hnode (dir_of_enters_cons h)
    simp only [descend]
    split
    · next hnode => exact iff_of_false (hnot fun hdir => by rw [hnode] at hdir; cases hdir) id
    · next hdir =>
      cases step with
      | stay => exact (enters_stay_iff hdir).trans ih
      | up => exact (enters_up_iff hdir).trans ih
      | down name =>
        dsimp only
        split
        · next text hlink => exact enters_link_iff hdir hlink
        · next hnode => exact (enters_down_iff hdir hnode).trans ih
    · next node hfile hnode =>
      refine iff_of_false (hnot fun hdir => ?_) id
      exact hfile (Option.some.inj (hnode.symm.trans hdir))

/-- Steps lead to one place at most. -/
theorem Enters.unique {q' : List N} (h : t.Enters p steps q) (h' : t.Enters p steps q') :
    q = q' := by
  induction h with
  | done p => exact enters_nil_iff.mp h'
  | stay hdir _ ih => exact ih ((enters_stay_iff hdir).mp h')
  | up hdir _ ih => exact ih ((enters_up_iff hdir).mp h')
  | down hdir hnode _ ih => exact ih ((enters_down_iff hdir hnode).mp h')
  | link hdir hnode _ ih => exact ih ((enters_link_iff hdir hnode).mp h')

/-! ### The limit on the number of links -/

section Limit

variable {n : ℕ} {e : Failure} {text : L}

theorem enter_of_here (h : t.descend p steps = .here q) (n : ℕ) : t.enter n p steps = .ok q := by
  rw [enter, h]

theorem enter_of_failed (h : t.descend p steps = .failed e) (n : ℕ) :
    t.enter n p steps = .error e := by
  rw [enter, h]

theorem enter_zero_of_link (h : t.descend p steps = .link q text rest) :
    t.enter 0 p steps = .error .loop := by
  rw [enter, h]

theorem enter_succ_of_link (h : t.descend p steps = .link q text rest) (n : ℕ) :
    t.enter (n + 1) p steps = t.enter n (t.start q text) (t.behind text rest) := by
  rw [enter, h]

theorem enters_of_enter_eq_ok (h : t.enter n p steps = .ok q) : t.Enters p steps q := by
  induction n generalizing p steps with
  | zero =>
    rw [enters_iff_descend]
    cases hstop : t.descend p steps with
    | here r => exact Except.ok.inj ((enter_of_here hstop 0).symm.trans h)
    | link r text rest => cases (enter_zero_of_link hstop).symm.trans h
    | failed e => cases (enter_of_failed hstop 0).symm.trans h
  | succ n ih =>
    rw [enters_iff_descend]
    cases hstop : t.descend p steps with
    | here r => exact Except.ok.inj ((enter_of_here hstop (n + 1)).symm.trans h)
    | link r text rest => exact ih ((enter_succ_of_link hstop n).symm.trans h)
    | failed e => cases (enter_of_failed hstop (n + 1)).symm.trans h

/-- Steps that fail for another reason than the number of links lead nowhere. -/
theorem not_enters_of_enter_eq_error (h : t.enter n p steps = .error e) (he : e ≠ .loop) :
    ¬ t.Enters p steps q := by
  induction n generalizing p steps with
  | zero =>
    rw [enters_iff_descend]
    cases hstop : t.descend p steps with
    | here r => cases (enter_of_here hstop 0).symm.trans h
    | link r text rest =>
      exact absurd (Except.error.inj ((enter_zero_of_link hstop).symm.trans h)).symm he
    | failed e => exact id
  | succ n ih =>
    rw [enters_iff_descend]
    cases hstop : t.descend p steps with
    | here r => cases (enter_of_here hstop (n + 1)).symm.trans h
    | link r text rest => exact ih ((enter_succ_of_link hstop n).symm.trans h)
    | failed e => exact id

theorem enter_succ_of_eq_ok (h : t.enter n p steps = .ok q) : t.enter (n + 1) p steps = .ok q := by
  induction n generalizing p steps with
  | zero =>
    cases hstop : t.descend p steps with
    | here r => rwa [enter_of_here hstop, ← enter_of_here hstop 0]
    | link r text rest => cases (enter_zero_of_link hstop).symm.trans h
    | failed e => cases (enter_of_failed hstop 0).symm.trans h
  | succ n ih =>
    cases hstop : t.descend p steps with
    | here r => rwa [enter_of_here hstop, ← enter_of_here hstop (n + 1)]
    | link r text rest =>
      rw [enter_succ_of_link hstop] at h ⊢
      exact ih h
    | failed e => cases (enter_of_failed hstop (n + 1)).symm.trans h

theorem enter_mono {m : ℕ} (hmn : m ≤ n) (h : t.enter m p steps = .ok q) :
    t.enter n p steps = .ok q := by
  induction hmn with
  | refl => exact h
  | step _ ih => exact enter_succ_of_eq_ok ih

theorem descend_of_none {step : FileStep N} (h : t.node p = none) :
    t.descend p (step :: rest) = .failed .notFound := by
  simp only [descend, h]

theorem descend_down {name : N} (hdir : t.node p = some .dir)
    (hnode : ∀ text, t.node (name :: p) ≠ some (.link text)) :
    t.descend p (.down name :: rest) = t.descend (name :: p) rest := by
  simp only [descend, hdir]

theorem descend_link {name : N} (hdir : t.node p = some .dir)
    (hnode : t.node (name :: p) = some (.link text)) :
    t.descend p (.down name :: rest) = .link p text rest := by
  simp only [descend, hdir, hnode]

/-- Steps that lead somewhere do so with a large enough number of links. -/
theorem Enters.exists_enter_eq_ok (h : t.Enters p steps q) : ∃ n, t.enter n p steps = .ok q := by
  have hcongr {p p' : List N} {steps steps' : List (FileStep N)}
      (heq : t.descend p steps = t.descend p' steps') (n : ℕ) :
      t.enter n p steps = t.enter n p' steps' := by
    rw [enter, enter, heq]
  induction h with
  | done p => exact ⟨0, enter_of_here rfl 0⟩
  | stay hdir _ ih =>
    obtain ⟨n, hn⟩ := ih
    exact ⟨n, (hcongr (by simp only [descend, hdir]) n).trans hn⟩
  | up hdir _ ih =>
    obtain ⟨n, hn⟩ := ih
    exact ⟨n, (hcongr (by simp only [descend, hdir]) n).trans hn⟩
  | @down p name rest q hdir hnode _ ih =>
    obtain ⟨n, hn⟩ := ih
    exact ⟨n, (hcongr (descend_down hdir hnode) n).trans hn⟩
  | @link p name rest q text hdir hnode _ ih =>
    obtain ⟨n, hn⟩ := ih
    exact ⟨n + 1, (enter_succ_of_link (descend_link hdir hnode) n).trans hn⟩

variable {steps' : List (FileStep N)}

theorem descend_append : t.descend p (steps ++ steps') = match t.descend p steps with
      | .here q => t.descend q steps'
      | .link q text rest => .link q text (rest ++ steps')
      | .failed e => .failed e := by
  induction steps generalizing p with
  | nil => rfl
  | cons step rest ih =>
    simp only [List.cons_append, descend]
    cases t.node p with
    | none => rfl
    | some node =>
      cases node with
      | dir =>
        cases step with
        | stay => exact ih
        | up => exact ih
        | down name =>
          dsimp only
          cases t.node (name :: p) with
          | none => exact ih
          | some node =>
            cases node with
            | dir => exact ih
            | file id => exact ih
            | link text => rfl
      | file id => rfl
      | link text => rfl

theorem descend_append_of_here {z : List N} (h : t.descend p steps = .here z) :
    t.descend p (steps ++ steps') = t.descend z steps' := by
  rw [descend_append, h]

theorem descend_append_of_link (h : t.descend p steps = .link q text rest) :
    t.descend p (steps ++ steps') = .link q text (rest ++ steps') := by
  rw [descend_append, h]

theorem descend_append_of_failed (h : t.descend p steps = .failed e) :
    t.descend p (steps ++ steps') = .failed e := by
  rw [descend_append, h]

/-- Steps behind others that fail. -/
theorem enter_append_of_eq_error (h : t.enter n p steps = .error e) :
    t.enter n p (steps ++ steps') = .error e := by
  induction n generalizing p steps with
  | zero =>
    cases hstop : t.descend p steps with
    | here r => cases (enter_of_here hstop 0).symm.trans h
    | link r text rest =>
      rwa [enter_zero_of_link (descend_append_of_link hstop), ← enter_zero_of_link hstop]
    | failed e' => rwa [enter_of_failed (descend_append_of_failed hstop), ← enter_of_failed hstop 0]
  | succ n ih =>
    cases hstop : t.descend p steps with
    | here r => cases (enter_of_here hstop (n + 1)).symm.trans h
    | link r text rest =>
      rw [enter_succ_of_link hstop] at h
      rw [enter_succ_of_link (descend_append_of_link hstop), behind, ← List.append_assoc]
      exact ih h
    | failed e' =>
      rwa [enter_of_failed (descend_append_of_failed hstop), ← enter_of_failed hstop (n + 1)]

/-- Steps behind others that lead somewhere, when no link is among them. -/
theorem enter_append_of_eq_ok {z : List N} {r : Except Failure (List N)}
    (h : t.enter n p steps = .ok z)
    (hr : ∀ {p' l}, t.descend p' l = t.descend z steps' → ∀ m, t.enter m p' l = r) :
    t.enter n p (steps ++ steps') = r := by
  induction n generalizing p steps with
  | zero =>
    cases hstop : t.descend p steps with
    | here y =>
      obtain rfl := Except.ok.inj ((enter_of_here hstop 0).symm.trans h)
      exact hr (descend_append_of_here hstop) 0
    | link y text rest => cases (enter_zero_of_link hstop).symm.trans h
    | failed e => cases (enter_of_failed hstop 0).symm.trans h
  | succ n ih =>
    cases hstop : t.descend p steps with
    | here y =>
      obtain rfl := Except.ok.inj ((enter_of_here hstop (n + 1)).symm.trans h)
      exact hr (descend_append_of_here hstop) (n + 1)
    | link y text rest =>
      rw [enter_succ_of_link hstop] at h
      rw [enter_succ_of_link (descend_append_of_link hstop), behind, ← List.append_assoc]
      exact ih h
    | failed e => cases (enter_of_failed hstop (n + 1)).symm.trans h

theorem enter_append_of_here {z : List N} (h : t.enter n p steps = .ok z)
    (hstop : t.descend z steps' = .here q) : t.enter n p (steps ++ steps') = .ok q :=
  enter_append_of_eq_ok h fun heq m => enter_of_here (heq.trans hstop) m

theorem enter_append_of_failed {z : List N} (h : t.enter n p steps = .ok z)
    (hstop : t.descend z steps' = .failed e) : t.enter n p (steps ++ steps') = .error e :=
  enter_append_of_eq_ok h fun heq m => enter_of_failed (heq.trans hstop) m

end Limit

/-! ### Steps one after another -/

theorem enters_append {steps' : List (FileStep N)} :
    t.Enters p (steps ++ steps') q ↔ ∃ z, t.Enters p steps z ∧ t.Enters z steps' q := by
  constructor
  · intro h
    generalize hall : steps ++ steps' = all at h
    induction h generalizing steps with
    | done p =>
      obtain ⟨rfl, rfl⟩ := List.append_eq_nil_iff.mp hall
      exact ⟨p, .done p, .done p⟩
    | @stay p rest q hdir h ih =>
      cases steps with
      | nil =>
        obtain rfl : steps' = _ := hall
        exact ⟨p, .done p, .stay hdir h⟩
      | cons step steps =>
        obtain ⟨rfl, hrest⟩ := List.cons.inj hall
        obtain ⟨z, hz, hzq⟩ := ih hrest
        exact ⟨z, .stay hdir hz, hzq⟩
    | @up p rest q hdir h ih =>
      cases steps with
      | nil =>
        obtain rfl : steps' = _ := hall
        exact ⟨p, .done p, .up hdir h⟩
      | cons step steps =>
        obtain ⟨rfl, hrest⟩ := List.cons.inj hall
        obtain ⟨z, hz, hzq⟩ := ih hrest
        exact ⟨z, .up hdir hz, hzq⟩
    | @down p name rest q hdir hnode h ih =>
      cases steps with
      | nil =>
        obtain rfl : steps' = _ := hall
        exact ⟨p, .done p, .down hdir hnode h⟩
      | cons step steps =>
        obtain ⟨rfl, hrest⟩ := List.cons.inj hall
        obtain ⟨z, hz, hzq⟩ := ih hrest
        exact ⟨z, .down hdir hnode hz, hzq⟩
    | @link p name rest q text hdir hnode h ih =>
      cases steps with
      | nil =>
        obtain rfl : steps' = _ := hall
        exact ⟨p, .done p, .link hdir hnode h⟩
      | cons step steps =>
        obtain ⟨rfl, hrest⟩ := List.cons.inj hall
        obtain ⟨z, hz, hzq⟩ := @ih (t.behind text steps)
          (by rw [behind, behind, List.append_assoc, ← hrest]; rfl)
        exact ⟨z, .link hdir hnode hz, hzq⟩
  · rintro ⟨z, hz, hzq⟩
    induction hz with
    | done p => exact hzq
    | stay hdir _ ih => exact .stay hdir (ih hzq)
    | up hdir _ ih => exact .up hdir (ih hzq)
    | down hdir hnode _ ih => exact .down hdir hnode (ih hzq)
    | link hdir hnode _ ih =>
      refine .link hdir hnode ?_
      have h := ih hzq
      rwa [behind, List.append_assoc] at h

/-! ### Trees that differ in files -/

/-- A tree in which directories and links stay, and in which there are no new links. -/
structure Grows (t t' : FileTree N F L) : Prop where
  parse : t'.parse = t.parse
  dir : ∀ {p}, t.node p = some .dir → t'.node p = some .dir
  link : ∀ {p text}, t'.node p = some (.link text) ↔ t.node p = some (.link text)

variable {t' t'' : FileTree N F L}

theorem Grows.refl (t : FileTree N F L) : t.Grows t := ⟨rfl, id, Iff.rfl⟩

theorem Grows.trans (h : t.Grows t') (h' : t'.Grows t'') : t.Grows t'' :=
  ⟨h'.parse.trans h.parse, fun hp => h'.dir (h.dir hp), h'.link.trans h.link⟩

theorem Grows.start_eq (h : t.Grows t') (p : List N) (text : L) :
    t'.start p text = t.start p text := by
  rw [start, start, h.parse]

theorem Grows.behind_eq (h : t.Grows t') (text : L) (rest : List (FileStep N)) :
    t'.behind text rest = t.behind text rest := by
  rw [behind, behind, h.parse]

/-- Steps that led somewhere still lead there. -/
theorem Enters.grows (h : t.Enters p steps q) (hgrows : t.Grows t') : t'.Enters p steps q := by
  induction h with
  | done p => exact .done p
  | stay hdir _ ih => exact .stay (hgrows.dir hdir) ih
  | up hdir _ ih => exact .up (hgrows.dir hdir) ih
  | down hdir hnode _ ih =>
    exact .down (hgrows.dir hdir) (fun text hlink => hnode text (hgrows.link.mp hlink)) ih
  | link hdir hnode _ ih =>
    refine .link (hgrows.dir hdir) (hgrows.link.mpr hnode) ?_
    rwa [hgrows.start_eq, hgrows.behind_eq]

theorem Meets.grows {x : List N} (h : t.Meets x p steps) (hgrows : t.Grows t') :
    t'.Meets x p steps := by
  induction h with
  | here hdir hx hrest => exact .here (hgrows.dir hdir) hx hrest
  | stay hdir _ ih => exact .stay (hgrows.dir hdir) ih
  | up hdir _ ih => exact .up (hgrows.dir hdir) ih
  | down hdir hne hnode _ ih =>
    exact .down (hgrows.dir hdir) hne (fun text hlink => hnode text (hgrows.link.mp hlink)) ih
  | link hdir hne hnode _ ih =>
    refine .link (hgrows.dir hdir) hne (hgrows.link.mpr hnode) ?_
    rwa [hgrows.start_eq, hgrows.behind_eq]

/-! ### A file in the place of a link -/

/-- A tree in which a file stands at a place where no directory was. -/
structure Replaces (t t' : FileTree N F L) (x : List N) : Prop where
  parse : t'.parse = t.parse
  before : t.node x ≠ some .dir
  after : ∃ id, t'.node x = some (.file id)
  dir : ∀ {p}, p ≠ x → (t'.node p = some .dir ↔ t.node p = some .dir)
  link : ∀ {p text}, p ≠ x → (t'.node p = some (.link text) ↔ t.node p = some (.link text))

variable {x : List N}

theorem Meets.ne_nil (h : t.Meets x p steps) : steps ≠ [] := by
  cases h <;> exact List.cons_ne_nil _ _

theorem Replaces.ne_of_dir (h : t.Replaces t' x) (hdir : t.node p = some .dir) : p ≠ x := by
  rintro rfl
  exact h.before hdir

theorem Replaces.start_eq (h : t.Replaces t' x) (p : List N) (text : L) :
    t'.start p text = t.start p text := by
  rw [start, start, h.parse]

theorem Replaces.behind_eq (h : t.Replaces t' x) (text : L) (rest : List (FileStep N)) :
    t'.behind text rest = t.behind text rest := by
  rw [behind, behind, h.parse]

/-- Steps that go through a place lead nowhere once a file stands there. -/
theorem Replaces.not_enters (h : t.Replaces t' x) (hmeets : t.Meets x p steps) :
    ¬ t'.Enters p steps q := by
  obtain ⟨id, hid⟩ := h.after
  induction hmeets with
  | @here p name rest hdir hx hrest =>
    intro henters
    have hnode : ∀ text, t'.node (name :: p) ≠ some (.link text) := by
      intro text hlink
      rw [hx, hid] at hlink
      cases hlink
    have hdown := (enters_down_iff (dir_of_enters_cons henters) hnode).mp henters
    have hafter := dir_of_enters hdown hrest
    rw [hx, hid] at hafter
    cases hafter
  | stay hdir _ ih =>
    intro henters
    exact ih ((enters_stay_iff (dir_of_enters_cons henters)).mp henters)
  | up hdir _ ih =>
    intro henters
    exact ih ((enters_up_iff (dir_of_enters_cons henters)).mp henters)
  | down hdir hne hnode _ ih =>
    intro henters
    refine ih ((enters_down_iff (dir_of_enters_cons henters) fun text hlink => ?_).mp henters)
    exact hnode text ((h.link hne).mp hlink)
  | link hdir hne hnode _ ih =>
    intro henters
    have hrest := (enters_link_iff (dir_of_enters_cons henters) ((h.link hne).mpr hnode)).mp henters
    rw [h.start_eq, h.behind_eq] at hrest
    exact ih hrest

/-- Steps go through a place behind others that do not lead there. -/
theorem Replaces.meets_of_append (h : t.Replaces t' x) (henters : t'.Enters p steps q)
    (hqx : q ≠ x) {steps' : List (FileStep N)}
    (hmeets : t.Meets x p (steps ++ steps')) : t.Meets x q steps' := by
  obtain ⟨id, hid⟩ := h.after
  induction henters with
  | done p => exact hmeets
  | stay _ _ ih =>
    cases hmeets with
    | stay _ hmeets => exact ih hqx hmeets
  | up _ _ ih =>
    cases hmeets with
    | up _ hmeets => exact ih hqx hmeets
  | @down p name rest q _ hnode henters ih =>
    cases hmeets with
    | here _ hx _ =>
      cases rest with
      | nil => exact absurd ((enters_nil_iff.mp henters).symm.trans hx) hqx
      | cons step rest =>
        have hdir := dir_of_enters_cons henters
        rw [hx, hid] at hdir
        cases hdir
    | down _ _ _ hmeets => exact ih hqx hmeets
    | link _ hne hlink _ => exact absurd ((h.link hne).mpr hlink) (hnode _)
  | @link p name rest q text _ hlink _ ih =>
    cases hmeets with
    | here _ hx _ =>
      rw [hx, hid] at hlink
      cases hlink
    | down _ hne hnode _ => exact absurd ((h.link hne).mp hlink) (hnode _)
    | link _ hne hlink' hmeets =>
      obtain rfl := FileNode.link.inj (Option.some.inj (((h.link hne).mp hlink).symm.trans hlink'))
      refine ih hqx ?_
      rwa [h.start_eq, h.behind_eq, behind, List.append_assoc]

/-- Steps that lead somewhere go through a link behind others, or the link leads on to where those
lead. -/
theorem Meets.of_append {text : L} (h : t.Enters p steps q) {steps' : List (FileStep N)}
    (hmeets : t.Meets x p (steps ++ steps')) (hlink : t.node x = some (.link text)) :
    t.Meets x q steps' ∨ ∃ rest, t.Enters (t.start x.tail text) (t.behind text rest) q := by
  induction h with
  | done p => exact .inl hmeets
  | stay _ _ ih =>
    cases hmeets with
    | stay _ hmeets => exact ih hmeets
  | up _ _ ih =>
    cases hmeets with
    | up _ hmeets => exact ih hmeets
  | down _ hnode _ ih =>
    cases hmeets with
    | here _ hx _ => exact absurd (hx ▸ hlink) (hnode text)
    | down _ _ _ hmeets => exact ih hmeets
    | link _ _ hlink' _ => exact absurd hlink' (hnode _)
  | @link p name rest q text' _ hnode h ih =>
    cases hmeets with
    | here _ hx _ =>
      subst hx
      obtain rfl := FileNode.link.inj (Option.some.inj (hnode.symm.trans hlink))
      exact .inr ⟨rest, h⟩
    | down _ _ hnot _ => exact absurd hnode (hnot _)
    | link _ _ hlink' hmeets =>
      obtain rfl := FileNode.link.inj (Option.some.inj (hnode.symm.trans hlink'))
      refine ih ?_
      rwa [behind, List.append_assoc]

/-- Steps go through a place if others behind them do. -/
theorem Enters.meets (h : t.Enters p steps q) {steps' : List (FileStep N)}
    (hmeets : t.Meets x q steps') : t.Meets x p (steps ++ steps') := by
  have hne := hmeets.ne_nil
  induction h with
  | done p => exact hmeets
  | stay hdir _ ih => exact .stay hdir (ih hmeets)
  | up hdir _ ih => exact .up hdir (ih hmeets)
  | @down p name rest q hdir hnode _ ih =>
    by_cases hx : name :: p = x
    · exact .here hdir hx (List.append_ne_nil_of_right_ne_nil _ hne)
    · exact .down hdir hx hnode (ih hmeets)
  | @link p name rest q text hdir hnode _ ih =>
    by_cases hx : name :: p = x
    · exact .here hdir hx (List.append_ne_nil_of_right_ne_nil _ hne)
    · refine .link hdir hx hnode ?_
      have h := ih hmeets
      rwa [behind, List.append_assoc] at h

/-- Steps to a directory lead there still when a file stands at a place, or they go through it. -/
theorem Enters.replaces (h : t.Enters p steps q) (hreplaces : t.Replaces t' x)
    (hdir : t.node q = some .dir) {steps' : List (FileStep N)} (hne : steps' ≠ []) :
    t'.Enters p steps q ∨ t.Meets x p (steps ++ steps') := by
  induction h with
  | done p => exact .inl (.done p)
  | stay hdir' _ ih =>
    have hnode := (hreplaces.dir (hreplaces.ne_of_dir hdir')).mpr hdir'
    exact (ih hdir).imp (.stay hnode) (.stay hdir')
  | up hdir' _ ih =>
    have hnode := (hreplaces.dir (hreplaces.ne_of_dir hdir')).mpr hdir'
    exact (ih hdir).imp (.up hnode) (.up hdir')
  | @down p name rest q hdir' hnode _ ih =>
    by_cases hx : name :: p = x
    · exact .inr (.here hdir' hx (List.append_ne_nil_of_right_ne_nil _ hne))
    · have hparent := (hreplaces.dir (hreplaces.ne_of_dir hdir')).mpr hdir'
      refine (ih hdir).imp (.down hparent fun text hlink => ?_) (.down hdir' hx hnode)
      exact hnode text ((hreplaces.link hx).mp hlink)
  | @link p name rest q text hdir' hnode _ ih =>
    by_cases hx : name :: p = x
    · exact .inr (.here hdir' hx (List.append_ne_nil_of_right_ne_nil _ hne))
    · have hparent := (hreplaces.dir (hreplaces.ne_of_dir hdir')).mpr hdir'
      refine (ih hdir).imp (fun henters => ?_) fun hmeets => ?_
      · refine .link hparent ((hreplaces.link hx).mpr hnode) ?_
        rwa [hreplaces.start_eq, hreplaces.behind_eq]
      · refine .link hdir' hx hnode ?_
        rwa [behind, List.append_assoc] at hmeets

end FileTree
