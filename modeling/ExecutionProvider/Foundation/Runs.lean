import Mathlib.Data.List.Basic

/-!
# Runs of a transition system

A transition system takes steps that emit events. What happens in a step is decided by an
action; whatever a real system leaves open (which message arrives next, which identifier is
drawn, which call fails) is part of the action. A run is a path of steps from an initial state,
and its events are those of its steps, in order.

## Main definitions

* `System`: initial states and a step function.
* `System.Path`, `System.Run`: sequences of steps with the events they emit.
* `System.RunAlong`: runs all of whose states have a property.
* `System.exec`: the path along a given list of actions.
* `System.Steps`: lists of actions all of whose steps have a property.
* `System.Along`: events each of which has a property of those before it.

## Main results

* `Path.rec_invariant`, `Run.invariant`: what every step preserves holds along a run.
* `Run.exists_step`: the step in which an event happened.
* `Run.each`, `Run.along`: what every event of a step has to do with the events before it.
* `RunAlong.of_invariant`: a property of the states reached is one of all states on the way.
* `Path.of_exec`: executing actions yields a path.
* `steps_congr`: two properties of steps that agree in all states reached.
-/

/-- A transition system: its initial states, and what an action does in a state. -/
structure System (σ α ε : Type*) where
  start : σ → Prop
  step : σ → α → Option (σ × List ε)

namespace System

variable {σ α ε : Type*} (S : System σ α ε)

/-- The states that steps lead to from a given state, with the events emitted on the way. -/
inductive Path (s : σ) : List ε → σ → Prop
  | refl : Path s [] s
  | tail {log : List ε} {t u : σ} {a : α} {es : List ε} (h : Path s log t)
      (hstep : S.step t a = some (u, es)) : Path s (log ++ es) u

/-- A path from an initial state. -/
def Run (log : List ε) (t : σ) : Prop := ∃ s, S.start s ∧ S.Path s log t

/-- A run all of whose states have a property. -/
inductive RunAlong (P : σ → Prop) : List ε → σ → Prop
  | start {s : σ} (h : S.start s) (hP : P s) : RunAlong P [] s
  | tail {log : List ε} {t u : σ} {a : α} {es : List ε} (h : RunAlong P log t)
      (hstep : S.step t a = some (u, es)) (hP : P u) : RunAlong P (log ++ es) u

/-- The states of all runs. -/
def Reachable (t : σ) : Prop := ∃ log, S.Run log t

/-- The steps of a list of actions. -/
def exec (s : σ) : List α → Option (σ × List ε)
  | [] => some (s, [])
  | a :: as =>
    match S.step s a with
    | none => none
    | some (t, es) => (exec t as).map fun r => (r.1, es ++ r.2)

/-- The steps of a list of actions are possible and have a property. -/
def Steps (P : σ → α → σ → Prop) (s : σ) : List α → Prop
  | [] => True
  | a :: as => ∃ t es, S.step s a = some (t, es) ∧ P s a t ∧ Steps P t as

variable {S}

/-- The steps of a list of actions are the first one and those of the rest. -/
theorem exec_cons_eq_some_iff {a : α} {as : List α} {s u : σ} {log : List ε} :
    S.exec s (a :: as) = some (u, log) ↔
      ∃ t es es', S.step s a = some (t, es) ∧ S.exec t as = some (u, es') ∧ es ++ es' = log := by
  rw [exec]
  constructor
  · intro h
    split at h
    · cases h
    · next t es hstep =>
      obtain ⟨⟨u', es'⟩, hr, heq⟩ := Option.map_eq_some_iff.mp h
      cases heq
      exact ⟨t, es, es', hstep, hr, rfl⟩
  · rintro ⟨t, es, es', hstep, hr, rfl⟩
    rw [hstep]
    exact Option.map_eq_some_iff.mpr ⟨(u, es'), hr, rfl⟩

/-- Executing a list of actions executes its parts. -/
theorem exec_append_eq_some {as bs : List α} {s u : σ} {log : List ε}
    (h : S.exec s (as ++ bs) = some (u, log)) :
    ∃ t es es', S.exec s as = some (t, es) ∧ S.exec t bs = some (u, es') := by
  induction as generalizing s log with
  | nil => exact ⟨s, [], log, rfl, h⟩
  | cons a as ih =>
    obtain ⟨t, es, log', hstep, hr, -⟩ := exec_cons_eq_some_iff.mp h
    obtain ⟨v, es', es'', has, hbs⟩ := ih hr
    exact ⟨v, es ++ es', es'', exec_cons_eq_some_iff.mpr ⟨t, es, es', hstep, has, rfl⟩, hbs⟩

section Steps

variable {P Q : σ → α → σ → Prop} {s : σ} {as : List α}

/-- Steps that have one property have another one, when the first gives the second where an
invariant holds, and keeps the invariant. -/
theorem Steps.imp {I : σ → Prop}
    (hPQ : ∀ {s a t es}, I s → S.step s a = some (t, es) → P s a t → I t ∧ Q s a t) (hs : I s)
    (h : S.Steps P s as) : S.Steps Q s as := by
  induction as generalizing s with
  | nil => trivial
  | cons a as ih =>
    obtain ⟨t, es, hstep, hP, hrest⟩ := h
    obtain ⟨ht, hQ⟩ := hPQ hs hstep hP
    exact ⟨t, es, hstep, hQ, ih ht hrest⟩

/-- Two properties of steps that agree where an invariant holds agree along all lists of
actions. -/
theorem steps_congr {I : σ → Prop}
    (hI : ∀ {s a t es}, I s → S.step s a = some (t, es) → I t)
    (hPQ : ∀ {s a t es}, I s → S.step s a = some (t, es) → (P s a t ↔ Q s a t)) (hs : I s) :
    S.Steps P s as ↔ S.Steps Q s as :=
  ⟨.imp (fun hs hstep hP => ⟨hI hs hstep, (hPQ hs hstep).mp hP⟩) hs,
    .imp (fun hs hstep hQ => ⟨hI hs hstep, (hPQ hs hstep).mpr hQ⟩) hs⟩

/-- The last step of a list of actions. -/
theorem Steps.last {a : α} (h : S.Steps P s (as ++ [a])) :
    ∃ t es u es', S.exec s as = some (t, es) ∧ S.step t a = some (u, es') ∧ P t a u := by
  induction as generalizing s with
  | nil =>
    obtain ⟨t, es, hstep, hP, -⟩ := h
    exact ⟨s, [], t, es, rfl, hstep, hP⟩
  | cons b as ih =>
    obtain ⟨t, es, hstep, -, hrest⟩ := h
    obtain ⟨u, es', v, es'', hexec, hlast, hP⟩ := ih hrest
    exact ⟨u, es ++ es', v, es'', exec_cons_eq_some_iff.mpr ⟨t, es, es', hstep, hexec, rfl⟩, hlast,
      hP⟩

/-- The steps of the rest of a list of actions. -/
theorem Steps.drop {bs : List α} {t : σ} {es : List ε} (h : S.Steps P s (as ++ bs))
    (hexec : S.exec s as = some (t, es)) : S.Steps P t bs := by
  induction as generalizing s es with
  | nil =>
    cases hexec
    exact h
  | cons a as ih =>
    obtain ⟨s', es', hstep, -, hrest⟩ := h
    obtain ⟨s'', _, _, hstep', hr, -⟩ := exec_cons_eq_some_iff.mp hexec
    obtain ⟨rfl, -⟩ := Prod.mk.inj (Option.some.inj (hstep.symm.trans hstep'))
    exact ih hrest hr

/-- A preorder that holds of each of some steps holds from the first state to the last. -/
theorem Steps.trans {R : σ → σ → Prop} {bs : List α} {t : σ} {es : List ε} (hrefl : ∀ s, R s s)
    (htrans : ∀ {s t u}, R s t → R t u → R s u)
    (hP : ∀ {s a t es}, S.step s a = some (t, es) → P s a t → R s t)
    (h : S.Steps P s (as ++ bs)) (hexec : S.exec s as = some (t, es)) : R s t := by
  induction as generalizing s es with
  | nil =>
    cases hexec
    exact hrefl _
  | cons a as ih =>
    obtain ⟨s', es', hstep, hp, hrest⟩ := h
    obtain ⟨s'', _, _, hstep', hr, -⟩ := exec_cons_eq_some_iff.mp hexec
    obtain ⟨rfl, -⟩ := Prod.mk.inj (Option.some.inj (hstep.symm.trans hstep'))
    exact htrans (hP hstep hp) (ih hrest hr)

/-- Actions that can be executed are possible. -/
theorem Steps.of_exec (h : (S.exec s as).isSome = true) : S.Steps (fun _ _ _ => True) s as := by
  induction as generalizing s with
  | nil => trivial
  | cons a as ih =>
    obtain ⟨⟨u, log⟩, hexec⟩ := Option.isSome_iff_exists.mp h
    obtain ⟨t, es, es', hstep, hr, -⟩ := exec_cons_eq_some_iff.mp hexec
    exact ⟨t, es, hstep, trivial, ih (Option.isSome_of_eq_some hr)⟩

end Steps

section Path

variable {s t u : σ} {log log' es : List ε} {a : α}

theorem Path.single (h : S.step s a = some (t, es)) : S.Path s es t := Path.refl.tail h

theorem Path.trans (h : S.Path s log t) (h' : S.Path t log' u) : S.Path s (log ++ log') u := by
  induction h' with
  | refl => rwa [List.append_nil]
  | tail _ hstep ih =>
    rw [← List.append_assoc]
    exact ih.tail hstep

/-- What every step preserves, given the events so far, holds along a path. -/
theorem Path.rec_invariant {I : List ε → σ → Prop}
    (hstep : ∀ {log t a u es}, I log t → S.step t a = some (u, es) → I (log ++ es) u)
    (h : S.Path s log t) (hs : I [] s) : I log t := by
  induction h with
  | refl => exact hs
  | tail _ hst ih => exact hstep ih hst

/-- A property of states that every step preserves holds at the end of a path. -/
theorem Path.preserves {I : σ → Prop}
    (hstep : ∀ {t a u es}, I t → S.step t a = some (u, es) → I u)
    (h : S.Path s log t) (hs : I s) : I t :=
  h.rec_invariant (I := fun _ => I) hstep hs

/-- Executing actions yields a path. -/
theorem Path.of_exec {as : List α} (h : S.exec s as = some (t, log)) : S.Path s log t := by
  induction as generalizing s log with
  | nil =>
    cases h
    exact .refl
  | cons a as ih =>
    obtain ⟨s', es, es', hstep, hrest, rfl⟩ := exec_cons_eq_some_iff.mp h
    exact (Path.single hstep).trans (ih hrest)

end Path

section Run

variable {t u : σ} {log es : List ε} {a : α}

theorem Run.start {s : σ} (h : S.start s) : S.Run [] s := ⟨s, h, .refl⟩

theorem Run.tail (h : S.Run log t) (hstep : S.step t a = some (u, es)) :
    S.Run (log ++ es) u := by
  obtain ⟨s, hs, hp⟩ := h
  exact ⟨s, hs, hp.tail hstep⟩

theorem Run.path {log' : List ε} (h : S.Run log t) (hp : S.Path t log' u) :
    S.Run (log ++ log') u := by
  obtain ⟨s, hs, hp'⟩ := h
  exact ⟨s, hs, hp'.trans hp⟩

/-- What holds initially and is preserved by every step of a run holds along every run. -/
theorem Run.invariant {I : List ε → σ → Prop} (hstart : ∀ s, S.start s → I [] s)
    (hstep : ∀ {log t a u es}, S.Run log t → I log t → S.step t a = some (u, es) →
      I (log ++ es) u) (h : S.Run log t) : I log t := by
  obtain ⟨s, hs, hp⟩ := h
  have hboth : S.Run log t ∧ I log t :=
    hp.rec_invariant (I := fun log t => S.Run log t ∧ I log t)
      (fun hI hst => ⟨hI.1.tail hst, hstep hI.1 hI.2 hst⟩) ⟨.start hs, hstart s hs⟩
  exact hboth.2

/-- Every event of a run has a property of what has happened before it, when every event of a
step has. -/
theorem Run.each {L : List ε → ε → Prop}
    (hstep : ∀ {log t a u es pre e post}, S.Run log t → S.step t a = some (u, es) →
      es = pre ++ e :: post → L (log ++ pre) e)
    (h : S.Run log t) {pre post : List ε} {e : ε} (hlog : log = pre ++ e :: post) : L pre e := by
  refine h.invariant (I := fun log _ => ∀ pre e post, log = pre ++ e :: post → L pre e)
    (fun _ _ pre e post heq => ?_) (fun hrun hL hst pre e post heq => ?_) pre e post hlog
  · cases pre <;> cases heq
  · rcases List.append_eq_append_iff.mp heq with ⟨before, rfl, hes⟩ | ⟨after, rfl, hes⟩
    · exact hstep hrun hst hes
    · cases after with
      | nil =>
        have hL := @hstep _ _ _ _ _ [] _ _ hrun hst hes.symm
        rwa [List.append_nil, List.append_nil] at hL
      | cons x after =>
        obtain ⟨rfl, -⟩ := List.cons.inj hes
        exact hL pre e after rfl

/-- Every one of some events has a property of what has happened before it. -/
def Along (L : List ε → ε → Prop) : List ε → List ε → Prop
  | _, [] => True
  | log, e :: es => L log e ∧ Along L (log ++ [e]) es

theorem along_singleton {L : List ε → ε → Prop} {e : ε} (h : L log e) : Along L log [e] :=
  ⟨h, trivial⟩

theorem Along.mid {L : List ε → ε → Prop} {es pre post : List ε} {e : ε} (h : Along L log es)
    (hes : es = pre ++ e :: post) : L (log ++ pre) e := by
  induction pre generalizing log es with
  | nil =>
    subst hes
    rw [List.append_nil]
    exact h.1
  | cons e' pre ih =>
    subst hes
    rw [List.append_cons]
    exact ih h.2 rfl

/-- Every event of a run has a property of what has happened before it, when those of every step
have it one after the other. -/
theorem Run.along {L : List ε → ε → Prop}
    (hstep : ∀ {log t a u es}, S.Run log t → S.step t a = some (u, es) → Along L log es)
    (h : S.Run log t) {pre post : List ε} {e : ε} (hlog : log = pre ++ e :: post) : L pre e :=
  h.each (fun hrun hst hes => (hstep hrun hst).mid hes) hlog

/-- The step of a run in which an event happened. -/
theorem Run.exists_step {e : ε} (h : S.Run log t) (he : e ∈ log) :
    ∃ pre post s a es s', log = pre ++ es ++ post ∧ S.Run pre s ∧ S.step s a = some (s', es) ∧
      e ∈ es ∧ S.Path s' post t := by
  refine h.invariant (I := fun log t => e ∈ log → ∃ pre post s a es s', log = pre ++ es ++ post ∧
    S.Run pre s ∧ S.step s a = some (s', es) ∧ e ∈ es ∧ S.Path s' post t) ?_ ?_ he
  · exact fun _ _ hmem => absurd hmem List.not_mem_nil
  · intro log t a u es hr ih hstep hmem
    rcases List.mem_append.mp hmem with hold | hnew
    · obtain ⟨pre, post, s, a', es', s', rfl, hrun, hstep', he, hpath⟩ := ih hold
      exact ⟨pre, post ++ es, s, a', es', s', (List.append_assoc _ _ _), hrun, hstep', he,
        hpath.tail hstep⟩
    · exact ⟨log, [], t, a, es, u, (List.append_nil _).symm, hr, hstep, hnew, .refl⟩

theorem RunAlong.run {P : σ → Prop} (h : S.RunAlong P log t) : S.Run log t := by
  induction h with
  | start hs => exact .start hs
  | tail _ hstep _ ih => exact ih.tail hstep

theorem RunAlong.last {P : σ → Prop} (h : S.RunAlong P log t) : P t := by
  cases h with
  | start _ hP => exact hP
  | tail _ _ hP => exact hP

/-- When a condition on the events, inherited by the beginnings of a run, gives a property of the
state reached, it gives the property of all states on the way. -/
theorem RunAlong.of_invariant {P : σ → Prop} {C : List ε → Prop}
    (hpre : ∀ {log es}, C (log ++ es) → C log) (hP : ∀ {log t}, S.Run log t → C log → P t)
    (h : S.Run log t) (hC : C log) : S.RunAlong P log t := by
  refine h.invariant (I := fun log t => C log → S.RunAlong P log t) ?_ ?_ hC
  · exact fun s hs hC => .start hs (hP (.start hs) hC)
  · exact fun hr ih hstep hC => .tail (ih (hpre hC)) hstep (hP (hr.tail hstep) hC)

theorem Reachable.start {s : σ} (h : S.start s) : S.Reachable s := ⟨[], .start h⟩

theorem Reachable.tail (h : S.Reachable t) (hstep : S.step t a = some (u, es)) :
    S.Reachable u := by
  obtain ⟨log, hr⟩ := h
  exact ⟨_, hr.tail hstep⟩

/-- What holds initially and is preserved by every step holds in every reachable state. -/
theorem Reachable.invariant {I : σ → Prop} (hstart : ∀ s, S.start s → I s)
    (hstep : ∀ {t a u es}, S.Reachable t → I t → S.step t a = some (u, es) → I u)
    (h : S.Reachable t) : I t := by
  obtain ⟨log, hr⟩ := h
  exact hr.invariant (I := fun _ => I) hstart fun hr hI hst => hstep ⟨_, hr⟩ hI hst

end Run

end System
