import Mathlib.Data.List.Basic

/-!
# Waiting for a condition

A task that waits for a condition registers for notifications, looks at the condition, and goes to
sleep if it does not hold. A notification reaches all tasks that are registered at that time, and a
task that it reaches looks again. A task may also have a timer that wakes it.

Whether a condition holds is seen under a lock, but tasks are notified later than what they wait
for is changed. So a task may sleep although its condition holds, as long as somebody is still to
notify it.

## Main definitions

* `Waiter`: a task that waits, and how far it has come.
* `Waiter.notify`, `Waiter.step`: a notification of all tasks, and a step of one of them.
* `Waiter.Served`: a task that does not sleep through its condition.

## Main results

* `Waiter.Served.notify`, `Waiter.Served.step`: what keeps tasks from oversleeping.
-/

/-- How far a task has come that waits for a condition: it is about to register, it is registered
and looks at the condition, it sleeps, or it has returned. A registered task may have been
notified. -/
inductive WaiterPhase
  | idle
  | enabled (notified : Bool)
  | blocked (notified : Bool)
  | returned
deriving DecidableEq, Repr

/-- A task that waits for a condition of kind `κ`. -/
structure Waiter (κ : Type) where
  condition : κ
  phase : WaiterPhase

namespace Waiter

variable {κ : Type}

/-- A notification reaches a task if it is registered. -/
def notify (w : Waiter κ) : Waiter κ :=
  match w.phase with
  | .enabled _ => { w with phase := .enabled true }
  | .blocked _ => { w with phase := .blocked true }
  | .idle | .returned => w

/-- The next step of a task, given which conditions hold and whose timers have gone off. -/
def step (holds timer : κ → Bool) (w : Waiter κ) : Option (Waiter κ) :=
  match w.phase with
  | .idle => some { w with phase := .enabled false }
  | .enabled notified =>
    if holds w.condition || timer w.condition then some { w with phase := .returned }
    else some { w with phase := .blocked notified }
  | .blocked notified =>
    if notified || timer w.condition then some { w with phase := .idle } else none
  | .returned => none

/-- A task sleeps that nobody has notified. -/
def Sleeps (w : Waiter κ) : Prop := w.phase = .blocked false

/-- If a task sleeps although its condition holds, a notification is pending. -/
def Served (holds : κ → Bool) (pending : Prop) (w : Waiter κ) : Prop :=
  w.Sleeps → holds w.condition = true → pending

variable {holds holds' timer : κ → Bool} {pending pending' : Prop} {w w' : Waiter κ}

/-- Everybody is awake after a notification. -/
theorem not_sleeps_notify : ¬w.notify.Sleeps := by
  intro h
  rw [Sleeps, notify] at h
  split at h <;> simp_all

theorem Served.notify : w.notify.Served holds pending := fun h => absurd h not_sleeps_notify

theorem Served.of_pending (h : pending) : w.Served holds pending := fun _ _ => h

/-- As long as nothing changes, pending notifications may only be replaced by others. -/
theorem Served.mono (h : w.Served holds pending) (hholds : holds' w.condition = holds w.condition)
    (hpending : pending → pending') : w.Served holds' pending' :=
  fun hs hc => hpending (h hs (hholds ▸ hc))

/-- A task goes to sleep only if its condition does not hold. -/
theorem Served.step (h : w.step holds timer = some w') : w'.Served holds pending := by
  intro hs hc
  rw [Waiter.step] at h
  split at h
  · cases h
    cases hs
  · split_ifs at h with hnow
    · cases h
      cases hs
    · cases h
      rw [Bool.or_eq_true, not_or] at hnow
      exact absurd hc hnow.1
  · split_ifs at h
    cases h
    cases hs
  · cases h

end Waiter
