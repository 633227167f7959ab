/-!
# Programs that call their environment

A program returns a value, or makes a call and goes on with its answer. What is answered is up to
the environment. Programs that share an environment are executed call by call, so that what others
do between two calls shows in the answers.

## Main definitions

* `Program`: trees of calls.
* `Program.perform`: a single call.
* `Program.pending`, `Program.answer`: the next call, and the program after it.
* `Program.result`: what a program returns that makes no more calls.
* `Program.Returns`: a property of all results of a program.
* `Program.Calls`: a property of all calls of a program.
* `Environment`, `Program.Ensures`: what is answered in a state, and a property of the results
  together with the state behind them.
* `Program.Ends`: the same for programs that may fail.
* `Program.Yields`: a property of the results of a program that may fail, whatever is answered.

## Main results

* `Returns.answer`, `Returns.of_result`: the results of a program that is executed.
* `returns_bind`: the results of one program after another.
* `ensures_bind`, `ends_bind`, `ends_tryCatch`: rules for properties in an environment.
* `Calls.ensures`: what every call keeps is kept by a program.
-/

/-- Programs with calls from `ι` and results in `α`. A call `i` is answered by a value of `β i`. -/
inductive Program (ι : Type) (β : ι → Type) (α : Type)
  | done (a : α)
  | call (i : ι) (next : β i → Program ι β α)

namespace Program

variable {ι : Type} {β : ι → Type} {α γ : Type}

/-- One program after another. -/
def bind : Program ι β α → (α → Program ι β γ) → Program ι β γ
  | done a, f => f a
  | call i next, f => call i fun b => (next b).bind f

instance : Monad (Program ι β) where
  pure := done
  bind := bind

/-- A single call. -/
def perform (i : ι) : Program ι β (β i) := call i done

/-- The call that a program makes next. -/
def pending : Program ι β α → Option ι
  | done _ => none
  | call i _ => some i

/-- A program whose next call is answered. -/
def answer (f : ∀ i, β i) : Program ι β α → Program ι β α
  | done a => done a
  | call i next => next (f i)

/-- The result of a program that makes no more calls. -/
def result : Program ι β α → Option α
  | done a => some a
  | call _ _ => none

/-- Whatever is answered, the result has a property. -/
def Returns (P : α → Prop) : Program ι β α → Prop
  | done a => P a
  | call _ next => ∀ b, (next b).Returns P

section Returns

variable {P : α → Prop} {Q : γ → Prop} {p : Program ι β α}

theorem Returns.answer (h : p.Returns P) (f : ∀ i, β i) : (p.answer f).Returns P := by
  cases p with
  | done a => exact h
  | call i next => exact h (f i)

theorem Returns.of_result {a : α} (h : p.Returns P) (ha : p.result = some a) : P a := by
  cases p with
  | done b =>
    obtain rfl := Option.some.inj ha
    exact h
  | call i next => cases ha

theorem returns_bind {f : α → Program ι β γ} (h : ∀ a, (f a).Returns Q) :
    (p.bind f).Returns Q := by
  induction p with
  | done a => exact h a
  | call i next ih => exact ih

theorem Returns.bind {f : α → Program ι β γ} (hp : p.Returns P)
    (hf : ∀ a, P a → (f a).Returns Q) : (p.bind f).Returns Q := by
  induction p with
  | done a => exact hf a hp
  | call i next ih => exact fun b => ih b (hp b)

theorem pending_eq_none_of_result {a : α} (ha : p.result = some a) : p.pending = none := by
  cases p with
  | done b => rfl
  | call i next => cases ha

end Returns

/-- Whatever is answered, the calls of a program have a property. -/
def Calls (P : ι → Prop) : Program ι β α → Prop
  | done _ => True
  | call i next => P i ∧ ∀ b, (next b).Calls P

theorem Calls.bind {P : ι → Prop} {p : Program ι β α} {f : α → Program ι β γ} (hp : p.Calls P)
    (hf : ∀ a, (f a).Calls P) : (p.bind f).Calls P := by
  induction p with
  | done a => exact hf a
  | call i next ih => exact ⟨hp.1, fun b => ih b (hp.2 b)⟩

end Program

/-- What is answered. In a state a call has answers, each with the state behind it. -/
abbrev Environment (σ ι : Type) (β : ι → Type) := σ → (i : ι) → β i → σ → Prop

namespace Program

variable {σ ι : Type} {β : ι → Type} {α γ : Type}

/-- Whatever an environment answers, the result and the state behind it have a property. -/
def Ensures (env : Environment σ ι β) : σ → (α → σ → Prop) → Program ι β α → Prop
  | s, Q, done a => Q a s
  | s, Q, call i next => ∀ b t, env s i b t → Ensures env t Q (next b)

section Ensures

variable {env : Environment σ ι β} {s : σ} {Q Q' : α → σ → Prop} {p : Program ι β α}

theorem Ensures.mono (h : p.Ensures env s Q) (hQ : ∀ a t, Q a t → Q' a t) :
    p.Ensures env s Q' := by
  induction p generalizing s with
  | done a => exact hQ a s h
  | call i next ih => exact fun b t hb => ih b (h b t hb)

theorem ensures_bind {R : γ → σ → Prop} {f : α → Program ι β γ} :
    (p.bind f).Ensures env s R ↔ p.Ensures env s fun a t => (f a).Ensures env t R := by
  induction p generalizing s with
  | done a => exact Iff.rfl
  | call i next ih =>
    exact forall_congr' fun b => forall_congr' fun t => imp_congr_right fun _ => ih b

@[simp] theorem ensures_done {a : α} : (done a : Program ι β α).Ensures env s Q ↔ Q a s := Iff.rfl

@[simp] theorem ensures_pure {a : α} : (pure a : Program ι β α).Ensures env s Q ↔ Q a s := Iff.rfl

theorem Ensures.and (h : p.Ensures env s Q) (h' : p.Ensures env s Q') :
    p.Ensures env s fun a t => Q a t ∧ Q' a t := by
  induction p generalizing s with
  | done a => exact ⟨h, h'⟩
  | call i next ih => exact fun b t hb => ih b (h b t hb) (h' b t hb)

/-- Whatever is answered is what an environment answers. -/
theorem Returns.ensures {P : α → Prop} (h : p.Returns P) : p.Ensures env s fun a _ => P a := by
  induction p generalizing s with
  | done a => exact h
  | call i next ih => exact fun b t _ => ih b (h b)

/-- What every call of a program keeps is kept by the program. -/
theorem Calls.ensures {P : ι → Prop} {I : σ → Prop} (h : p.Calls P)
    (hkeeps : ∀ {s i b t}, P i → I s → env s i b t → I t) (hs : I s) :
    p.Ensures env s fun _ t => I t := by
  induction p generalizing s with
  | done a => exact hs
  | call i next ih => exact fun b t hb => ih b (h.2 b) (hkeeps h.1 hs hb)

end Ensures

/-! ### Programs that may fail -/

section Ends

variable {ε δ : Type} {env : Environment σ ι β} {s : σ}

/-- Whatever an environment answers, the result has a property, or the error has one. -/
def Ends (env : Environment σ ι β) (s : σ) (Q : α → σ → Prop) (E : ε → σ → Prop)
    (p : ExceptT ε (Program ι β) α) : Prop :=
  Program.Ensures env s (fun r t => match r with
    | .ok a => Q a t
    | .error e => E e t) p.run

variable {Q Q' : α → σ → Prop} {E E' : ε → σ → Prop} {p : ExceptT ε (Program ι β) α}

theorem Ends.mono (h : Ends env s Q E p) (hQ : ∀ a t, Q a t → Q' a t)
    (hE : ∀ e t, E e t → E' e t) : Ends env s Q' E' p :=
  Ensures.mono h fun r t hr => match r, hr with
    | .ok a, ha => hQ a t ha
    | .error e, he => hE e t he

theorem ends_bind {R : γ → σ → Prop} {f : α → ExceptT ε (Program ι β) γ} :
    Ends env s R E (p >>= f) ↔ Ends env s (fun a t => Ends env t R E (f a)) E p := by
  refine ensures_bind.trans ?_
  refine ⟨fun h => Ensures.mono h fun r t => ?_, fun h => Ensures.mono h fun r t => ?_⟩
  all_goals
    cases r with
    | ok a => exact id
    | error e => exact id

@[simp] theorem ends_pure {a : α} :
    Ends env s Q E (pure a : ExceptT ε (Program ι β) α) ↔ Q a s := Iff.rfl

@[simp] theorem ends_throw {e : ε} :
    Ends env s Q E (throw e : ExceptT ε (Program ι β) α) ↔ E e s := Iff.rfl

/-- A program that does not fail, as one that may. -/
theorem ends_lift {p : Program ι β α} :
    Ends env s Q E (ExceptT.lift p) ↔ p.Ensures env s Q := by
  refine ensures_bind.trans ?_
  exact Iff.rfl

theorem ends_tryCatch {f : ε → ExceptT ε (Program ι β) α} :
    Ends env s Q E (tryCatch p f) ↔ Ends env s Q (fun e t => Ends env t Q E (f e)) p := by
  refine ensures_bind.trans ?_
  refine ⟨fun h => Ensures.mono h fun r t => ?_, fun h => Ensures.mono h fun r t => ?_⟩
  all_goals
    cases r with
    | ok a => exact id
    | error e => exact id

/-- Errors that are replaced. -/
theorem ends_adapt {f : ε → δ} {E : δ → σ → Prop} :
    Ends env s Q E (ExceptT.adapt f p) ↔ Ends env s Q (fun e t => E (f e) t) p := by
  refine ensures_bind.trans ?_
  refine ⟨fun h => Ensures.mono h fun r t => ?_, fun h => Ensures.mono h fun r t => ?_⟩
  all_goals
    cases r with
    | ok a => exact id
    | error e => exact id

end Ends

/-! ### Results and calls of programs that may fail -/

section Yields

variable {ε δ : Type} {P : α → Prop} {Q : γ → Prop} {C : ι → Prop}
  {p : ExceptT ε (Program ι β) α}

/-- Whatever is answered, the result has a property, unless there is an error. -/
def Yields (P : α → Prop) (p : ExceptT ε (Program ι β) α) : Prop :=
  p.run.Returns fun r => ∀ a, r = .ok a → P a

theorem yields_pure {a : α} (h : P a) : Yields P (pure a : ExceptT ε (Program ι β) α) := by
  rintro _ ⟨⟩
  exact h

theorem yields_throw {e : ε} : Yields P (throw e : ExceptT ε (Program ι β) α) := fun a h => by
  cases h

theorem Yields.bind {f : α → ExceptT ε (Program ι β) γ} (hp : Yields P p)
    (hf : ∀ a, P a → Yields Q (f a)) : Yields Q (p >>= f) := by
  refine Returns.bind hp fun r hr => ?_
  cases r with
  | ok a => exact hf a (hr a rfl)
  | error e => exact yields_throw

theorem Yields.adapt {f : ε → δ} (hp : Yields P p) : Yields P (ExceptT.adapt f p) := by
  refine Returns.bind hp fun r hr => ?_
  cases r with
  | ok a => exact yields_pure (hr a rfl)
  | error e => exact fun a h => by cases h

theorem Calls.bindExcept {f : α → ExceptT ε (Program ι β) γ} (hp : p.run.Calls C)
    (hf : ∀ a, (f a).run.Calls C) : (p >>= f).run.Calls C := by
  refine Calls.bind hp fun r => ?_
  cases r with
  | ok a => exact hf a
  | error e => trivial

theorem Calls.tryCatch {f : ε → ExceptT ε (Program ι β) α} (hp : p.run.Calls C)
    (hf : ∀ e, (f e).run.Calls C) : (tryCatch p f).run.Calls C := by
  refine Calls.bind hp fun r => ?_
  cases r with
  | ok a => trivial
  | error e => exact hf e

theorem Calls.adapt {f : ε → δ} (hp : p.run.Calls C) : (ExceptT.adapt f p).run.Calls C :=
  Calls.bind hp fun _ => trivial

theorem Calls.lift {p : Program ι β α} (hp : p.Calls C) :
    (ExceptT.lift p : ExceptT ε (Program ι β) α).run.Calls C :=
  Calls.bind hp fun _ => trivial

end Yields

end Program
