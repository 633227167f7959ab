import ExecutionProvider.Filesystem.Files
import ExecutionProvider.Protocol.JsonSize

/-!
# What the errors of file work say

The texts of errors are those of the operating system or short texts of the core. Whoever bounds the
former bounds them all.

## Main definitions

* `Accepting`: an operating system that refuses paths that are too long, with short texts.
* `Error.Short`: whether the text of an error is short.

## Main results

* `Accepting.readFileAt`: what is read was asked for by a path that was accepted.
* `Accepting.writeFileAt`: the errors of a write are short.
-/

namespace ExecutionProvider

/-- The largest number of bytes of a path. -/
def Filesystem.pathMax : ℕ := 4096

/-- The text of an error is short: it has at most two paths. -/
def Error.Short (e : Error) : Prop := e.message.utf8ByteSize ≤ 2 * Filesystem.pathMax + 64

instance (e : Error) : Decidable e.Short := inferInstanceAs (Decidable (_ ≤ _))

/-- Numbers in texts are smaller than this. -/
def numberMax : ℕ := 10 ^ 8

/-- An error that names a number is short. -/
theorem Error.short_number {n : ℕ} (hn : n < numberMax) {start rest : String}
    (h : start.utf8ByteSize + rest.utf8ByteSize ≤ 1024) :
    (Error.invalid (start ++ toString n ++ rest)).Short := by
  have hdigits : (toString n).length ≤ 8 := (Nat.length_repr_le_iff (by decide)).mpr hn
  have hbytes := Json.utf8ByteSize_le (toString n)
  rw [Error.Short, Error.invalid, String.utf8ByteSize_append, String.utf8ByteSize_append,
    Filesystem.pathMax]
  omega

theorem Error.short_last_number {n : ℕ} (hn : n < numberMax) {start : String}
    (h : start.utf8ByteSize ≤ 1024) : (Error.invalid (start ++ toString n)).Short := by
  have hshort : (Error.invalid (start ++ toString n ++ "")).Short := Error.short_number hn h
  rwa [String.append_empty] at hshort

namespace Filesystem

open Program Protocol

/-- The largest number of bytes of what the operating system says of an error. -/
def ioMessageMax : ℕ := 256

/-- An operating system refuses paths that are too long, and says little of errors. -/
structure Accepting {σ : Type} (env : Environment σ SysCall SysCall.Answer) : Prop where
  path : ∀ {s path r t}, env s (.symlinkMetadata path) r t → pathMax < path.utf8ByteSize →
    ∃ e, r = .error e ∧ e.notFound = false
  message : ∀ {s c r t e}, env s c r t → c.failure r = some e →
    e.message.utf8ByteSize ≤ ioMessageMax

theorem mapIo_short {e : IoError} (h : e.message.utf8ByteSize ≤ ioMessageMax) :
    (mapIo e).Short :=
  h.trans (by decide)

section Short

variable {σ α γ : Type} {env : Environment σ SysCall SysCall.Answer} {s : σ}

/-- The errors of some work are short. -/
def Shortly (env : Environment σ SysCall SysCall.Answer) (p : FileM α) : Prop :=
  ∀ s, Ends env s (fun _ _ => True) (fun e _ => e.Short) p

theorem shortly_pure (a : α) : Shortly env (pure a) := fun _ => trivial

theorem shortly_throw {e : Error} (h : e.Short) : Shortly env (throw e : FileM α) := fun _ => h

theorem Shortly.bind {p : FileM α} {f : α → FileM γ} (hp : Shortly env p)
    (hf : ∀ a, Shortly env (f a)) : Shortly env (p >>= f) := fun s =>
  ends_bind.mpr ((hp s).mono (fun a t _ => hf a t) fun _ _ => id)

theorem Shortly.tryCatch {p : FileM α} {f : Error → FileM α} (hp : Shortly env p)
    (hf : ∀ e, e.Short → Shortly env (f e)) : Shortly env (tryCatch p f) := fun s =>
  ends_tryCatch.mpr ((hp s).mono (fun _ _ => id) fun e t he => hf e he t)

theorem Shortly.foldlM {f : γ → α → FileM γ} (h : ∀ b a, Shortly env (f b a))
    (l : List α) (b : γ) : Shortly env (l.foldlM f b) := by
  induction l generalizing b with
  | nil => exact shortly_pure b
  | cons a l ih =>
    rw [List.foldlM_cons]
    exact (h b a).bind fun b => ih b

/-- Some work before other work, under a condition. -/
theorem Shortly.ite_bind {c : Prop} [Decidable c] {p : FileM γ} {q : FileM α}
    (hp : Shortly env p) (hq : Shortly env q) :
    Shortly env (if c then p >>= fun _ => q else q) := by
  split_ifs
  · exact hp.bind fun _ => hq
  · exact hq

theorem shortly_lift {p : FileWork α} (h : ∀ s, p.Ensures env s fun _ _ => True) :
    Shortly env (ExceptT.lift p) := fun s => ends_lift.mpr (h s)

/-- A call whose failure is left to the caller. -/
theorem shortly_attempt (c : FileWork (Except IoError α)) : Shortly env (attempt c) := by
  refine shortly_lift fun s => ?_
  induction c generalizing s with
  | done a => trivial
  | call i next ih => exact fun b t _ => ih b t

/-- A call whose failure is an error. -/
theorem shortly_io {p : FileWork (Except IoError α)}
    (h : ∀ s, p.Ensures env s fun r _ => ∀ e, r = .error e →
      e.message.utf8ByteSize ≤ ioMessageMax) : Shortly env (io p) := by
  intro s
  refine ends_io.mpr ((h s).mono fun r t hr => ?_)
  cases r with
  | ok a => trivial
  | error e => exact mapIo_short (hr e rfl)

end Short

namespace Accepting

variable {σ α : Type} {env : Environment σ SysCall SysCall.Answer}

/-- A path whose file is known was accepted, and so was one that was not found. -/
theorem metadata (henv : Accepting env) (s : σ) (path : String) :
    Ends env s (fun _ _ => path.utf8ByteSize ≤ pathMax)
      (fun e _ => e.Short ∧ (e.code = .notFound → path.utf8ByteSize ≤ pathMax))
      (Filesystem.metadata path) := by
  refine ends_bind.mpr (ends_io.mpr fun r t hr => ?_)
  cases r with
  | error e =>
    refine ⟨mapIo_short (henv.message hr rfl), fun hcode => ?_⟩
    by_contra hlong
    obtain ⟨e', he', hfound⟩ := henv.path hr (Nat.not_le.mp hlong)
    obtain rfl := Except.error.inj he'
    rw [notFound_mapIo_iff, hfound] at hcode
    cases hcode
  | ok link =>
    have hpath : path.utf8ByteSize ≤ pathMax := by
      by_contra hlong
      obtain ⟨e, he, -⟩ := henv.path hr (Nat.not_le.mp hlong)
      cases he
    refine ends_bind.mpr (ends_io.mpr fun r t hr => ?_)
    cases r with
    | error e => exact ⟨mapIo_short (henv.message hr rfl), fun _ => hpath⟩
    | ok followed => exact hpath

/-- What is read was asked for by a path that was accepted, and is not too large. A path that was
not found was accepted, too. -/
theorem readFileAt (henv : Accepting env) (s : σ) (path : String) (limit : ℕ) :
    Ends env s (fun data _ => data.length ≤ limit ∧ path.utf8ByteSize ≤ pathMax)
      (fun e _ => e.Short ∧ (e.code = .notFound → path.utf8ByteSize ≤ pathMax))
      (Filesystem.readFileAt path limit) := by
  refine ends_bind.mpr ((henv.metadata s path).mono (fun metadata t hpath => ?_) fun _ _ => id)
  refine Ends.mono (Q := fun data _ => data.length ≤ limit) (E := fun e _ => e.Short) ?_
    (fun data _ h => ⟨h, hpath⟩) fun e _ h => ⟨h, fun _ => hpath⟩
  dsimp only
  split
  · exact (by decide : (Error.invalid "path is not a regular file").Short)
  split
  · exact (by decide : (Error.mk .resourceLimit "file exceeds the requested byte limit").Short)
  refine ends_bind.mpr (ends_io.mpr fun r t hr => ?_)
  cases r with
  | error e => exact mapIo_short (henv.message hr rfl)
  | ok file =>
    refine ends_bind.mpr (ends_io.mpr fun r t hr => ?_)
    cases r with
    | error e => exact mapIo_short (henv.message hr rfl)
    | ok data =>
      rw [ensures_done]
      dsimp only
      split_ifs with hlong
      · exact (by decide : (Error.mk .resourceLimit
          "file grew beyond the requested byte limit while being read").Short)
      · exact Nat.not_lt.mp hlong

theorem shortly_existingHash (henv : Accepting env) (sha256 : List UInt8 → String) (path : String)
    (limit : ℕ) : Shortly env (existingHash sha256 path limit) := by
  refine Shortly.tryCatch (Shortly.bind (fun s => ?_) fun data => shortly_pure _) fun e he => ?_
  · exact (henv.readFileAt s path limit).mono (fun _ _ _ => trivial) fun _ _ h => h.1
  · split_ifs
    · exact shortly_pure _
    · exact shortly_throw he

theorem checkPrecondition_eq (existing : Option String) (precondition : FilePrecondition) :
    checkPrecondition existing precondition = .ok () ∨
      checkPrecondition existing precondition =
        .error ⟨.preconditionFailed, "file changed after it was read"⟩ := by
  unfold checkPrecondition
  exact (ite_eq_or_eq _ _ _)

theorem shortly_checkPrecondition (existing : Option String) (precondition : FilePrecondition) :
    Shortly env (liftM (checkPrecondition existing precondition) : FileM Unit) := by
  intro s
  obtain hcheck | hcheck := checkPrecondition_eq existing precondition
  · rw [hcheck]
    trivial
  · rw [hcheck]
    exact (by decide : (Error.mk .preconditionFailed "file changed after it was read").Short)

theorem shortly_replaceContent (henv : Accepting env) (sha256 : List UInt8 → String)
    (temporary target : String) (data : List UInt8) (permissions : Option ℕ)
    (precondition : FilePrecondition) (limit : ℕ) :
    Shortly env (replaceContent sha256 temporary target data permissions (.conditional precondition)
      limit) := by
  have hlast : Shortly env (do
      checkPrecondition (← existingHash sha256 target limit) precondition
      Filesystem.io (sys (.rename temporary target))) :=
    (henv.shortly_existingHash sha256 target limit).bind fun existing =>
      (shortly_checkPrecondition existing precondition).bind fun _ =>
        shortly_io fun s r t hr e he => henv.message hr (by rw [he]; rfl)
  rw [replaceContent]
  refine Shortly.bind (shortly_io fun s r t hr e he => henv.message hr (by rw [he]; rfl))
    fun file => ?_
  refine Shortly.bind (shortly_io fun s r t hr e he => henv.message hr (by rw [he]; rfl))
    fun _ => ?_
  refine Shortly.bind (shortly_io fun s r t hr e he => henv.message hr (by rw [he]; rfl))
    fun _ => ?_
  cases permissions with
  | none => exact hlast
  | some permissions =>
    exact Shortly.bind (shortly_io fun s r t hr e he => henv.message hr (by rw [he]; rfl))
      fun _ => hlast

/-- The errors of a conditional write are short. -/
theorem shortly_writeFileAt (henv : Accepting env) (sha256 : List UInt8 → String)
    (mutationId path : String) (data : List UInt8) (createParentDirectories : Bool)
    (precondition : FilePrecondition) (limit : ℕ) :
    Shortly env (writeFileAt sha256 mutationId path data createParentDirectories
      (.conditional precondition) limit) := by
  rw [writeFileAt]
  refine Shortly.bind (shortly_pure _) fun target => ?_
  refine Shortly.bind (henv.shortly_existingHash sha256 _ limit) fun existing => ?_
  dsimp only
  split
  · exact shortly_pure _
  refine Shortly.bind (shortly_checkPrecondition existing precondition) fun _ => ?_
  split
  · exact shortly_throw (by decide)
  · next parent _ =>
    refine Shortly.ite_bind (shortly_io fun s r t hr e he => henv.message hr (by rw [he]; rfl)) ?_
    refine Shortly.bind (shortly_attempt _) fun metadata => ?_
    refine Shortly.bind (shortly_lift fun s => fun _ _ _ => trivial) fun unique => ?_
    intro s
    refine ends_bind.mpr (ends_lift.mpr ?_)
    refine Ensures.mono (henv.shortly_replaceContent sha256 _ _ data _ precondition limit s)
      fun r t hr => ?_
    cases r with
    | ok a => trivial
    | error e => exact Shortly.bind (shortly_attempt _) (fun _ => shortly_throw hr) t

end Accepting

end Filesystem

end ExecutionProvider
