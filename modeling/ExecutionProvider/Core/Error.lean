/-!
# Errors of the execution core

Every fallible operation of the core returns one error: a code from a fixed enumeration and a
text. The codes are part of the protocol, the texts are for people.

## Main definitions

* `ErrorCode`, `Error`: the error type of the core.
* `Error.invalid`: an error about an argument.
-/

namespace ExecutionProvider

/-- The codes an error of the core may carry. -/
inductive ErrorCode
  | notFound
  | invalidArgument
  | invalidState
  | generationMismatch
  | idempotencyConflict
  | preconditionFailed
  | stdinClosed
  | unsupportedOperation
  | resourceLimit
  | unavailable
  | io
deriving DecidableEq, Repr

/-- How a code is written. -/
def ErrorCode.text : ErrorCode → String
  | notFound => "not_found"
  | invalidArgument => "invalid_argument"
  | invalidState => "invalid_state"
  | generationMismatch => "generation_mismatch"
  | idempotencyConflict => "idempotency_conflict"
  | preconditionFailed => "precondition_failed"
  | stdinClosed => "stdin_closed"
  | unsupportedOperation => "unsupported_operation"
  | resourceLimit => "resource_limit"
  | unavailable => "unavailable"
  | io => "io"

/-- An error of the core. -/
structure Error where
  code : ErrorCode
  message : String
deriving DecidableEq, Repr

/-- An error about an argument. -/
def Error.invalid (message : String) : Error := ⟨.invalidArgument, message⟩

@[simp] theorem Error.code_invalid (message : String) :
    (Error.invalid message).code = .invalidArgument := rfl

/-- The result of a fallible operation of the core. -/
abbrev Result (α : Type) := Except Error α

theorem Result.map_eq_ok {α β : Type} {f : α → β} {x : Result α} {b : β} :
    x.map f = .ok b ↔ ∃ a, x = .ok a ∧ f a = b := by
  cases x with
  | error e => simp [Except.map]
  | ok a => simp [Except.map]

theorem Result.bind_eq_ok {α β : Type} {f : α → Result β} {x : Result α} {b : β} :
    (x >>= f) = .ok b ↔ ∃ a, x = .ok a ∧ f a = .ok b := by
  cases x with
  | error e => simp [bind, Except.bind]
  | ok a => simp [bind, Except.bind]

end ExecutionProvider
