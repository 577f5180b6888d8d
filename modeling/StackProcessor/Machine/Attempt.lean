import StackProcessor.Machine.Fault

/-!
# StackProcessor — attempts

Hardware does not roll back: what is interrupted halfway leaves the state it has reached. An
`Attempt` therefore carries a state in both cases, `completed` and `interrupted`; `Attempt.state`
gives it without asking which, and `Attempt.cause?` gives the `Interrupt`. Attempts are chained with
`Attempt.andThen`, which stops at the first interrupt, and seen as attempts on a larger state by
`Attempt.map`.
-/

namespace StackProcessor

/-- What became of an attempt to change a state. -/
inductive Attempt (σ : Type) where
  /-- It went through and left this state. -/
  | completed (state : σ)
  /-- It was cut short in this state. -/
  | interrupted (state : σ) (cause : Interrupt)
  deriving DecidableEq, Repr

namespace Attempt

variable {σ τ : Type}

/-- The state that the attempt left, whether it went through or not. -/
def state : Attempt σ → σ
  | completed s => s
  | interrupted s _ => s

/-- What cut the attempt short, if anything did. -/
def cause? : Attempt σ → Option Interrupt
  | completed _ => none
  | interrupted _ cause => some cause

/-- Goes on with `next` unless the attempt was cut short. -/
def andThen (a : Attempt σ) (next : σ → Attempt σ) : Attempt σ :=
  match a with
  | completed s => next s
  | interrupted s cause => interrupted s cause

/-- The same attempt, seen as one on a larger state. -/
def map (f : σ → τ) : Attempt σ → Attempt τ
  | completed s => completed (f s)
  | interrupted s cause => interrupted (f s) cause

@[simp]
theorem state_completed (s : σ) : (completed s).state = s := rfl

@[simp]
theorem state_interrupted (s : σ) (cause : Interrupt) : (interrupted s cause).state = s := rfl

@[simp]
theorem state_map (f : σ → τ) (a : Attempt σ) : (a.map f).state = f a.state := by
  cases a <;> rfl

end Attempt

end StackProcessor
