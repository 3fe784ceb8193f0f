import Transclude.Fault

/-! # Runs

A run does its work, writes down the events on the way and ends with a result or
a reason to stop. Events are kept also when the run stops. -/

namespace Transclude

/-- What a run writes down; warnings are of the type `ω`. -/
inductive Event (ω : Type)
  | detail (message : String)
  | notice (message : String)
  | warning (warning : ω)
deriving DecidableEq, Repr

/-- A run with warnings in `ω` and errors in `ε`. -/
structure Run (ω ε α : Type) where
  events : List (Event ω)
  outcome : Except (Halt ε) α

namespace Run

variable {ω ε δ α β : Type}

/-- The run that gives a value at once. -/
def done (value : α) : Run ω ε α := ⟨[], .ok value⟩

/-- The run that stops at once. -/
def stop (reason : Halt ε) : Run ω ε α := ⟨[], .error reason⟩

/-- The run that stops with an error. -/
def fail (cause : ε) : Run ω ε α := stop (.error cause)

/-- One run after the other. -/
def andThen (first : Run ω ε α) (next : α → Run ω ε β) : Run ω ε β :=
  match first.outcome with
  | .ok value => ⟨first.events ++ (next value).events, (next value).outcome⟩
  | .error reason => ⟨first.events, .error reason⟩

instance : Monad (Run ω ε) where
  pure := done
  bind := andThen

/-- The run of a result that is known. -/
def ofExcept : Except (Halt ε) α → Run ω ε α
  | outcome => ⟨[], outcome⟩

instance : MonadLift (Except (Halt ε)) (Run ω ε) := ⟨ofExcept⟩

instance : MonadLift (Except Fault) (Run ω ε) where
  monadLift
    | .ok value => done value
    | .error kind => stop (.fault kind)

/-- Writes down one event. -/
def emit (event : Event ω) : Run ω ε Unit := ⟨[event], .ok ()⟩

/-- Writes down a detail. -/
def detail (message : String) : Run ω ε Unit := emit (.detail message)

/-- Writes down a warning. -/
def warn (warning : ω) : Run ω ε Unit := emit (.warning warning)

/-- The run with its error replaced. -/
def mapError (f : ε → δ) (run : Run ω ε α) : Run ω δ α :=
  ⟨run.events, match run.outcome with
    | .ok value => .ok value
    | .error reason => .error (reason.map f)⟩

/-- The warnings of a run, in order. -/
def warnings (run : Run ω ε α) : List ω :=
  run.events.filterMap fun
    | .warning w => some w
    | _ => none

end Run

end Transclude
