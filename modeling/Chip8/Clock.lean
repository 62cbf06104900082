import Chip8.Outcome
import Chip8.Tape
import Chip8.Shortest

/-!
# The clock

Tasks that run periodically, driven by a time source that the clock reads but
does not control.  All times are in nanoseconds.

The clock never waits.  Each tick reads the time once, and every task whose
period has passed since it last fired runs once, in the order in which the
tasks were added.  Periods that have been missed are not caught up.
-/

namespace Chip8

/-- Why a task is refused. -/
inductive Clock.Refusal
  /-- The clock cannot tell the time. -/
  | noTimeSource
  /-- The frequency is not a positive finite number. -/
  | badFrequency (frequency : Float)
  deriving DecidableEq

/-- The sentence that reports a refused task. -/
def Clock.Refusal.message : Clock.Refusal → String
  | .noTimeSource => "clock has no time source"
  | .badFrequency frequency =>
    "frequency must be positive and finite, got " ++ Shortest.text frequency ++ " Hz"

/-- A label and the times at which its task runs. -/
structure Task (α : Type) where
  label : α
  period : Nat
  lastFired : Nat
  deriving DecidableEq, Repr

/-- Whether a task is due at a reading.  A reading before the last firing counts as no time. -/
def Task.due {α : Type} (task : Task α) (now : Nat) : Bool :=
  task.period ≤ now - task.lastFired

/-- A time source, if there is one, and the tasks in the order in which they were added. -/
structure Clock (α : Type) where
  source : Option (Tape Nat)
  tasks : List (Task α)

namespace Clock

variable {α ε σ : Type}

/-- A clock with a time source and no tasks. -/
def ofSource (source : Tape Nat) : Clock α := ⟨some source, []⟩

/-- A clock that cannot tell the time. -/
def withoutSource : Clock α := ⟨none, []⟩

/-- The period of a frequency: a second divided by it, without the fraction of a nanosecond, or
the longest 64-bit time if that is shorter. -/
def period (frequency : Float) : Nat := (1e9 / frequency).toUInt64.toNat

/-- Whether tasks can run at a frequency. -/
def isFrequency (frequency : Float) : Bool := frequency.isFinite && !(frequency ≤ 0)

/-- Add a task that counts its first period from now. -/
def schedule (c : Clock α) (label : α) (frequency : Float) : Outcome Refusal (Clock α) :=
  match c.source with
  | none => .fail c .noTimeSource
  | some source =>
    if isFrequency frequency then
      .ok
        { source := some source.advance
          tasks := c.tasks ++ [⟨label, period frequency, source.head⟩] }
    else .fail c (.badFrequency frequency)

/-- Run the tasks that are due at a reading, up to the first that fails.  A task that runs has
fired then, even if it fails; the tasks after a failing one stay as they are. -/
def fire (act : α → σ → Outcome ε σ) (now : Nat) :
    List (Task α) → σ → List (Task α) × Outcome ε σ
  | [], state => ([], .ok state)
  | task :: rest, state =>
    if task.due now then
      let fired := { task with lastFired := now }
      let outcome := act task.label state
      match outcome.error with
      | some _ => (fired :: rest, outcome)
      | none =>
        let others := fire act now rest outcome.state
        (fired :: others.1, others.2)
    else
      let others := fire act now rest state
      (task :: others.1, others.2)

/-- Read the time once and run the tasks that are due; without a time source nothing happens. -/
def tick (act : α → σ → Outcome ε σ) (c : Clock α) (state : σ) : Clock α × Outcome ε σ :=
  match c.source with
  | none => (c, .ok state)
  | some source =>
    let result := fire act source.head c.tasks state
    ({ source := some source.advance, tasks := result.1 }, result.2)

/-- How many times the time source has been read. -/
def reads (c : Clock α) : Nat :=
  match c.source with
  | none => 0
  | some source => source.position

end Clock

end Chip8
