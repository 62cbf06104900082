import Chip8.Journal
import Chip8.Outcome

/-!
# Dispatching words

A dispatcher decodes words and hands each instruction to a unit that carries it
out.  A word that stands for no instruction is passed over without asking the
unit; under the recording policy it is noted down at its first sighting.
-/

namespace Chip8

/-- What to do with words that stand for no instruction. -/
inductive Policy
  /-- Pass over them. -/
  | ignore
  /-- Pass over them, and note down each different one once. -/
  | record
  deriving DecidableEq, Repr

/-- A policy and the words noted down so far, in the order of their first sighting. -/
structure Dispatcher where
  policy : Policy
  unknown : List UInt16
  deriving DecidableEq, Repr

/-- What dispatching one word leaves. -/
structure Dispatched (σ : Type) where
  dispatcher : Dispatcher
  /-- The state of the unit. -/
  state : σ
  /-- The instruction that was carried out, `none` for a word that was passed over. -/
  result : Except Fault (Option Instruction)
  /-- What was noted in the journal. -/
  notes : List Entry

namespace Dispatcher

variable {σ : Type}

/-- A dispatcher that has not seen any word. -/
def ofPolicy (policy : Policy) : Dispatcher := ⟨policy, []⟩

/-- Whether a word that stands for no instruction is to be noted down. -/
def isNews (d : Dispatcher) (word : UInt16) : Bool :=
  d.policy == .record && !d.unknown.contains word

/-- Pass over a word that stands for no instruction. -/
def passOver (d : Dispatcher) (word : UInt16) : Dispatcher × List Entry :=
  if d.isNews word then ({ d with unknown := d.unknown ++ [word] }, [.unknown word]) else (d, [])

/-- Hand the instruction of a word to a unit, or pass over a word that has none. -/
def dispatch (act : Instruction → σ → Outcome Fault σ) (d : Dispatcher) (word : UInt16)
    (state : σ) : Dispatched σ :=
  match Instruction.decode word with
  | none =>
    let passed := d.passOver word
    ⟨passed.1, state, .ok none, passed.2⟩
  | some instruction =>
    let outcome := act instruction state
    match outcome.error with
    | some fault => ⟨d, outcome.state, .error fault, []⟩
    | none => ⟨d, outcome.state, .ok (some instruction), []⟩

end Dispatcher

end Chip8
