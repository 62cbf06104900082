import Chip8.Console
import Chip8.Dispatcher

/-!
# The engine

A console that runs the program in its own memory, one word at a time, and keeps
a journal of it.
-/

namespace Chip8

/-- A console, the dispatcher that feeds it, and the journal of what happened. -/
structure Engine where
  console : Console
  dispatcher : Dispatcher
  journal : Array Entry

namespace Engine

/-- Change the machine alone. -/
def withMachine (e : Engine) (machine : Machine) : Engine :=
  { e with console := e.console.withMachine machine }

/-- Note something in the journal. -/
def note (e : Engine) (entry : Entry) : Engine := { e with journal := e.journal.push entry }

/-- What is left when a word fetched at a counter has been dispatched: the journal tells how it
went, and the counter moves past the word unless it went wrong. -/
def afterDispatch (journal : Array Entry) (pc word : UInt16) (d : Dispatched Console) :
    Outcome Fault Engine :=
  let e : Engine := ⟨d.state, d.dispatcher, journal ++ d.notes⟩
  match d.result with
  | .error fault => .fail (e.note (.halted pc word fault)) fault
  | .ok found =>
    let entry := match found with
      | some instruction => .executed pc word instruction
      | none => .skipped pc word
    .ok ((e.note entry).withMachine d.state.machine.advance)

/-- Fetch the word that the counter points at and carry it out.  If there is no such word nothing
changes and nothing is noted. -/
def cycle (e : Engine) : Outcome Fault Engine :=
  let pc := e.console.machine.pc
  match e.console.machine.memory.readWord pc.toNat with
  | .error fault => .fail e fault
  | .ok word =>
    afterDispatch e.journal pc word (e.dispatcher.dispatch Console.execute word e.console)

/-- Count the timers down. -/
def countDown (e : Engine) : Engine := e.withMachine e.console.machine.countDown

end Engine

end Chip8
