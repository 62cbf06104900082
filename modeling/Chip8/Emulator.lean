import Chip8.Clock
import Chip8.Engine

/-!
# The emulator

An engine paced by a clock with two jobs: carry out one word, and count the
timers down.  The host may also ask for either directly.  The first fault halts
the emulator for good.
-/

namespace Chip8

/-- What an emulator can be told when it is set up. -/
structure Config where
  /-- Words carried out per second. -/
  cpuHz : Float := 600
  /-- Timer steps per second. -/
  timerHz : Float := 60
  /-- The seed of the random bytes, if they are to come from one. -/
  seed : Option UInt64 := none
  /-- What to do with words that stand for no instruction. -/
  policy : Policy := .ignore

/-- Where random bytes come from: for each seed, and for want of one. -/
abbrev Entropy := Option UInt64 → Tape UInt8

/-- What the clock of an emulator does periodically. -/
inductive Job
  /-- Carry out one word. -/
  | cycle
  /-- Count the timers down. -/
  | countDown
  deriving DecidableEq, Repr

/-- Do a job. -/
def Job.run : Job → Engine → Outcome Fault Engine
  | .cycle, e => e.cycle
  | .countDown, e => .ok e.countDown

/-- An engine, its clock, and the fault that has halted it if one has. -/
structure Emulator where
  engine : Engine
  clock : Clock Job
  fault : Option Fault

namespace Emulator

/-- Why an emulator cannot be set up. -/
inductive Refusal
  /-- Its program is refused. -/
  | program (reason : Program.Refusal)
  /-- One of its jobs is refused. -/
  | job (reason : Clock.Refusal)
  deriving DecidableEq

/-- The sentence that reports an emulator that cannot be set up. -/
def Refusal.message : Refusal → String
  | .program reason => "failed to load ROM: " ++ reason.message
  | .job reason => "failed to schedule task: " ++ reason.message

/-- The machine of an emulator. -/
def machine (e : Emulator) : Machine := e.engine.console.machine

/-- The screen of an emulator. -/
def screen (e : Emulator) : Screen := e.engine.console.screen

/-- The words noted down because they stand for no instruction. -/
def unknown (e : Emulator) : List UInt16 := e.engine.dispatcher.unknown

/-- Whether a beeper should sound. -/
def beeping (e : Emulator) : Bool := 0 < e.machine.sound

/-- A clock with the two jobs of an emulator. -/
def jobClock (config : Config) (source : Tape Nat) : Outcome Clock.Refusal (Clock Job) :=
  ((Clock.ofSource source).schedule .cycle config.cpuHz).andThen
    (·.schedule .countDown config.timerHz)

/-- What is noted down while an emulator is set up. -/
def setupNotes (rom : Program) (config : Config) : Array Entry :=
  #[.loaded rom.length,
    .scheduled 0 (Clock.period config.cpuHz),
    .scheduled 1 (Clock.period config.timerHz),
    .ready config.cpuHz config.timerHz]

/-- Set up an emulator for a program. -/
def boot (rom : Program) (latch : Latch) (config : Config) (source : Tape Nat)
    (entropy : Entropy) : Except Refusal Emulator :=
  let loaded := Machine.blank.loadFont.loadProgram rom
  match loaded.error with
  | some reason => .error (.program reason)
  | none =>
    let clock := jobClock config source
    match clock.error with
    | some reason => .error (.job reason)
    | none =>
      .ok
        { engine :=
            { console := ⟨loaded.state, .blank, latch, entropy config.seed⟩
              dispatcher := .ofPolicy config.policy
              journal := setupNotes rom config }
          clock := clock.state
          fault := none }

/-- Do something that may go wrong, unless the emulator has been halted; a fault that arises is
remembered. -/
def unlessHalted (e : Emulator) (act : Emulator → Outcome Fault Emulator) :
    Outcome Fault Emulator :=
  match e.fault with
  | some fault => .fail e fault
  | none =>
    let outcome := act e
    outcome.map fun after => { after with fault := outcome.error }

/-- Carry out one word, whatever the time is. -/
def step (e : Emulator) : Outcome Fault Emulator :=
  e.unlessHalted fun e => e.engine.cycle.map fun engine => { e with engine := engine }

/-- Read the time and do the jobs that are due. -/
def poll (e : Emulator) : Outcome Fault Emulator :=
  e.unlessHalted fun e =>
    let ticked := e.clock.tick Job.run e.engine
    ticked.2.map fun engine => { e with engine := engine, clock := ticked.1 }

/-- Count the timers down, whatever the time is. -/
def countDown (e : Emulator) : Emulator := { e with engine := e.engine.countDown }

/-- Change the console from outside. -/
def withConsole (e : Emulator) (console : Console) : Emulator :=
  { e with engine := { e.engine with console := console } }

/-- Hand out the frame if it may have changed since the last time. -/
def refresh (e : Emulator) : Emulator × Option Frame :=
  let refreshed := e.screen.refresh
  (e.withConsole { e.engine.console with screen := refreshed.1 }, refreshed.2)

/-- Change what the program reads of the keys. -/
def setLatch (e : Emulator) (latch : Latch) : Emulator :=
  e.withConsole { e.engine.console with latch := latch }

/-- Change the machine from outside. -/
def edit (e : Emulator) (change : Machine → Machine) : Emulator :=
  e.withConsole (e.engine.console.withMachine (change e.machine))

/-- Put another program into memory from outside. -/
def loadProgram (e : Emulator) (rom : Program) : Outcome Program.Refusal Emulator :=
  let loaded := e.machine.loadProgram rom
  let engine := e.engine.withMachine loaded.state
  match loaded.error with
  | some reason => .fail { e with engine := engine } reason
  | none => .ok { e with engine := engine.note (.loaded rom.length) }

end Emulator

end Chip8
