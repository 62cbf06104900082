import Chip8.Duration
import Chip8.Fault
import Chip8.Instruction.Decode
import Chip8.Program
import Chip8.Shortest

/-!
# The journal

What an emulator notes down as it goes: each entry has a level and a line.
-/

namespace Chip8

/-- Something worth noting down. -/
inductive Entry
  /-- A program of some bytes was put into memory. -/
  | loaded (size : Nat)
  /-- A task was added to a clock, with a number of tasks before it and this period. -/
  | scheduled (before period : Nat)
  /-- An emulator is ready to run at these frequencies. -/
  | ready (cpu timers : Float)
  /-- A word that stands for no instruction was recorded. -/
  | unknown (word : UInt16)
  /-- The instruction of a word was carried out. -/
  | executed (pc word : UInt16) (instruction : Instruction)
  /-- A word that stands for no instruction was passed over. -/
  | skipped (pc word : UInt16)
  /-- The instruction of a word went wrong. -/
  | halted (pc word : UInt16) (fault : Fault)
  deriving DecidableEq

namespace Entry

/-- A program counter in a line: a marked numeral of at least three digits. -/
def counter (pc : UInt16) : String := String.ofList (Hex.marked 3 pc.toNat)

/-- A word in a line: four digits. -/
def word (w : UInt16) : String := String.ofList (Word.text w)

/-- How much an entry matters. -/
def level : Entry → String
  | .loaded _ | .scheduled .. | .ready .. => "DEBUG"
  | .unknown _ => "WARN"
  | .executed .. | .skipped .. => "TRACE"
  | .halted .. => "ERROR"

/-- What an entry says. -/
def message : Entry → String
  | .loaded size =>
    "loaded " ++ size.repr ++ " byte ROM at " ++ String.ofList (Hex.marked 3 Program.start)
  | .scheduled before period =>
    "registered task #" ++ before.repr ++ " every " ++ Duration.text period
  | .ready cpu timers =>
    "emulator ready: cpu " ++ Shortest.text cpu ++ " Hz, timers " ++ Shortest.text timers
      ++ " Hz"
  | .unknown w => "ignoring unknown opcode " ++ word w
  | .executed pc w instruction => counter pc ++ "  " ++ word w ++ "  " ++ instruction.text
  | .skipped pc w => counter pc ++ "  " ++ word w ++ "  (skipped)"
  | .halted pc w fault =>
    "halted at " ++ counter pc ++ " executing " ++ word w ++ ": " ++ fault.message

/-- The line of an entry: its level and what it says. -/
def line (e : Entry) : String := e.level ++ " " ++ e.message

end Entry

end Chip8
