import Chip8.Font
import Chip8.Machine.Memory
import Chip8.Machine.Stack
import Chip8.Operand
import Chip8.Program

/-!
# The machine

Everything a program can change apart from the screen: memory, return slots,
registers, counters and timers.
-/

namespace Chip8

/-- The memory, registers, counters and timers of the machine. -/
structure Machine where
  memory : Memory
  stack : Stack
  /-- The registers `V0` to `VF`. -/
  v : Vector UInt8 16
  /-- The index register `I`. -/
  index : UInt16
  /-- The program counter. -/
  pc : UInt16
  /-- The slot of the return address stored last. -/
  sp : UInt8
  /-- The delay timer. -/
  delay : UInt8
  /-- The sound timer. -/
  sound : UInt8
  deriving DecidableEq, Repr

namespace Machine

/-- A machine with nothing in memory, about to run the first word of a program. -/
def blank : Machine where
  memory := .blank
  stack := .blank
  v := Vector.replicate 16 0
  index := 0
  pc := UInt16.ofNat Program.start
  sp := 0
  delay := 0
  sound := 0

/-- What a register holds. -/
def reg (m : Machine) (x : Register) : UInt8 := m.v[x]

/-- Put a byte into a register. -/
def setReg (m : Machine) (x : Register) (value : UInt8) : Machine :=
  { m with v := m.v.set x value }

/-- A register holds what was put into it, and the others keep what they held. -/
theorem reg_setReg (m : Machine) (x y : Register) (value : UInt8) :
    (m.setReg x value).reg y = if x = y then value else m.reg y := by
  simp [reg, setReg, Vector.getElem_set, Fin.ext_iff]

/-- Put the glyphs of the font at the start of memory. -/
def loadFont (m : Machine) : Machine :=
  { m with memory := m.memory.put 0 Font.sheet }

/-- Put a program into memory.  Whether there is room for it is seen before any of it is put
there. -/
def loadProgram (m : Machine) (rom : Program) : Outcome Program.Refusal Machine :=
  if Program.maxSize < rom.length then .fail m (.tooLarge rom.length)
  else .ok { m with memory := m.memory.put Program.start rom }

/-- Count both timers down by one; a timer at zero stays there. -/
def countDown (m : Machine) : Machine :=
  { m with
    delay := UInt8.ofNat (m.delay.toNat - 1)
    sound := UInt8.ofNat (m.sound.toNat - 1) }

end Machine

end Chip8
