import Chip8.Machine
import Chip8.Machine.Arithmetic

/-!
# What instructions do to the machine

The counter moves past the current word after every instruction.  Operations
that set the counter therefore aim one word short of their target, and a skip
moves it by one word more.

An operation that is stopped leaves what it has done up to there.  Calls,
returns and transfers to or from memory look for all they need first.
-/

namespace Chip8

/-- The bytes of a number of cells from an address on. -/
def Memory.readBlock (m : Memory) (address : Nat) : (count : Nat) → Except Fault (List UInt8)
  | 0 => .ok []
  | count + 1 =>
    match m.read address with
    | .error fault => .error fault
    | .ok value =>
      match m.readBlock (address + 1) count with
      | .error fault => .error fault
      | .ok rest => .ok (value :: rest)

namespace Machine

/-- Move the counter past one word. -/
def advance (m : Machine) : Machine := { m with pc := m.pc + Instruction.width }

/-- Move the counter back by one word. -/
def rewind (m : Machine) : Machine := { m with pc := m.pc - Instruction.width }

/-- Leave out the next word if a condition holds. -/
def skipIf (m : Machine) (condition : Bool) : Machine := if condition then m.advance else m

/-- Aim the counter so that moving past the current word lands on a target. -/
def branch (m : Machine) (target : UInt16) : Machine := { m with pc := target - Instruction.width }

/-- Store the counter in the slot after the last one used, and go on at a target. -/
def call (m : Machine) (target : Address) : Outcome Fault Machine :=
  let sp := m.sp + 1
  let filled := m.stack.set sp m.pc
  let pushed := { m with stack := filled.state }
  match filled.error with
  | some _ => .fail pushed (.stackOverflow m.pc)
  | none => .ok ({ pushed with sp := sp }.branch target.toWord)

/-- Take the counter from the slot used last, and give the slot up. -/
def ret (m : Machine) : Outcome Fault Machine :=
  if m.sp = 0 then .fail m (.stackUnderflow m.pc)
  else
    match m.stack.get? m.sp with
    | none => .fail m (.stackUnderflow m.pc)
    | some pc => .ok { m with pc := pc, sp := m.sp - 1 }

/-- Put a flag into `VF` and then a result into `Vx`, so that the result stays if they are the
same register. -/
def setFlagged (m : Machine) (x : Register) (result : UInt8) (flag : Bool) : Machine :=
  (m.setReg .flag (UInt8.ofNat flag.toNat)).setReg x result

/-- Combine `Vy` into `Vx`. -/
def combine (m : Machine) (op : Combination) (x y : Register) : Machine :=
  let result := op.result (m.reg x) (m.reg y)
  match op.flag? (m.reg x) (m.reg y) with
  | some flag => m.setFlagged x result flag
  | none => m.setReg x result

/-- Shift `Vx` by one bit. -/
def shift (m : Machine) (direction : Shift) (x : Register) : Machine :=
  m.setFlagged x (direction.result (m.reg x)) (direction.flag (m.reg x))

/-- Add `Vx` to the index register. -/
def addIndex (m : Machine) (x : Register) : Machine :=
  { m with index := m.index + (m.reg x).toUInt16 }

/-- Point the index register at the glyph of `Vx`. -/
def pointGlyph (m : Machine) (x : Register) : Machine :=
  { m with index := UInt16.ofNat (Font.stride * (m.reg x).toNat) }

/-- Store a block of bytes where the index register points. -/
def storeAtIndex (m : Machine) (data : List UInt8) : Outcome Fault Machine :=
  (m.memory.store m.index.toNat data).map fun memory => { m with memory := memory }

/-- The bytes of the registers from `V0` up to and including `Vx`. -/
def regsThrough (m : Machine) (x : Register) : List UInt8 := x.through.map m.reg

/-- Put bytes into the registers from `V0` on; the registers they do not reach keep theirs. -/
def setRegs (m : Machine) (values : List UInt8) : Machine :=
  { m with v := Vector.ofFn fun k => values.getD k.val (m.reg k) }

/-- Fill the registers from `V0` up to and including `Vx` from where the index register points.
All the bytes are read before the first register is changed. -/
def fillRegisters (m : Machine) (x : Register) : Outcome Fault Machine :=
  match m.memory.readBlock m.index.toNat (x.val + 1) with
  | .error fault => .fail m fault
  | .ok values => .ok (m.setRegs values)

end Machine

end Chip8
