import Chip8.Keypad
import Chip8.Machine.Operations
import Chip8.Outcome
import Chip8.Screen
import Chip8.Tape

/-!
# Carrying out instructions

A console is everything an instruction can touch: the machine, the screen, the
keys and the random source.  `Console.execute` is what each instruction does to
it.  What an instruction that goes wrong has done before stays done: a sprite
drawn from beyond the end of memory keeps the rows it has drawn.
-/

namespace Chip8

/-- Everything an instruction can touch. -/
structure Console where
  machine : Machine
  screen : Screen
  latch : Latch
  random : Tape UInt8

/-- Whether the condition of a skip holds.  A byte that names no key is not pressed. -/
def Condition.holds (m : Machine) (latch : Latch) : Condition → Bool
  | .isByte x byte => m.reg x == byte
  | .isNotByte x byte => m.reg x != byte
  | .same x y => m.reg x == m.reg y
  | .differ x y => m.reg x != m.reg y
  | .keyDown x => (Key.ofByte? (m.reg x)).any latch.isPressed
  | .keyUp x => !(Key.ofByte? (m.reg x)).any latch.isPressed

/-- Draw a number of sprite rows read from memory, one below another.
Says whether any pixel was flipped. -/
def Screen.drawSprite (memory : Memory) (column : Nat) :
    (rows row address : Nat) → Screen → Outcome Fault (Screen × Bool)
  | 0, _, _, s => .ok (s, false)
  | rows + 1, row, address, s =>
    match memory.read address with
    | .error fault => .fail (s, false) fault
    | .ok byte =>
      let first := s.drawByte column row byte
      (drawSprite memory column rows (row + 1) (address + 1) first.1).map
        fun others => (others.1, first.2 || others.2)

namespace Console

/-- Change the machine alone. -/
def withMachine (c : Console) (machine : Machine) : Console := { c with machine := machine }

/-- Do something to the machine alone that may go wrong. -/
def onMachine (c : Console) (act : Machine → Outcome Fault Machine) : Outcome Fault Console :=
  (act c.machine).map c.withMachine

/-- Draw a sprite at column `Vx` and row `Vy`, read from where the index register points, and
leave in `VF` whether any pixel was flipped. -/
def draw (c : Console) (x y : Register) (rows : Nibble) : Outcome Fault Console :=
  let m := c.machine
  let drawn := c.screen.drawSprite m.memory (m.reg x).toNat rows.val (m.reg y).toNat m.index.toNat
  let shown := { c with screen := drawn.state.1 }
  match drawn.error with
  | some fault => .fail shown fault
  | none => .ok (shown.withMachine (m.setReg .flag (UInt8.ofNat drawn.state.2.toNat)))

/-- Put the lowest pressed key into `Vx`, or stay at the current word if no key is pressed. -/
def waitKey (c : Console) (x : Register) : Console :=
  match c.latch.firstPressed? with
  | some key => c.withMachine (c.machine.setReg x (UInt8.ofNat key.val))
  | none => c.withMachine c.machine.rewind

/-- Put the next random byte, masked, into `Vx`. -/
def drawRandom (c : Console) (x : Register) (mask : UInt8) : Console :=
  { c with
    machine := c.machine.setReg x (c.random.head &&& mask)
    random := c.random.advance }

/-- Carry out an instruction; moving past its word is left to the caller. -/
def execute (i : Instruction) (c : Console) : Outcome Fault Console :=
  let m := c.machine
  match i with
  | .clear => .ok { c with screen := c.screen.clear }
  | .ret => c.onMachine Machine.ret
  | .jump target => .ok (c.withMachine (m.branch target.toWord))
  | .call target => c.onMachine (·.call target)
  | .skip condition => .ok (c.withMachine (m.skipIf (condition.holds m c.latch)))
  | .setByte x byte => .ok (c.withMachine (m.setReg x byte))
  | .addByte x byte => .ok (c.withMachine (m.setReg x (m.reg x + byte)))
  | .combine op x y => .ok (c.withMachine (m.combine op x y))
  | .shift direction x => .ok (c.withMachine (m.shift direction x))
  | .setIndex target => .ok (c.withMachine { m with index := target.toWord })
  | .jumpOffset target =>
    .ok (c.withMachine (m.branch (target.toWord + (m.reg .first).toUInt16)))
  | .random x mask => .ok (c.drawRandom x mask)
  | .draw x y rows => c.draw x y rows
  | .getDelay x => .ok (c.withMachine (m.setReg x m.delay))
  | .waitKey x => .ok (c.waitKey x)
  | .setDelay x => .ok (c.withMachine { m with delay := m.reg x })
  | .setSound x => .ok (c.withMachine { m with sound := m.reg x })
  | .addIndex x => .ok (c.withMachine (m.addIndex x))
  | .pointGlyph x => .ok (c.withMachine (m.pointGlyph x))
  | .storeDigits x => c.onMachine fun m => m.storeAtIndex (decimalDigits (m.reg x))
  | .storeRegisters x => c.onMachine fun m => m.storeAtIndex (m.regsThrough x)
  | .fillRegisters x => c.onMachine (·.fillRegisters x)

end Console

end Chip8
