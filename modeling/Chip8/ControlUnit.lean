import Chip8.Fault
import Chip8.Instruction
import Chip8.Outcome

/-!
# Control units

A control unit is whatever instructions are handed to.  It has one operation for
each of them, which takes the operands in the order of the assembly line and may
go wrong.  The unit of the running machine is its console, but a dispatcher does
not care which unit it feeds.
-/

namespace Chip8

/-- Something that is done to the state of a unit and may go wrong. -/
abbrev Operation (σ : Type) := σ → Outcome Fault σ

/-- One operation for each instruction. -/
structure ControlUnit (σ : Type) where
  clear : Operation σ
  ret : Operation σ
  jump (target : Address) : Operation σ
  call (target : Address) : Operation σ
  skipIfByte (x : Register) (byte : UInt8) : Operation σ
  skipIfNotByte (x : Register) (byte : UInt8) : Operation σ
  skipIfSame (x y : Register) : Operation σ
  skipIfDiffer (x y : Register) : Operation σ
  skipIfKeyDown (x : Register) : Operation σ
  skipIfKeyUp (x : Register) : Operation σ
  setByte (x : Register) (byte : UInt8) : Operation σ
  addByte (x : Register) (byte : UInt8) : Operation σ
  copy (x y : Register) : Operation σ
  or (x y : Register) : Operation σ
  and (x y : Register) : Operation σ
  xor (x y : Register) : Operation σ
  add (x y : Register) : Operation σ
  subtract (x y : Register) : Operation σ
  subtractFrom (x y : Register) : Operation σ
  shiftRight (x : Register) : Operation σ
  shiftLeft (x : Register) : Operation σ
  setIndex (target : Address) : Operation σ
  jumpOffset (target : Address) : Operation σ
  random (x : Register) (mask : UInt8) : Operation σ
  draw (x y : Register) (rows : Nibble) : Operation σ
  getDelay (x : Register) : Operation σ
  waitKey (x : Register) : Operation σ
  setDelay (x : Register) : Operation σ
  setSound (x : Register) : Operation σ
  addIndex (x : Register) : Operation σ
  pointGlyph (x : Register) : Operation σ
  storeDigits (x : Register) : Operation σ
  storeRegisters (x : Register) : Operation σ
  fillRegisters (x : Register) : Operation σ

namespace ControlUnit

variable {σ : Type}

/-- The operation of a unit for an instruction. -/
def perform (u : ControlUnit σ) : Instruction → Operation σ
  | .clear => u.clear
  | .ret => u.ret
  | .jump target => u.jump target
  | .call target => u.call target
  | .skip (.isByte x byte) => u.skipIfByte x byte
  | .skip (.isNotByte x byte) => u.skipIfNotByte x byte
  | .skip (.same x y) => u.skipIfSame x y
  | .skip (.differ x y) => u.skipIfDiffer x y
  | .skip (.keyDown x) => u.skipIfKeyDown x
  | .skip (.keyUp x) => u.skipIfKeyUp x
  | .setByte x byte => u.setByte x byte
  | .addByte x byte => u.addByte x byte
  | .combine .copy x y => u.copy x y
  | .combine .or x y => u.or x y
  | .combine .and x y => u.and x y
  | .combine .xor x y => u.xor x y
  | .combine .add x y => u.add x y
  | .combine .subtract x y => u.subtract x y
  | .combine .subtractFrom x y => u.subtractFrom x y
  | .shift .right x => u.shiftRight x
  | .shift .left x => u.shiftLeft x
  | .setIndex target => u.setIndex target
  | .jumpOffset target => u.jumpOffset target
  | .random x mask => u.random x mask
  | .draw x y rows => u.draw x y rows
  | .getDelay x => u.getDelay x
  | .waitKey x => u.waitKey x
  | .setDelay x => u.setDelay x
  | .setSound x => u.setSound x
  | .addIndex x => u.addIndex x
  | .pointGlyph x => u.pointGlyph x
  | .storeDigits x => u.storeDigits x
  | .storeRegisters x => u.storeRegisters x
  | .fillRegisters x => u.fillRegisters x

/-- The unit whose operations are what a function does for each instruction. -/
def ofAct (act : Instruction → Operation σ) : ControlUnit σ where
  clear := act .clear
  ret := act .ret
  jump target := act (.jump target)
  call target := act (.call target)
  skipIfByte x byte := act (.skip (.isByte x byte))
  skipIfNotByte x byte := act (.skip (.isNotByte x byte))
  skipIfSame x y := act (.skip (.same x y))
  skipIfDiffer x y := act (.skip (.differ x y))
  skipIfKeyDown x := act (.skip (.keyDown x))
  skipIfKeyUp x := act (.skip (.keyUp x))
  setByte x byte := act (.setByte x byte)
  addByte x byte := act (.addByte x byte)
  copy x y := act (.combine .copy x y)
  or x y := act (.combine .or x y)
  and x y := act (.combine .and x y)
  xor x y := act (.combine .xor x y)
  add x y := act (.combine .add x y)
  subtract x y := act (.combine .subtract x y)
  subtractFrom x y := act (.combine .subtractFrom x y)
  shiftRight x := act (.shift .right x)
  shiftLeft x := act (.shift .left x)
  setIndex target := act (.setIndex target)
  jumpOffset target := act (.jumpOffset target)
  random x mask := act (.random x mask)
  draw x y rows := act (.draw x y rows)
  getDelay x := act (.getDelay x)
  waitKey x := act (.waitKey x)
  setDelay x := act (.setDelay x)
  setSound x := act (.setSound x)
  addIndex x := act (.addIndex x)
  pointGlyph x := act (.pointGlyph x)
  storeDigits x := act (.storeDigits x)
  storeRegisters x := act (.storeRegisters x)
  fillRegisters x := act (.fillRegisters x)

/-- Whatever a dispatcher can be told to do with instructions is done by a unit. -/
theorem perform_ofAct (act : Instruction → Operation σ) : (ofAct act).perform = act := by
  funext i
  cases i with
  | skip condition => cases condition with
    | _ => rfl
  | combine op x y => cases op with
    | _ => rfl
  | shift direction x => cases direction with
    | _ => rfl
  | _ => rfl

end ControlUnit

end Chip8
