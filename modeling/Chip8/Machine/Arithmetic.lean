import Chip8.Instruction

/-!
# Arithmetic on registers

What the combinations and shifts compute from the bytes of `Vx` and `Vy`: an
8-bit result, and for some of them a flag that tells what the eight bits cannot
hold.
-/

namespace Chip8

/-- The byte that a combination leaves in `Vx`. -/
def Combination.result : Combination → (x y : UInt8) → UInt8
  | .copy, _, y => y
  | .or, x, y => x ||| y
  | .and, x, y => x &&& y
  | .xor, x, y => x ^^^ y
  | .add, x, y => x + y
  | .subtract, x, y => x - y
  | .subtractFrom, x, y => y - x

/-- The flag that a combination leaves in `VF`: whether a sum is carried over, or whether a
difference needs no borrow. -/
def Combination.flag? : Combination → (x y : UInt8) → Option Bool
  | .copy, _, _ | .or, _, _ | .and, _, _ | .xor, _, _ => none
  | .add, x, y => some (decide (256 ≤ x.toNat + y.toNat))
  | .subtract, x, y => some (decide (y ≤ x))
  | .subtractFrom, x, y => some (decide (x ≤ y))

/-- The byte that a shift leaves in `Vx`. -/
def Shift.result : Shift → UInt8 → UInt8
  | .right, x => UInt8.ofNat (x.toNat / 2)
  | .left, x => UInt8.ofNat (x.toNat * 2)

/-- The bit that a shift pushes out of `Vx`. -/
def Shift.flag : Shift → UInt8 → Bool
  | .right, x => decide (x.toNat % 2 = 1)
  | .left, x => decide (128 ≤ x.toNat)

/-- The three decimal digits of a byte. -/
def decimalDigits (b : UInt8) : List UInt8 :=
  [b / 100, b / 10 % 10, b % 10]

end Chip8
