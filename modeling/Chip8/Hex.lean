/-!
# Hexadecimal numerals

Upper-case hexadecimal numerals, most significant digit first.  A numeral has
either a fixed number of digits (`fixed`) or at least a given number (`padded`).
-/

namespace Chip8.Hex

/-- The digit for a value below sixteen. -/
def digit (d : Nat) : Char :=
  if d < 10 then Char.ofNat (48 + d) else Char.ofNat (55 + d)

/-- The lowest `width` digits of `n`. -/
def fixed : (width : Nat) → (n : Nat) → List Char
  | 0, _ => []
  | width + 1, n => fixed width (n / 16) ++ [digit (n % 16)]

theorem length_fixed (width n : Nat) : (fixed width n).length = width := by
  induction width generalizing n with
  | zero => rfl
  | succ width ih => simp [fixed, ih]

/-- The number of digits that `n` needs; zero needs one. -/
def size (n : Nat) : Nat :=
  n.log2 / 4 + 1

/-- Every digit of `n`, after enough zeros to make at least `width` digits. -/
def padded (width n : Nat) : List Char :=
  fixed (max width (size n)) n

/-- A padded numeral with the mark `0x` in front. -/
def marked (width n : Nat) : List Char :=
  '0' :: 'x' :: padded width n

end Chip8.Hex
