import Chip8.Instruction

/-!
# Decoding words

A word's top nibble names its family.  The families 0, E and F are told apart
further by the low byte, the family 8 by the low nibble.  The nibbles that do
not choose the instruction carry its operands; those that a pattern does not
use may hold anything.
-/

namespace Chip8

namespace Word

/-- The top nibble of a word. -/
def family (w : UInt16) : Nat := w.toNat / 4096

/-- The register named by the second nibble. -/
def x (w : UInt16) : Register := Register.ofNat (w.toNat / 256)

/-- The register named by the third nibble. -/
def y (w : UInt16) : Register := Register.ofNat (w.toNat / 16)

/-- The fourth nibble. -/
def nibble (w : UInt16) : Nibble := Nibble.ofNat w.toNat

/-- The low byte. -/
def byte (w : UInt16) : UInt8 := UInt8.ofNat w.toNat

/-- The low twelve bits. -/
def address (w : UInt16) : Address := Address.ofNat w.toNat

/-- A word as four hexadecimal digits. -/
def text (w : UInt16) : List Char := Hex.fixed 4 w.toNat

end Word

namespace Instruction

/-- The instructions of family 0, chosen by the low byte. -/
def ofSystem? (low : Nat) : Option Instruction :=
  if low = 0xE0 then some .clear
  else if low = 0xEE then some .ret
  else none

/-- The combinations and shifts of family 8, chosen by the low nibble. -/
def ofArithmetic? (low : Nat) (x y : Register) : Option Instruction :=
  match low with
  | 0x0 => some (.combine .copy x y)
  | 0x1 => some (.combine .or x y)
  | 0x2 => some (.combine .and x y)
  | 0x3 => some (.combine .xor x y)
  | 0x4 => some (.combine .add x y)
  | 0x5 => some (.combine .subtract x y)
  | 0x6 => some (.shift .right x)
  | 0x7 => some (.combine .subtractFrom x y)
  | 0xE => some (.shift .left x)
  | _ => none

/-- The key skips of family E, chosen by the low byte. -/
def ofKey? (low : Nat) (x : Register) : Option Instruction :=
  if low = 0x9E then some (.skip (.keyDown x))
  else if low = 0xA1 then some (.skip (.keyUp x))
  else none

/-- The instructions of family F, chosen by the low byte. -/
def ofTransfer? (low : Nat) (x : Register) : Option Instruction :=
  if low = 0x07 then some (.getDelay x)
  else if low = 0x0A then some (.waitKey x)
  else if low = 0x15 then some (.setDelay x)
  else if low = 0x18 then some (.setSound x)
  else if low = 0x1E then some (.addIndex x)
  else if low = 0x29 then some (.pointGlyph x)
  else if low = 0x33 then some (.storeDigits x)
  else if low = 0x55 then some (.storeRegisters x)
  else if low = 0x65 then some (.fillRegisters x)
  else none

/-- The instruction a word stands for, if it stands for one. -/
def decode (w : UInt16) : Option Instruction :=
  let x := Word.x w
  let y := Word.y w
  match Word.family w with
  | 0x0 => ofSystem? (Word.byte w).toNat
  | 0x1 => some (.jump (Word.address w))
  | 0x2 => some (.call (Word.address w))
  | 0x3 => some (.skip (.isByte x (Word.byte w)))
  | 0x4 => some (.skip (.isNotByte x (Word.byte w)))
  | 0x5 => some (.skip (.same x y))
  | 0x6 => some (.setByte x (Word.byte w))
  | 0x7 => some (.addByte x (Word.byte w))
  | 0x8 => ofArithmetic? (Word.nibble w).val x y
  | 0x9 => some (.skip (.differ x y))
  | 0xA => some (.setIndex (Word.address w))
  | 0xB => some (.jumpOffset (Word.address w))
  | 0xC => some (.random x (Word.byte w))
  | 0xD => some (.draw x y (Word.nibble w))
  | 0xE => ofKey? (Word.byte w).toNat x
  | 0xF => ofTransfer? (Word.byte w).toNat x
  | _ => none

end Instruction

end Chip8
