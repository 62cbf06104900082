import Chip8.Hex

/-!
# Operands of instructions

The values an instruction word can carry (a register number, an address, a byte
and a nibble) and the operands an assembly line can show: one of those values,
or a fixed symbol such as `DT`.
-/

namespace Chip8

/-- The number of one of the registers `V0` to `VF`. -/
abbrev Register := Fin 16

/-- A 12-bit address carried by an instruction. -/
abbrev Address := Fin 4096

/-- A 4-bit number carried by an instruction. -/
abbrev Nibble := Fin 16

namespace Register

/-- How many registers there are. -/
def count : Nat := 16

/-- The register that receives carries, borrows, shifted-out bits and collisions. -/
def flag : Register := 15

/-- The register whose value offsets a jump. -/
def first : Register := 0

/-- The register that the low four bits of a number name. -/
def ofNat (n : Nat) : Register := Fin.ofNat 16 n

/-- Every register from `V0` up to and including the given one. -/
def through (x : Register) : List Register :=
  (List.finRange 16).filter (· ≤ x)

/-- A register is written `V` and its hexadecimal digit. -/
def text (x : Register) : List Char :=
  'V' :: Hex.fixed 1 x.val

end Register

namespace Address

/-- The address that the low twelve bits of a number name. -/
def ofNat (n : Nat) : Address := Fin.ofNat 4096 n

/-- An address as a 16-bit word. -/
def toWord (a : Address) : UInt16 := UInt16.ofNat a.val

/-- An address is written with three hexadecimal digits. -/
def text (a : Address) : List Char :=
  '0' :: 'x' :: Hex.fixed 3 a.val

end Address

/-- The four low bits of a number. -/
def Nibble.ofNat (n : Nat) : Nibble := Fin.ofNat 16 n

/-- A nibble is written in decimal. -/
def Nibble.text (n : Nibble) : List Char :=
  if n.val < 10 then [Hex.digit n.val] else ['1', Hex.digit (n.val - 10)]

/-- A byte is written with two hexadecimal digits. -/
def byteText (b : UInt8) : List Char :=
  '0' :: 'x' :: Hex.fixed 2 b.toNat

/-- The operands that name a fixed place of the machine. -/
inductive Place
  /-- The index register itself. -/
  | index
  /-- The memory that the index register points at. -/
  | pointed
  /-- The delay timer. -/
  | delay
  /-- The sound timer. -/
  | sound
  /-- The next key to be pressed. -/
  | key
  /-- The font glyph of a digit. -/
  | glyph
  /-- The three decimal digits of a byte. -/
  | digits
  /-- The register that offsets a jump. -/
  | offset
  deriving DecidableEq, Repr

/-- The symbol that stands for a fixed place. -/
def Place.text : Place → List Char
  | .index => ['I']
  | .pointed => ['[', 'I', ']']
  | .delay => ['D', 'T']
  | .sound => ['S', 'T']
  | .key => ['K']
  | .glyph => ['F']
  | .digits => ['B']
  | .offset => ['V', '0']

/-- One operand of an assembly line. -/
inductive Operand
  | register (x : Register)
  | address (a : Address)
  | byte (b : UInt8)
  | nibble (n : Nibble)
  | place (p : Place)
  deriving DecidableEq, Repr

namespace Operand

/-- How an operand is written. -/
def text : Operand → List Char
  | .register x => x.text
  | .address a => a.text
  | .byte b => byteText b
  | .nibble n => n.text
  | .place p => p.text

/-- The number that the instruction word carries for an operand; a fixed place carries none. -/
def value? : Operand → Option Nat
  | .register x => some x.val
  | .address a => some a.val
  | .byte b => some b.toNat
  | .nibble n => some n.val
  | .place _ => none

end Operand

end Chip8
