import Chip8.Operand

/-!
# Instructions

The instructions of the machine and their assembly text.  A line of assembly is
a mnemonic and a list of operands; several instructions share a mnemonic and
are told apart by their operands.
-/

namespace Chip8

/-- What a conditional skip tests. -/
inductive Condition
  /-- Register `Vx` holds the byte. -/
  | isByte (x : Register) (byte : UInt8)
  /-- Register `Vx` holds some other byte. -/
  | isNotByte (x : Register) (byte : UInt8)
  /-- Registers `Vx` and `Vy` hold the same byte. -/
  | same (x y : Register)
  /-- Registers `Vx` and `Vy` hold different bytes. -/
  | differ (x y : Register)
  /-- The key that `Vx` names is held down. -/
  | keyDown (x : Register)
  /-- The key that `Vx` names is not held down. -/
  | keyUp (x : Register)
  deriving DecidableEq, Repr

/-- The ways to combine `Vy` into `Vx`. -/
inductive Combination
  | copy
  | or
  | and
  | xor
  /-- The sum `Vx + Vy`, with the carry as flag. -/
  | add
  /-- The difference `Vx - Vy`, with "no borrow" as flag. -/
  | subtract
  /-- The difference `Vy - Vx`, with "no borrow" as flag. -/
  | subtractFrom
  deriving DecidableEq, Repr

/-- The direction in which `Vx` is shifted by one bit. -/
inductive Shift
  | right
  | left
  deriving DecidableEq, Repr

/-- An instruction with its operands. -/
inductive Instruction
  /-- Blank the screen. -/
  | clear
  /-- Return from a subroutine. -/
  | ret
  /-- Go on at an address. -/
  | jump (target : Address)
  /-- Go on at an address and remember where to return. -/
  | call (target : Address)
  /-- Leave out the next instruction if a condition holds. -/
  | skip (condition : Condition)
  /-- Put a byte into `Vx`. -/
  | setByte (x : Register) (byte : UInt8)
  /-- Add a byte to `Vx`, without a flag. -/
  | addByte (x : Register) (byte : UInt8)
  /-- Combine `Vy` into `Vx`. -/
  | combine (op : Combination) (x y : Register)
  /-- Shift `Vx`, with the bit shifted out as flag. -/
  | shift (direction : Shift) (x : Register)
  /-- Put an address into `I`. -/
  | setIndex (target : Address)
  /-- Go on at an address plus `V0`. -/
  | jumpOffset (target : Address)
  /-- Put a random byte, masked, into `Vx`. -/
  | random (x : Register) (mask : UInt8)
  /-- Draw a sprite of some rows at column `Vx` and row `Vy`. -/
  | draw (x y : Register) (rows : Nibble)
  /-- Put the delay timer into `Vx`. -/
  | getDelay (x : Register)
  /-- Put the next key to be held down into `Vx`. -/
  | waitKey (x : Register)
  /-- Put `Vx` into the delay timer. -/
  | setDelay (x : Register)
  /-- Put `Vx` into the sound timer. -/
  | setSound (x : Register)
  /-- Add `Vx` to `I`. -/
  | addIndex (x : Register)
  /-- Point `I` at the font glyph of `Vx`. -/
  | pointGlyph (x : Register)
  /-- Store the three decimal digits of `Vx` at `I`. -/
  | storeDigits (x : Register)
  /-- Store `V0` to `Vx` at `I`. -/
  | storeRegisters (x : Register)
  /-- Fill `V0` to `Vx` from `I`. -/
  | fillRegisters (x : Register)
  deriving DecidableEq, Repr

namespace Condition

/-- The mnemonic of a skip on this condition. -/
def mnemonic : Condition → List Char
  | .isByte .. | .same .. => ['S', 'E']
  | .isNotByte .. | .differ .. => ['S', 'N', 'E']
  | .keyDown _ => ['S', 'K', 'P']
  | .keyUp _ => ['S', 'K', 'N', 'P']

/-- The operands of a skip on this condition. -/
def operands : Condition → List Operand
  | .isByte x byte | .isNotByte x byte => [.register x, .byte byte]
  | .same x y | .differ x y => [.register x, .register y]
  | .keyDown x | .keyUp x => [.register x]

end Condition

/-- The mnemonic of a combination. -/
def Combination.mnemonic : Combination → List Char
  | .copy => ['L', 'D']
  | .or => ['O', 'R']
  | .and => ['A', 'N', 'D']
  | .xor => ['X', 'O', 'R']
  | .add => ['A', 'D', 'D']
  | .subtract => ['S', 'U', 'B']
  | .subtractFrom => ['S', 'U', 'B', 'N']

/-- The mnemonic of a shift. -/
def Shift.mnemonic : Shift → List Char
  | .right => ['S', 'H', 'R']
  | .left => ['S', 'H', 'L']

namespace Instruction

/-- Instructions are two bytes wide. -/
def width : UInt16 := 2

/-- The mnemonic an instruction is written with. -/
def mnemonic : Instruction → List Char
  | .clear => ['C', 'L', 'S']
  | .ret => ['R', 'E', 'T']
  | .jump _ | .jumpOffset _ => ['J', 'P']
  | .call _ => ['C', 'A', 'L', 'L']
  | .skip condition => condition.mnemonic
  | .addByte .. | .addIndex _ => ['A', 'D', 'D']
  | .combine op .. => op.mnemonic
  | .shift direction _ => direction.mnemonic
  | .random .. => ['R', 'N', 'D']
  | .draw .. => ['D', 'R', 'W']
  | .setByte .. | .setIndex _ | .getDelay _ | .waitKey _ | .setDelay _ | .setSound _
  | .pointGlyph _ | .storeDigits _ | .storeRegisters _ | .fillRegisters _ => ['L', 'D']

/-- The operands an instruction is written with, in order. -/
def operands : Instruction → List Operand
  | .clear | .ret => []
  | .jump target | .call target => [.address target]
  | .skip condition => condition.operands
  | .setByte x byte | .addByte x byte => [.register x, .byte byte]
  | .combine _ x y => [.register x, .register y]
  | .shift _ x => [.register x]
  | .setIndex target => [.place .index, .address target]
  | .jumpOffset target => [.place .offset, .address target]
  | .random x mask => [.register x, .byte mask]
  | .draw x y rows => [.register x, .register y, .nibble rows]
  | .getDelay x => [.register x, .place .delay]
  | .waitKey x => [.register x, .place .key]
  | .setDelay x => [.place .delay, .register x]
  | .setSound x => [.place .sound, .register x]
  | .addIndex x => [.place .index, .register x]
  | .pointGlyph x => [.place .glyph, .register x]
  | .storeDigits x => [.place .digits, .register x]
  | .storeRegisters x => [.place .pointed, .register x]
  | .fillRegisters x => [.register x, .place .pointed]

/-- The characters of operands: a blank before the first, a comma and a blank between two. -/
def operandChars : List Operand → List Char
  | [] => []
  | operand :: rest =>
    ' ' :: operand.text ++ rest.flatMap fun next => ',' :: ' ' :: next.text

/-- The characters of the line of assembly for an instruction. -/
def chars (i : Instruction) : List Char :=
  i.mnemonic ++ operandChars i.operands

/-- The line of assembly for an instruction, such as `LD V1, 0x22`. -/
def text (i : Instruction) : String :=
  String.ofList i.chars

end Instruction

end Chip8
