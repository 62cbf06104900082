import Chip8.Hex

/-!
# Faults

The ways a program can do something that the machine cannot honour, and the
sentence that reports each of them.
-/

namespace Chip8

/-- What a program did wrong. -/
inductive Fault
  /-- It reached for a cell outside memory. -/
  | outsideMemory (address : Nat)
  /-- It called a subroutine, from this program counter, with no free return slot. -/
  | stackOverflow (pc : UInt16)
  /-- It returned, from this program counter, with no return address to go to. -/
  | stackUnderflow (pc : UInt16)
  deriving DecidableEq, Repr

namespace Fault

/-- A marked hexadecimal numeral of at least four digits. -/
def numeral (n : Nat) : String := String.ofList (Hex.marked 4 n)

/-- The sentence that reports a fault. -/
def message : Fault → String
  | .outsideMemory address => "memory access out of bounds at address " ++ numeral address
  | .stackOverflow pc => "stack overflow calling from pc " ++ numeral pc.toNat
  | .stackUnderflow pc => "stack underflow returning from pc " ++ numeral pc.toNat

end Fault

end Chip8
