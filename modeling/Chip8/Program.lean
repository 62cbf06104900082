/-!
# Programs

Where a program lies in memory, how large it may be, and why one is refused.
-/

namespace Chip8

/-- The bytes of a program. -/
abbrev Program := List UInt8

namespace Program

/-- The address of a program's first byte, where execution begins. -/
def start : Nat := 0x200

/-- The most bytes a program may have: all the cells from its start to the end of memory. -/
def maxSize : Nat := 4096 - start

/-- Why a program is refused. -/
inductive Refusal
  /-- It has at least this many bytes, more than there is room for. -/
  | tooLarge (size : Nat)
  /-- Its reader failed with a message. -/
  | reader (message : String)
  deriving DecidableEq, Repr

/-- The sentence that reports a refused program. -/
def Refusal.message : Refusal → String
  | .tooLarge size =>
    "ROM is too large (" ++ size.repr ++ " bytes), max size is " ++ maxSize.repr ++ " bytes"
  | .reader message => "io error: " ++ message

end Program

end Chip8
