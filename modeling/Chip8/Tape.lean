/-!
# Tapes

An endless sequence of values that are taken one after another, such as the
readings of a time source or the bytes of a random source.  The position says
how many have been taken.
-/

namespace Chip8

/-- A sequence of values and how many of them have been taken. -/
structure Tape (α : Type) where
  cell : Nat → α
  position : Nat

namespace Tape

variable {α : Type}

/-- A tape of which nothing has been taken. -/
def ofCells (cell : Nat → α) : Tape α := ⟨cell, 0⟩

/-- The value that is taken next. -/
def head (t : Tape α) : α := t.cell t.position

/-- The tape after its next value has been taken. -/
def advance (t : Tape α) : Tape α := { t with position := t.position + 1 }

end Tape

end Chip8
