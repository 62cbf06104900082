/-!
# Keys

The sixteen keys of the pad and where a program reads them from.  A latch says
for each key whether it is held down, or that nothing is wired to it; a key
that nothing is wired to counts as not pressed.
-/

namespace Chip8

/-- One of the keys 0 to F. -/
abbrev Key := Fin 16

namespace Key

/-- How many keys there are. -/
def count : Nat := 16

/-- The key that a byte names, if there is one. -/
def ofByte? (b : UInt8) : Option Key :=
  if h : b.toNat < 16 then some ⟨b.toNat, h⟩ else none

/-- Every key, in ascending order. -/
def all : List Key := List.finRange 16

end Key

/-- What a program reads of each key: whether it is held down, or `none` if nothing is wired
to it. -/
abbrev Latch := Key → Option Bool

namespace Latch

/-- Whether a key is wired and held down. -/
def isPressed (latch : Latch) (key : Key) : Bool :=
  latch key == some true

/-- The lowest key that is pressed, if any is. -/
def firstPressed? (latch : Latch) : Option Key :=
  Key.all.find? latch.isPressed

end Latch

/-- A pad of keys, each of which is held down or not. -/
structure Keypad where
  held : Vector Bool 16
  deriving DecidableEq, Repr

namespace Keypad

/-- A pad with no key held down. -/
def idle : Keypad := ⟨Vector.replicate 16 false⟩

/-- Hold a key down or let go of it. -/
def set (pad : Keypad) (key : Key) (down : Bool) : Keypad := ⟨pad.held.set key down⟩

/-- Hold the listed keys down or let go of them, key 0 first; keys that the list does not reach
are let go. -/
def setAll (_ : Keypad) (down : List Bool) : Keypad :=
  ⟨Vector.ofFn fun key => down.getD key false⟩

/-- What a program reads of the keys of a pad, all of which are wired to it. -/
def latch (pad : Keypad) : Latch := fun key => some pad.held[key]

end Keypad

end Chip8
