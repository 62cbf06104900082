import Chip8.Outcome

/-!
# Return slots

Sixteen slots for return addresses, reached by a byte that need not name one.
-/

namespace Chip8

/-- The return slots of the machine. -/
structure Stack where
  slots : Vector UInt16 16
  deriving DecidableEq, Repr

namespace Stack

/-- How many slots there are. -/
def size : Nat := 16

/-- Slots that all hold zero. -/
def blank : Stack := ⟨Vector.replicate 16 0⟩

/-- What a slot holds, if there is such a slot. -/
def get? (s : Stack) (slot : UInt8) : Option UInt16 := s.slots[slot.toNat]?

/-- Fill a slot, if there is such a slot. -/
def set (s : Stack) (slot : UInt8) (value : UInt16) : Outcome Unit Stack :=
  if slot.toNat < size then .ok ⟨s.slots.setIfInBounds slot.toNat value⟩ else .fail s ()

/-- A filled slot holds what was put into it, and the other slots keep what they held. -/
theorem get?_set {s : Stack} {slot : UInt8} (h : slot.toNat < size) (value : UInt16)
    (other : UInt8) :
    (s.set slot value).state.get? other = if other = slot then some value else s.get? other := by
  have hcell : slot.toNat < 16 := h
  rw [set, if_pos h]
  by_cases ho : other = slot
  · subst ho
    simp [get?, hcell]
  · have hne : slot.toNat ≠ other.toNat := fun e => ho (UInt8.toNat_inj.mp e.symm)
    simp [get?, ho, hne]

end Stack

end Chip8
