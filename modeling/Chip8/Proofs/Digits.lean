import Chip8.Instruction.Decode

/-!
# Words put together from their digits

A word is four hexadecimal digits, and a pattern of words lets some of them
range over an operand: an address takes up the three low digits, a byte the two
low ones and a register one.  The fields of a word that is put together so are
the operands it was put together from, and every word is put together from its
own fields.
-/

namespace Chip8

namespace Word

/-- The word with a family and an address. -/
def ofAddress (family : Fin 16) (target : Address) : UInt16 :=
  UInt16.ofNat (family.val * 4096 + target.val)

/-- The word with a family, a register and a byte. -/
def ofByte (family : Fin 16) (x : Register) (byte : UInt8) : UInt16 :=
  UInt16.ofNat (family.val * 4096 + x.val * 256 + byte.toNat)

/-- The word with a family, two registers and a nibble. -/
def ofNibble (family : Fin 16) (x y : Register) (nibble : Nibble) : UInt16 :=
  UInt16.ofNat
    (family.val * 4096 + x.val * 256 + y.val * 16 + nibble.val)

section

variable (digit : Fin 16) (target : Address) (r s : Register) (b : UInt8)
  (n : Nibble)

theorem toNat_ofAddress :
    (ofAddress digit target).toNat = digit.val * 4096 + target.val := by
  have hdigit := digit.isLt
  have htarget := target.isLt
  exact Nat.mod_eq_of_lt (by omega)

theorem toNat_ofByte :
    (ofByte digit r b).toNat =
      digit.val * 4096 + r.val * 256 + b.toNat := by
  have hdigit := digit.isLt
  have hr := r.isLt
  have hb := b.toNat_lt
  exact Nat.mod_eq_of_lt (by omega)

theorem toNat_ofNibble :
    (ofNibble digit r s n).toNat =
      digit.val * 4096 + r.val * 256 + s.val * 16 + n.val := by
  have hdigit := digit.isLt
  have hr := r.isLt
  have hs := s.isLt
  have hn := n.isLt
  exact Nat.mod_eq_of_lt (by omega)

@[simp] theorem family_ofAddress :
    family (ofAddress digit target) = digit.val := by
  have htarget := target.isLt
  rw [family, toNat_ofAddress]
  omega

@[simp] theorem address_ofAddress :
    address (ofAddress digit target) = target := by
  apply Fin.ext
  have htarget := target.isLt
  simp only [address, Address.ofNat, Fin.val_ofNat, toNat_ofAddress]
  omega

@[simp] theorem family_ofByte : family (ofByte digit r b) = digit.val := by
  have hr := r.isLt
  have hb := b.toNat_lt
  rw [family, toNat_ofByte]
  omega

@[simp] theorem x_ofByte : x (ofByte digit r b) = r := by
  apply Fin.ext
  have hr := r.isLt
  have hb := b.toNat_lt
  simp only [x, Register.ofNat, Fin.val_ofNat, toNat_ofByte]
  omega

@[simp] theorem byte_ofByte : byte (ofByte digit r b) = b := by
  apply UInt8.toNat_inj.mp
  have hb := b.toNat_lt
  rw [byte, UInt8.toNat_ofNat', toNat_ofByte]
  omega

@[simp] theorem family_ofNibble :
    family (ofNibble digit r s n) = digit.val := by
  have hr := r.isLt
  have hs := s.isLt
  have hn := n.isLt
  rw [family, toNat_ofNibble]
  omega

@[simp] theorem x_ofNibble : x (ofNibble digit r s n) = r := by
  apply Fin.ext
  have hr := r.isLt
  have hs := s.isLt
  have hn := n.isLt
  simp only [x, Register.ofNat, Fin.val_ofNat, toNat_ofNibble]
  omega

@[simp] theorem y_ofNibble : y (ofNibble digit r s n) = s := by
  apply Fin.ext
  have hs := s.isLt
  have hn := n.isLt
  simp only [y, Register.ofNat, Fin.val_ofNat, toNat_ofNibble]
  omega

@[simp] theorem nibble_ofNibble : nibble (ofNibble digit r s n) = n := by
  apply Fin.ext
  have hn := n.isLt
  simp only [nibble, Nibble.ofNat, Fin.val_ofNat, toNat_ofNibble]
  omega

end

variable {w : UInt16} (digit : Fin 16)

theorem eq_ofAddress (h : family w = digit.val) :
    w = ofAddress digit (address w) := by
  apply UInt16.toNat_inj.mp
  rw [toNat_ofAddress, ← h]
  simp only [family, address, Address.ofNat, Fin.val_ofNat]
  omega

theorem eq_ofByte (h : family w = digit.val) :
    w = ofByte digit (x w) (byte w) := by
  apply UInt16.toNat_inj.mp
  have hw := w.toNat_lt
  rw [toNat_ofByte, ← h, byte, UInt8.toNat_ofNat']
  simp only [family, x, Register.ofNat, Fin.val_ofNat]
  omega

theorem eq_ofNibble (h : family w = digit.val) :
    w = ofNibble digit (x w) (y w) (nibble w) := by
  apply UInt16.toNat_inj.mp
  have hw := w.toNat_lt
  rw [toNat_ofNibble, ← h]
  simp only [family, x, y, nibble, Register.ofNat, Nibble.ofNat,
    Fin.val_ofNat]
  omega

end Word

end Chip8
