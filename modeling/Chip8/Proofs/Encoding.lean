import Chip8.Proofs.Dispatching

/-!
# The words of an instruction

Some patterns of words have a nibble that their instruction does not use, so
that up to sixteen words stand for the same instruction.  All the others of its
nibbles can be told from the instruction: putting its word together with zero
in the unused nibble gives what is left of any word that stands for it once
that nibble has been cleared.
-/

namespace Chip8

namespace Word

/-- A word with zero in the nibble of a weight. -/
def clearNibble (weight : Nat) (w : UInt16) : UInt16 :=
  UInt16.ofNat
    (w.toNat / (16 * weight) * (16 * weight) + w.toNat % weight)

/-- A word with zero in the nibble that its pattern does not use, if there is
one: the second nibble of `0_E0` and `0_EE`, the third one of `8x_6` and `8x_E`,
and the fourth one of `5xy_` and `9xy_`. -/
def essential (w : UInt16) : UInt16 :=
  match family w with
  | 0x0 =>
    if byte w = 0xE0 ∨ byte w = 0xEE then clearNibble 256 w else w
  | 0x5 | 0x9 => clearNibble 1 w
  | 0x8 =>
    if (nibble w).val = 0x6 ∨ (nibble w).val = 0xE then clearNibble 16 w
    else w
  | _ => w

section

variable (digit : Fin 16) (r s : Register) (b : UInt8) (n : Nibble)

theorem clearNibble_ofByte :
    clearNibble 256 (ofByte digit r b) = ofByte digit 0 b := by
  have hzero : (0 : Register).val = 0 := rfl
  have hr := r.isLt
  have hb := b.toNat_lt
  rw [clearNibble, toNat_ofByte, ofByte, hzero]
  exact congrArg UInt16.ofNat (by omega)

theorem clearNibble_ofNibble_third :
    clearNibble 16 (ofNibble digit r s n) = ofNibble digit r 0 n := by
  have hzero : (0 : Register).val = 0 := rfl
  have hs := s.isLt
  have hn := n.isLt
  rw [clearNibble, toNat_ofNibble, ofNibble, hzero]
  exact congrArg UInt16.ofNat (by omega)

theorem clearNibble_ofNibble_fourth :
    clearNibble 1 (ofNibble digit r s n) = ofNibble digit r s 0 := by
  have hzero : (0 : Nibble).val = 0 := rfl
  have hn := n.isLt
  rw [clearNibble, toNat_ofNibble, ofNibble, hzero]
  exact congrArg UInt16.ofNat (by omega)

end

end Word

/-- The word that a skip on a condition is written as. -/
def Condition.encode : Condition → UInt16
  | .isByte x byte => Word.ofByte (Nibble.ofNat 0x3) x byte
  | .isNotByte x byte => Word.ofByte (Nibble.ofNat 0x4) x byte
  | .same x y => Word.ofNibble (Nibble.ofNat 0x5) x y (Nibble.ofNat 0)
  | .differ x y => Word.ofNibble (Nibble.ofNat 0x9) x y (Nibble.ofNat 0)
  | .keyDown x => Word.ofByte (Nibble.ofNat 0xE) x 0x9E
  | .keyUp x => Word.ofByte (Nibble.ofNat 0xE) x 0xA1

/-- The nibble that tells a combination from the others. -/
def Combination.nibble : Combination → Nibble
  | .copy => Nibble.ofNat 0x0
  | .or => Nibble.ofNat 0x1
  | .and => Nibble.ofNat 0x2
  | .xor => Nibble.ofNat 0x3
  | .add => Nibble.ofNat 0x4
  | .subtract => Nibble.ofNat 0x5
  | .subtractFrom => Nibble.ofNat 0x7

/-- The nibble that tells a shift from the combinations. -/
def Shift.nibble : Shift → Nibble
  | .right => Nibble.ofNat 0x6
  | .left => Nibble.ofNat 0xE

namespace Instruction

/-- The word that an instruction is written as, with zero in the nibble that it
does not use. -/
def encode : Instruction → UInt16
  | .clear => Word.ofByte (Nibble.ofNat 0x0) (Register.ofNat 0) 0xE0
  | .ret => Word.ofByte (Nibble.ofNat 0x0) (Register.ofNat 0) 0xEE
  | .jump target => Word.ofAddress (Nibble.ofNat 0x1) target
  | .call target => Word.ofAddress (Nibble.ofNat 0x2) target
  | .skip condition => condition.encode
  | .setByte x byte => Word.ofByte (Nibble.ofNat 0x6) x byte
  | .addByte x byte => Word.ofByte (Nibble.ofNat 0x7) x byte
  | .combine op x y => Word.ofNibble (Nibble.ofNat 0x8) x y op.nibble
  | .shift direction x =>
    Word.ofNibble (Nibble.ofNat 0x8) x (Register.ofNat 0) direction.nibble
  | .setIndex target => Word.ofAddress (Nibble.ofNat 0xA) target
  | .jumpOffset target => Word.ofAddress (Nibble.ofNat 0xB) target
  | .random x mask => Word.ofByte (Nibble.ofNat 0xC) x mask
  | .draw x y rows => Word.ofNibble (Nibble.ofNat 0xD) x y rows
  | .getDelay x => Word.ofByte (Nibble.ofNat 0xF) x 0x07
  | .waitKey x => Word.ofByte (Nibble.ofNat 0xF) x 0x0A
  | .setDelay x => Word.ofByte (Nibble.ofNat 0xF) x 0x15
  | .setSound x => Word.ofByte (Nibble.ofNat 0xF) x 0x18
  | .addIndex x => Word.ofByte (Nibble.ofNat 0xF) x 0x1E
  | .pointGlyph x => Word.ofByte (Nibble.ofNat 0xF) x 0x29
  | .storeDigits x => Word.ofByte (Nibble.ofNat 0xF) x 0x33
  | .storeRegisters x => Word.ofByte (Nibble.ofNat 0xF) x 0x55
  | .fillRegisters x => Word.ofByte (Nibble.ofNat 0xF) x 0x65

theorem decode_encode (i : Instruction) : decode i.encode = some i := by
  cases i with
  | skip condition => cases condition with
    | _ =>
        simp only [encode, Condition.encode, decode, Word.family_ofByte,
          Word.x_ofByte, Word.byte_ofByte, Word.family_ofNibble,
          Word.x_ofNibble, Word.y_ofNibble]
        rfl
  | combine op x y => cases op with
    | _ =>
        simp only [encode, decode, Word.family_ofNibble, Word.x_ofNibble,
          Word.y_ofNibble, Word.nibble_ofNibble]
        rfl
  | shift direction x => cases direction with
    | _ =>
        simp only [encode, decode, Word.family_ofNibble, Word.x_ofNibble,
          Word.nibble_ofNibble]
        rfl
  | _ =>
      simp only [encode, decode, Word.family_ofAddress, Word.address_ofAddress,
        Word.family_ofByte, Word.x_ofByte, Word.byte_ofByte,
        Word.family_ofNibble, Word.x_ofNibble, Word.y_ofNibble,
        Word.nibble_ofNibble]
      rfl

theorem encode_injective : Function.Injective encode := by
  have hback : decode ∘ encode = some := funext decode_encode
  apply Function.Injective.of_comp (f := decode)
  rw [hback]
  exact fun _ _ => Option.some.inj

end Instruction

/-- A unit that tells what it has been asked for last. -/
def ControlUnit.reporter : ControlUnit (Option Instruction) :=
  .ofAct fun i _ => .ok (some i)

namespace Instruction

/-- Clearing the unused nibble of a word leaves the word that its instruction
is written as. -/
theorem essential_of_decode {w : UInt16} {i : Instruction}
    (h : decode w = some i) : Word.essential w = i.encode := by
  -- The patterns are told apart by the operation that they name, and that of
  -- the reporter shows the instruction.
  have hnames := ControlUnit.names_of_decode (u := .reporter) h
  have hreport : (ControlUnit.reporter.perform i none).state = some i := by
    rw [ControlUnit.reporter, ControlUnit.perform_ofAct]
    rfl
  generalize ControlUnit.reporter.perform i = operation at hnames hreport
  cases hnames with
  | _ =>
      cases hreport
      simp only [Word.essential, Word.family_ofAddress, Word.family_ofByte,
        Word.byte_ofByte, Word.family_ofNibble, Word.nibble_ofNibble,
        Word.clearNibble_ofByte, Word.clearNibble_ofNibble_third,
        Word.clearNibble_ofNibble_fourth]
      rfl

/-- Words stand for the same instruction if they differ in an unused nibble
alone. -/
theorem eq_iff_essential_eq {v w : UInt16} {i j : Instruction}
    (hv : decode v = some i) (hw : decode w = some j) :
    i = j ↔ Word.essential v = Word.essential w := by
  rw [essential_of_decode hv, essential_of_decode hw, encode_injective.eq_iff]

end Instruction

end Chip8
