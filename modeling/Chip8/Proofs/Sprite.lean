import Chip8.Console
import Chip8.Proofs.Access
import Mathlib.Data.List.GetD
import Mathlib.Data.Nat.Bitwise
import Mathlib.Tactic.ByContra
import Mathlib.Tactic.Push

/-!
# Sprites as rotated words

Plotting the pixels of a sprite byte one beside another flips a row with one
word: the byte at the left edge of the row, turned right by the column it is
drawn at.  Drawing a sprite is one such flip for each of its rows.
-/

namespace Chip8

namespace Frame

/-- Flip the pixels of a row that a word has set. -/
def xorRow (f : Frame) (row : Fin 32) (word : BitVec 64) : Frame :=
  f.setIfInBounds row (f.get row ^^^ word)

theorem get_xorRow (f : Frame) (row other : Fin 32) (word : BitVec 64) :
    (f.xorRow row word).get other =
      if other = row then f.get other ^^^ word else f.get other := by
  change (f.setIfInBounds row (f.get row ^^^ word))[other.val] = _
  rw [Vector.getElem_setIfInBounds]
  by_cases h : other = row
  · rw [if_pos (congrArg Fin.val h.symm), if_pos h, h]
  · rw [if_neg (fun heq => h (Fin.ext heq.symm)), if_neg h]
    rfl

theorem ext_get {f g : Frame} (h : ∀ row, f.get row = g.get row) : f = g := by
  apply Vector.ext
  intro row hrow
  exact h ⟨row, hrow⟩

theorem pixel_val (f : Frame) (column : Nat) (row : Fin 32) :
    f.pixel column row.val = (f.get row).getMsbD column := by
  simp [pixel, Vector.get]

theorem pixel_xorRow (f : Frame) (row : Fin 32) (word : BitVec 64)
    (column : Nat) (r : Nat) :
    (f.xorRow row word).pixel column r =
      (f.pixel column r ^^ (decide (r = row.val) && word.getMsbD column)) := by
  by_cases hr : r < 32
  · have hpixel := pixel_val (f.xorRow row word) column ⟨r, hr⟩
    have hbefore := pixel_val f column ⟨r, hr⟩
    dsimp only at hpixel hbefore
    rw [hpixel, hbefore, get_xorRow]
    by_cases h : r = row.val
    · simp [h]
    · have hne : (⟨r, hr⟩ : Fin 32) ≠ row := fun heq => h (congrArg Fin.val heq)
      simp [h, hne]
  · have hne : r ≠ row.val := by omega
    simp [pixel, hr, hne]
/-- Turning a bit on or off flips it or leaves it alone. -/
theorem setBit_eq (word : BitVec 64) {column : Nat} (hcolumn : column < 64)
    (flipped : Bool) :
    (if word.getMsbD column ^^ flipped then
        word ||| BitVec.twoPow 64 (63 - column)
      else word &&& ~~~BitVec.twoPow 64 (63 - column)) =
      if flipped then word ^^^ BitVec.twoPow 64 (63 - column) else word := by
  apply BitVec.eq_of_getMsbD_eq
  intro c hc
  have hplace : (BitVec.twoPow 64 (63 - column)).getMsbD c =
      decide (c = column) := by
    rw [BitVec.getMsbD_twoPow, Bool.eq_iff_iff]
    simp only [Bool.and_eq_true, decide_eq_true_iff]
    omega
  by_cases hsame : c = column
  · subst hsame
    cases hbit : word.getMsbD c <;> cases flipped <;>
      simp [hbit, hplace, hc]
  · cases word.getMsbD column <;> cases flipped <;>
      simp [hplace, hsame, hc]

theorem get_put (f : Frame) (column : Nat) (row other : Fin 32) (on : Bool) :
    (f.put column row on).get other =
      if other = row then
        if on then f.get other ||| BitVec.twoPow 64 (63 - column % 64)
        else f.get other &&& ~~~BitVec.twoPow 64 (63 - column % 64)
      else f.get other := by
  change (f.set row _)[other.val] = _
  rw [Vector.getElem_set]
  by_cases h : other = row
  · rw [if_pos (congrArg Fin.val h.symm), if_pos h, h]
    rfl
  · rw [if_neg (fun heq => h (Fin.ext heq.symm)), if_neg h]
    rfl

theorem put_xor (f : Frame) (column : Nat) (row : Fin 32) (flipped : Bool) :
    f.put column row (f.pixel (column % 64) row ^^ flipped) =
      if flipped then
        f.xorRow row (BitVec.twoPow 64 (63 - column % 64))
      else f := by
  have hword := setBit_eq (f.get row) (Nat.mod_lt column (by decide)) flipped
  apply ext_get
  intro other
  rw [get_put, pixel_val]
  by_cases h : other = row
  · rw [if_pos h, h, hword, apply_ite (Vector.get · row), get_xorRow,
      if_pos rfl]
  · rw [if_neg h, apply_ite (Vector.get · other), get_xorRow, if_neg h,
      ite_self]

theorem xorRow_zero (f : Frame) (row : Fin 32) : f.xorRow row 0#64 = f := by
  apply ext_get
  intro other
  simp [get_xorRow]

theorem xorRow_xorRow (f : Frame) (row : Fin 32) (u v : BitVec 64) :
    (f.xorRow row u).xorRow row v = f.xorRow row (u ^^^ v) := by
  apply ext_get
  intro other
  simp only [get_xorRow]
  by_cases h : other = row
  · simp only [if_pos h, BitVec.xor_assoc]
  · simp only [if_neg h]

end Frame

namespace Screen

/-- A sprite byte at the left edge of a row, turned right by a column. -/
def spriteWord (column : Nat) (byte : UInt8) : BitVec 64 :=
  (byte.toBitVec.setWidth 64 <<< 56).rotateRight (column % 64)

/-- The word that values plotted one beside another flip a row with. -/
def flips (column : Nat) : List UInt8 → BitVec 64
  | [] => 0
  | value :: rest =>
    (if value.toNat % 2 = 1 then BitVec.twoPow 64 (63 - column % 64) else 0)
      ^^^ flips (column + 1) rest

/-- Where a column lies in a list of up to 64 values, counted around the
screen, its value alone decides. -/
theorem getMsbD_flips (column : Nat) (values : List UInt8)
    (hlength : values.length ≤ 64) {c : Nat} (hc : c < 64) :
    (flips column values).getMsbD c =
      decide ((values.getD ((c + 64 - column % 64) % 64) 0).toNat % 2 = 1) := by
  induction values generalizing column with
  | nil => simp [flips]
  | cons value rest ih =>
      rw [List.length_cons] at hlength
      rw [flips, BitVec.getMsbD_xor, ih (column + 1) (by omega)]
      by_cases hhere : c = column % 64
      · have hplace : (c + 64 - column % 64) % 64 = 0 := by omega
        have hnext : (c + 64 - (column + 1) % 64) % 64 = 63 := by omega
        have hbeyond : rest.getD 63 0 = 0 :=
          List.getD_eq_default _ _ (by omega)
        rw [hplace, hnext, hbeyond]
        by_cases hodd : value.toNat % 2 = 1
        · simp [hodd, BitVec.getMsbD_twoPow]
          omega
        · simp [hodd]
      · have hplace : (c + 64 - column % 64) % 64 =
            (c + 64 - (column + 1) % 64) % 64 + 1 := by omega
        have hmiss :
            (BitVec.twoPow 64 (63 - column % 64)).getMsbD c = false := by
          rw [BitVec.getMsbD_twoPow]
          simp
          omega
        rw [hplace, List.getD_cons_succ]
        by_cases hodd : value.toNat % 2 = 1
        · simp [hodd, hmiss]
        · simp [hodd]

theorem getD_spritePixels_odd (byte : UInt8) (k : Nat) :
    decide (((spritePixels byte).getD k 0).toNat % 2 = 1) =
      byte.toBitVec.getMsbD k := by
  by_cases hk : k < 8
  · have hpixel (place : Nat) :
        decide ((UInt8.ofNat (byte.toNat >>> place % 2)).toNat % 2 = 1) =
          byte.toBitVec.getLsbD place := by
      rw [BitVec.getLsbD, Nat.testBit_eq_decide_div_mod_eq,
        UInt8.toNat_ofNat', Nat.shiftRight_eq_div_pow]
      have hsmall : byte.toNat / 2 ^ place % 2 % 2 ^ 8 % 2 =
          byte.toNat / 2 ^ place % 2 := by omega
      rw [hsmall]
      rfl
    rw [BitVec.getMsbD_eq_getLsbD, decide_eq_true hk, Bool.true_and,
      ← hpixel]
    match k, hk with
    | 0, _ | 1, _ | 2, _ | 3, _ | 4, _ | 5, _ | 6, _ | 7, _ => rfl
  · have hbeyond : (spritePixels byte).getD k 0 = 0 := by
      apply List.getD_eq_default
      simpa [spritePixels] using hk
    rw [hbeyond, BitVec.getMsbD_eq_getLsbD, decide_eq_false hk]
    rfl

/-- Plotting the pixels of a byte is one rotated word. -/
theorem flips_spritePixels (column : Nat) (byte : UInt8) :
    flips column (spritePixels byte) = spriteWord column byte := by
  apply BitVec.eq_of_getMsbD_eq
  intro c hc
  have hlength : (spritePixels byte).length ≤ 64 := by simp [spritePixels]
  rw [getMsbD_flips column _ hlength hc, getD_spritePixels_odd, spriteWord,
    BitVec.getMsbD_rotateRight]
  have hword (k : Nat) :
      (byte.toBitVec.setWidth 64 <<< 56).getMsbD k =
        byte.toBitVec.getMsbD k := by
    rw [BitVec.getMsbD_shiftLeft, BitVec.getMsbD_setWidth]
    have hplace : k + 56 + 8 - 64 = k := by omega
    simp [hplace]
  simp only [hword, hc, decide_true, Bool.true_and]
  split
  · congr 1
    omega
  · congr 1
    omega

theorem spriteWord_eq_zero_iff {column : Nat} {byte : UInt8} :
    spriteWord column byte = 0 ↔ byte = 0 := by
  constructor
  · intro h
    apply UInt8.toBitVec_inj.mp
    apply BitVec.eq_of_getMsbD_eq
    intro k hk
    have hbit := getMsbD_flips column (spritePixels byte)
      (by simp [spritePixels]) (Nat.mod_lt (column + k) (by decide : 0 < 64))
    have hplace : ((column + k) % 64 + 64 - column % 64) % 64 = k := by omega
    rw [flips_spritePixels, h, hplace, getD_spritePixels_odd] at hbit
    simpa using hbit.symm
  · rintro rfl
    apply BitVec.eq_of_getMsbD_eq
    simp [spriteWord, BitVec.getMsbD_rotateRight]

/-! ## Plotting a row -/

/-- Whether some value of a list is odd. -/
def anyOdd (values : List UInt8) : Bool :=
  values.any fun value => value.toNat % 2 = 1

/-- The lowest bit of a value is all that is plotted of it. -/
theorem xor_and_one (on : Bool) (value : UInt8) :
    (UInt8.ofNat on.toNat ^^^ value) &&& 1 =
      UInt8.ofNat (on ^^ decide (value.toNat % 2 = 1)).toNat := by
  apply UInt8.toNat_inj.mp
  have hone : (1 : UInt8).toNat = 1 := rfl
  rw [UInt8.toNat_and, UInt8.toNat_xor, hone, Nat.and_one_is_mod,
    Nat.xor_mod_two_eq]
  rcases Nat.mod_two_eq_zero_or_one value.toNat with h | h
  · cases on with
    | false => simp [h]
    | true => simp [h]; omega
  · cases on with
    | false => simp [h]
    | true => simp [h]; omega

/-- Plotting an odd value flips the pixel it is aimed at, and plotting an even
one does nothing. -/
theorem plot_eq (s : Screen) (column : Nat) (row : Fin 32)
    (value : UInt8) :
    s.plot column row value =
      if value.toNat % 2 = 1 then
        (⟨s.frame.xorRow row (BitVec.twoPow 64 (63 - column % 64)), true⟩,
          true)
      else (s, false) := by
  have hput := s.frame.put_xor column row (decide (value.toNat % 2 = 1))
  have hon (on : Bool) : (UInt8.ofNat on.toNat == 1) = on := by
    cases on <;> rfl
  have hchanged (on flipped : Bool) :
      (UInt8.ofNat (on ^^ flipped).toNat != UInt8.ofNat on.toNat) =
        flipped := by
    cases on <;> cases flipped <;> rfl
  simp only [plot, Frame.value, row.isLt, dif_pos, xor_and_one, hon, hchanged,
    Fin.eta, hput]
  by_cases hodd : value.toNat % 2 = 1
  · simp [hodd]
  · simp [hodd]

theorem plot_of_le (s : Screen) (column : Nat) {row : Nat}
    (h : 32 ≤ row) (value : UInt8) : s.plot column row value = (s, false) :=
  dif_neg (Nat.not_lt.mpr h)
/-- Plotting values in a row of the screen flips that row with one word, and
reports and marks whether any value was odd. -/
theorem plotAll_eq (s : Screen) (column : Nat) (row : Fin 32)
    (values : List UInt8) :
    s.plotAll column row values =
      (⟨s.frame.xorRow row (flips column values),
          s.dirty || anyOdd values⟩, anyOdd values) := by
  induction values generalizing s column with
  | nil => simp [plotAll, flips, anyOdd, Frame.xorRow_zero]
  | cons value rest ih =>
      by_cases hodd : value.toNat % 2 = 1
      · simp [plotAll, plot_eq, ih, flips, hodd, anyOdd, Frame.xorRow_xorRow]
      · simp [plotAll, plot_eq, ih, flips, hodd, anyOdd]

theorem anyOdd_spritePixels (byte : UInt8) :
    anyOdd (spritePixels byte) = decide (byte ≠ 0) := by
  by_cases hzero : byte = 0
  · subst hzero
    rfl
  · have hbit : ∃ k < 8, byte.toBitVec.getMsbD k = true := by
      by_contra hnone
      push Not at hnone
      apply hzero
      apply UInt8.toBitVec_inj.mp
      apply BitVec.eq_of_getMsbD_eq
      intro k hk
      simpa using hnone k hk
    obtain ⟨k, hk, hset⟩ := hbit
    have hlength : k < (spritePixels byte).length := by
      simpa [spritePixels] using hk
    rw [← getD_spritePixels_odd, List.getD_eq_getElem _ _ hlength] at hset
    rw [decide_eq_true hzero, anyOdd, List.any_eq_true]
    exact ⟨_, List.getElem_mem hlength, hset⟩

theorem drawByte_eq (s : Screen) (column row : Nat) (byte : UInt8) :
    s.drawByte column row byte =
      (⟨s.frame.xorRow (Fin.ofNat 32 row) (spriteWord column byte),
          s.dirty || decide (byte ≠ 0)⟩, decide (byte ≠ 0)) := by
  rw [← flips_spritePixels, ← anyOdd_spritePixels]
  exact s.plotAll_eq column (Fin.ofNat 32 row) (spritePixels byte)

end Screen

/-! ## Drawing rows one below another -/

namespace Frame

/-- Flip one row below another with the words of bytes, counting rows around
the screen. -/
def xorBytes (column : Nat) : (row : Nat) → List UInt8 → Frame → Frame
  | _, [], f => f
  | row, byte :: rest, f =>
    xorBytes column (row + 1) rest
      (f.xorRow (Fin.ofNat 32 row) (Screen.spriteWord column byte))

/-- Rows that no byte is drawn in stay as they are. -/
theorem get_xorBytes_of_ne {column row : Nat} {bytes : List UInt8}
    {f : Frame} {other : Fin 32}
    (h : ∀ k < bytes.length, other ≠ Fin.ofNat 32 (row + k)) :
    (f.xorBytes column row bytes).get other = f.get other := by
  induction bytes generalizing row f with
  | nil => rfl
  | cons byte rest ih =>
      rw [List.length_cons] at h
      have hfirst : other ≠ Fin.ofNat 32 row := h 0 (by omega)
      rw [xorBytes, ih, get_xorRow, if_neg hfirst]
      intro k hk
      have hnext := h (k + 1) (by omega)
      rwa [← Nat.add_assoc, Nat.add_right_comm] at hnext

/-- As there are no more bytes than rows, each row that a byte is drawn in is
flipped with the word of that byte alone. -/
theorem get_xorBytes (f : Frame) (column : Nat) {row : Nat}
    {bytes : List UInt8} (hlength : bytes.length ≤ 32)
    {k : Nat} (hk : k < bytes.length)
    {other : Fin 32} (hother : other = Fin.ofNat 32 (row + k)) :
    (f.xorBytes column row bytes).get other =
      f.get other ^^^ Screen.spriteWord column bytes[k] := by
  induction bytes generalizing row f k with
  | nil => cases hk
  | cons byte rest ih =>
      rw [List.length_cons] at hlength hk
      have hval : other.val = (row + k) % 32 := congrArg Fin.val hother
      cases k with
      | zero =>
          have hothers : ∀ j < rest.length,
              other ≠ Fin.ofNat 32 (row + 1 + j) := by
            intro j hj heq
            have hnext := congrArg Fin.val heq
            simp only [Fin.ofNat] at hnext
            omega
          have hrow : Fin.ofNat 32 row = other := hother.symm
          rw [xorBytes, get_xorBytes_of_ne hothers, hrow, get_xorRow,
            if_pos rfl, List.getElem_cons_zero]
      | succ k =>
          have hne : other ≠ Fin.ofNat 32 row := by
            intro heq
            have hfirst := congrArg Fin.val heq
            simp only [Fin.ofNat] at hfirst
            omega
          have hnext : other = Fin.ofNat 32 (row + 1 + k) := by
            rw [hother]
            congr 1
            omega
          rw [xorBytes, List.getElem_cons_succ,
            ih _ (by omega) (by omega) hnext, get_xorRow, if_neg hne]

theorem xorBytes_eq_self {column row : Nat} {bytes : List UInt8} {f : Frame}
    (h : ∀ byte ∈ bytes, byte = 0) : f.xorBytes column row bytes = f := by
  induction bytes generalizing row f with
  | nil => rfl
  | cons byte rest ih =>
      rw [List.forall_mem_cons] at h
      rw [xorBytes, Screen.spriteWord_eq_zero_iff.mpr h.1]
      exact (ih h.2).trans (f.xorRow_zero _)

/-- Drawing up to 32 bytes changes the frame unless all of them are zero. -/
theorem xorBytes_ne_iff {column row : Nat} {bytes : List UInt8} {f : Frame}
    (hlength : bytes.length ≤ 32) :
    f.xorBytes column row bytes ≠ f ↔ ∃ byte ∈ bytes, byte ≠ 0 := by
  constructor
  · intro hne
    by_contra hall
    push Not at hall
    exact hne (xorBytes_eq_self hall)
  · rintro ⟨byte, hmem, hbyte⟩ heq
    obtain ⟨k, hk, rfl⟩ := List.getElem_of_mem hmem
    let r := Fin.ofNat 32 (row + k)
    let word := Screen.spriteWord column bytes[k]
    have hrow : f.get r = f.get r ^^^ word := by
      rw [← f.get_xorBytes column hlength hk rfl, heq]
    have hzero : word = 0#64 := by
      calc
        word = (f.get r ^^^ f.get r) ^^^ word := by simp
        _ = f.get r ^^^ (f.get r ^^^ word) := BitVec.xor_assoc _ _ _
        _ = 0#64 := by rw [← hrow, BitVec.xor_self]
    exact hbyte (Screen.spriteWord_eq_zero_iff.mp hzero)

end Frame

namespace Screen

/-- Drawing a sprite flips one row for each of its bytes in memory, and is
stopped by the first byte outside memory. -/
theorem drawSprite_eq (memory : Memory) (column rows row address : Nat)
    (s : Screen) :
    s.drawSprite memory column rows row address =
      let bytes := memory.block address (min rows (Memory.size - address))
      let flipped := bytes.any (· ≠ 0)
      ⟨(⟨s.frame.xorBytes column row bytes, s.dirty || flipped⟩, flipped),
        if rows ≤ Memory.size - address then none
        else some (.outsideMemory (max address Memory.size))⟩ := by
  induction rows generalizing row address s with
  | zero => simp [drawSprite, Memory.block, Frame.xorBytes, Outcome.ok]
  | succ rows ih =>
      by_cases hfirst : address < Memory.size
      · have hcount : min (rows + 1) (Memory.size - address) =
            min rows (Memory.size - (address + 1)) + 1 := by omega
        have hmax : max (address + 1) Memory.size =
            max address Memory.size := by omega
        have hrest : rows ≤ Memory.size - (address + 1) ↔
            rows + 1 ≤ Memory.size - address := by omega
        simp only [drawSprite, Memory.read_eq, if_pos hfirst, drawByte_eq, ih,
          hcount, Memory.block_succ, Frame.xorBytes, List.any_cons,
          Bool.or_assoc, Outcome.map, hmax, hrest]
      · have hcount : min (rows + 1) (Memory.size - address) = 0 := by omega
        have hmax : max address Memory.size = address := by omega
        have hall : ¬rows + 1 ≤ Memory.size - address := by omega
        simp only [drawSprite, Memory.read_eq, if_neg hfirst, if_neg hall,
          hcount, hmax]
        simp [Memory.block, Frame.xorBytes, Outcome.fail]

end Screen

namespace Console

/-- A console with a sprite drawn at `Vx` and `Vy`, read from where the index
register points. -/
structure Shows (before after : Console) (x y : Register) (rows : Nat) :
    Prop where
  flipped : ∀ k < rows,
    let row := Fin.ofNat 32 ((before.machine.reg y).toNat + k)
    after.screen.frame.get row = before.screen.frame.get row ^^^
      Screen.spriteWord (before.machine.reg x).toNat
        (before.machine.memory.byteAt (before.machine.index.toNat + k))
  kept : ∀ row : Fin 32,
    (∀ k < rows, row ≠ Fin.ofNat 32 ((before.machine.reg y).toNat + k)) →
      after.screen.frame.get row = before.screen.frame.get row
  machine : after.machine = before.machine.setReg .flag
    (if after.screen.frame ≠ before.screen.frame then 1 else 0)
  changed : after.screen.frame ≠ before.screen.frame ↔
    ∃ k < rows,
      before.machine.memory.byteAt (before.machine.index.toNat + k) ≠ 0
  dirty : after.screen.dirty =
    (before.screen.dirty || decide (after.machine.reg .flag = 1))
  latch : after.latch = before.latch
  random : after.random = before.random

theorem draw_of_fits (c : Console) (x y : Register) {rows : Nibble}
    (hfit : rows.val ≤ Memory.size - c.machine.index.toNat) :
    let m := c.machine
    let frame := c.screen.frame.xorBytes (m.reg x).toNat (m.reg y).toNat
      (m.memory.block m.index.toNat rows)
    c.draw x y rows = .ok
      { c with
        screen := ⟨frame,
          c.screen.dirty || decide (frame ≠ c.screen.frame)⟩
        machine := m.setReg .flag
          (if frame ≠ c.screen.frame then 1 else 0) } := by
  intro m frame
  let bytes := m.memory.block m.index.toNat rows
  have hfew : bytes.length ≤ 32 := by
    simp only [bytes, Memory.block, List.length_map, List.length_range]
    omega
  have hany : bytes.any (· ≠ 0) = decide (frame ≠ c.screen.frame) := by
    rw [Bool.eq_iff_iff, decide_eq_true_iff, Frame.xorBytes_ne_iff hfew]
    simp
  have hflag : UInt8.ofNat (bytes.any (· ≠ 0)).toNat =
      if frame ≠ c.screen.frame then 1 else 0 := by
    rw [hany]
    by_cases hsame : frame = c.screen.frame
    · simp [hsame]
    · simp [hsame]
  rw [← hany, ← hflag]
  simp only [draw, Screen.drawSprite_eq, if_pos hfit,
    Nat.min_eq_left hfit]
  rfl

/-- Drawing a sprite that lies in memory flips each of its rows with one
rotated word. -/
theorem draw_shows_rotated_words (c : Console) (x y : Register)
    (rows : Nibble)
    (hfit : rows.val = 0 ∨
      c.machine.index.toNat + rows.val ≤ Memory.size) :
    ∃ after, c.execute (.draw x y rows) = .ok after ∧
      c.Shows after x y rows := by
  have hroom : rows.val ≤ Memory.size - c.machine.index.toNat := by omega
  refine ⟨_, c.draw_of_fits x y hroom, ?_⟩
  let bytes := c.machine.memory.block c.machine.index.toNat rows
  have hlength : bytes.length = rows.val := by
    simp [bytes, Memory.block]
  have hfew : bytes.length ≤ 32 := by omega
  constructor
  · intro k hk row
    have hplace : k < bytes.length := hlength ▸ hk
    have hbyte : bytes[k] = c.machine.memory.byteAt
        (c.machine.index.toNat + k) := by
      simp [bytes, Memory.block]
    rw [← hbyte]
    exact Frame.get_xorBytes _ _ hfew _ rfl
  · intro row hrow
    apply Frame.get_xorBytes_of_ne
    intro k hk
    exact hrow k (hlength ▸ hk)
  · rfl
  · rw [Frame.xorBytes_ne_iff hfew]
    simp [bytes, Memory.block]
  · rw [Machine.reg_setReg, if_pos rfl]
    dsimp only
    congr 1
    rw [decide_eq_decide]
    split
    next hne => simpa using hne
    next heq => simpa using heq
  · rfl
  · rfl

/-- The byte of the last cell, drawn across the right edge at the column and
row in `VF`. -/
theorem draw_shows_last_cell :
    let m := { Machine.blank.setReg .flag 60 with
      memory := Memory.blank.set 4095 0x81
      index := 4095 }
    let c : Console :=
      ⟨m, .blank, fun _ => none, .ofCells fun _ => 0⟩
    ((1 : Nibble).val = 0 ∨ c.machine.index.toNat + (1 : Nibble).val ≤
        Memory.size) ∧
      ∃ after, c.execute (.draw .flag .flag 1) = .ok after ∧
        after.screen.frame.get 28 = 0x1000000000000008#64 ∧
        after.machine.reg .flag = 1 := by
  intro m c
  have hfit : (1 : Nibble).val = 0 ∨ c.machine.index.toNat +
      (1 : Nibble).val ≤ Memory.size := by decide +kernel
  obtain ⟨after, hdraw, hshows⟩ :=
    c.draw_shows_rotated_words .flag .flag 1 hfit
  refine ⟨hfit, after, hdraw, ?_, ?_⟩
  · have hrow := hshows.flipped 0 (by decide)
    have hword : Screen.spriteWord (c.machine.reg .flag).toNat
        (c.machine.memory.byteAt (c.machine.index.toNat + 0)) =
          0x1000000000000008#64 := by decide +kernel
    have hplace : Fin.ofNat 32 ((c.machine.reg .flag).toNat + 0) = 28 := by
      decide +kernel
    have hblank : c.screen.frame.get 28 = 0#64 := by decide +kernel
    simp only [hword, hplace] at hrow
    rw [hblank, BitVec.zero_xor] at hrow
    exact hrow
  · have hne := hshows.changed.mpr ⟨0, by decide, by decide +kernel⟩
    rw [hshows.machine, if_pos hne, Machine.reg_setReg, if_pos rfl]

end Console

end Chip8
