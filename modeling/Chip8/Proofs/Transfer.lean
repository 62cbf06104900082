import Chip8.Proofs.Access
import Chip8.Proofs.Effect

/-!
# Moving bytes between registers and memory

Storing registers and filling them again go over the same cells, from the one
the index register points at up to and including the one for `Vx`, and neither
moves the index register.  So each undoes the other.  The digits of a byte are
stored the same way, and filling the first three registers reads them back.
-/

namespace Chip8

theorem decimalDigits_account (b : UInt8) :
    (b / 100).toNat ≤ 9 ∧ (b / 10 % 10).toNat ≤ 9 ∧ (b % 10).toNat ≤ 9 ∧
      100 * (b / 100).toNat + 10 * (b / 10 % 10).toNat + (b % 10).toNat =
        b.toNat := by
  have hb := b.toNat_lt
  have hhundreds : (b / 100).toNat = b.toNat / 100 := UInt8.toNat_div b 100
  have htens : (b / 10 % 10).toNat = b.toNat / 10 % 10 := by
    rw [UInt8.toNat_mod, UInt8.toNat_div]
    rfl
  have hones : (b % 10).toNat = b.toNat % 10 := UInt8.toNat_mod b 10
  omega

namespace Machine

variable {m : Machine} {x : Register}

theorem getD_regsThrough (m : Machine) {x y : Register} (h : y ≤ x) :
    (m.regsThrough x).getD y.val 0 = m.reg y := by
  have hthrough : ∀ x y : Register, y ≤ x → x.through[y.val]? = some y := by
    decide
  rw [regsThrough, List.getD_eq_getElem?_getD, List.getElem?_map,
    hthrough x y h]
  rfl

/-- A block that fits shows in its cells, and nothing else changes. -/
theorem storeAtIndex_of_fits {data : List UInt8}
    (h : m.index.toNat + data.length ≤ Memory.size) :
    ∃ stored, m.storeAtIndex data = .ok stored ∧
      stored = { m with memory := stored.memory } ∧
      (∀ k < data.length,
        stored.memory.byteAt (m.index.toNat + k) = data.getD k 0) ∧
      ∀ address,
        address < m.index.toNat ∨ m.index.toNat + data.length ≤ address →
        stored.memory.byteAt address = m.memory.byteAt address := by
  refine ⟨{ m with memory := m.memory.put m.index.toNat data }, ?_, rfl, ?_,
    ?_⟩
  · exact storeAtIndex_of_le h
  · intro k hk
    rw [Memory.byteAt_put, if_pos (by omega), Nat.add_sub_cancel_left]
  · intro address houtside
    rw [Memory.byteAt_put, if_neg (by omega)]

theorem storeRegisters_of_fits
    (h : m.index.toNat + x.val + 1 ≤ Memory.size) :
    ∃ stored, m.storeAtIndex (m.regsThrough x) = .ok stored ∧
      stored = { m with memory := stored.memory } ∧
      (∀ y ≤ x, stored.memory.byteAt (m.index.toNat + y.val) = m.reg y) ∧
      ∀ address,
        address < m.index.toNat ∨ m.index.toNat + x.val < address →
        stored.memory.byteAt address = m.memory.byteAt address := by
  have hlength := m.length_regsThrough x
  have hfits : m.index.toNat + (m.regsThrough x).length ≤ Memory.size := by
    omega
  obtain ⟨stored, hstored, hframe, hinside, houtside⟩ :=
    storeAtIndex_of_fits hfits
  refine ⟨stored, hstored, hframe, ?_, ?_⟩
  · intro y hy
    rw [hinside y.val (hlength ▸ Nat.lt_succ_of_le hy), m.getD_regsThrough hy]
  · intro address houter
    exact houtside address (by omega)

/-- The registers up to `Vx` get the bytes of their cells, and nothing else
changes. -/
theorem fillRegisters_of_fits
    (h : m.index.toNat + x.val + 1 ≤ Memory.size) :
    ∃ filled, m.fillRegisters x = .ok filled ∧
      filled = { m with v := filled.v } ∧
      ∀ y, filled.reg y =
        if y ≤ x then m.memory.byteAt (m.index.toNat + y.val)
        else m.reg y := by
  have hfits : x.val + 1 ≤ Memory.size - m.index.toNat := by omega
  refine ⟨m.setRegs (m.memory.block m.index.toNat (x.val + 1)), ?_, rfl, ?_⟩
  · simp only [fillRegisters, Memory.readBlock_eq, if_pos hfits]
  · intro y
    rw [reg_setRegs, List.getD_eq_getElem?_getD]
    split
    next hle =>
      have hlt : y.val < x.val + 1 := Nat.lt_succ_of_le hle
      simp [Memory.block, hlt]
    next hgt =>
      have hbeyond :
          (m.memory.block m.index.toNat (x.val + 1)).length ≤ y.val := by
        rw [Memory.length_block]
        exact Nat.lt_of_not_le hgt
      rw [List.getElem?_eq_none hbeyond]
      rfl

/-- Registers that hold the bytes of their cells are stored without a
change. -/
theorem storeAtIndex_regsThrough
    (h : m.index.toNat + x.val + 1 ≤ Memory.size)
    (hsame : ∀ y ≤ x,
      m.reg y = m.memory.byteAt (m.index.toNat + y.val)) :
    m.storeAtIndex (m.regsThrough x) = .ok m := by
  obtain ⟨stored, hstored, hframe, hinside, houtside⟩ :=
    storeRegisters_of_fits h
  have hmemory : stored.memory = m.memory := by
    apply Memory.ext_byteAt
    intro address
    by_cases hcovered :
        m.index.toNat ≤ address ∧ address ≤ m.index.toNat + x.val
    · have hoffset : address - m.index.toNat ≤ x.val := by omega
      let y : Register :=
        ⟨address - m.index.toNat, Nat.lt_of_le_of_lt hoffset x.isLt⟩
      have hplace : m.index.toNat + y.val = address :=
        Nat.add_sub_cancel' hcovered.1
      rw [← hplace, hinside y hoffset, hsame y hoffset]
    · exact houtside address (by omega)
  rw [hstored, hframe, hmemory]

end Machine

namespace Console

variable {c : Console} {x : Register}

/-- Registers that were stored are filled again, whatever they hold by then. -/
theorem fill_after_store {stored : Machine} {later : Console}
    (h : c.machine.index.toNat + x.val + 1 ≤ Memory.size)
    (hindex : later.machine.index = c.machine.index)
    (hcells : ∀ y ≤ x,
      stored.memory.byteAt (c.machine.index.toNat + y.val) = c.machine.reg y)
    (hkept : ∀ y ≤ x,
      later.machine.memory.byteAt (c.machine.index.toNat + y.val) =
        stored.memory.byteAt (c.machine.index.toNat + y.val)) :
    ∃ filled : Machine,
      later.execute (.fillRegisters x) = .ok (later.withMachine filled) ∧
      filled = { later.machine with v := filled.v } ∧
      ∀ y, filled.reg y =
        if y ≤ x then c.machine.reg y else later.machine.reg y := by
  rw [← hindex] at h
  obtain ⟨filled, hfilled, hframe, hregs⟩ := Machine.fillRegisters_of_fits h
  refine ⟨filled, onMachine_of_ok (·.fillRegisters x) hfilled, hframe, ?_⟩
  intro y
  rw [hregs, hindex]
  split
  next hy => exact (hkept y hy).trans (hcells y hy)
  next => rfl

theorem store_after_fill
    (h : c.machine.index.toNat + x.val + 1 ≤ Memory.size) :
    ∃ filled : Machine,
      c.execute (.fillRegisters x) = .ok (c.withMachine filled) ∧
      filled = { c.machine with v := filled.v } ∧
      (c.withMachine filled).execute (.storeRegisters x) =
        .ok (c.withMachine filled) := by
  obtain ⟨filled, hfilled, hframe, hregs⟩ := Machine.fillRegisters_of_fits h
  have hindex : filled.index = c.machine.index := by rw [hframe]
  have hmemory : filled.memory = c.machine.memory := by rw [hframe]
  refine ⟨filled, onMachine_of_ok (·.fillRegisters x) hfilled, hframe,
    onMachine_of_ok (fun m => m.storeAtIndex (m.regsThrough x)) ?_⟩
  apply Machine.storeAtIndex_regsThrough
  · rwa [withMachine, hindex]
  · intro y hy
    rw [withMachine, hregs, if_pos hy, hindex, hmemory]

/-- The digits of a byte are stored in three cells and can be read from
there. -/
theorem fill_after_digits
    (h : c.machine.index.toNat + 3 ≤ Memory.size) :
    ∃ (stored filled : Machine) (hundreds tens ones : UInt8),
      hundreds.toNat ≤ 9 ∧ tens.toNat ≤ 9 ∧ ones.toNat ≤ 9 ∧
      100 * hundreds.toNat + 10 * tens.toNat + ones.toNat =
        (c.machine.reg x).toNat ∧
      c.execute (.storeDigits x) = .ok (c.withMachine stored) ∧
      stored = { c.machine with memory := stored.memory } ∧
      stored.memory.block c.machine.index.toNat 3 =
        [hundreds, tens, ones] ∧
      (∀ address,
        address < c.machine.index.toNat ∨
          c.machine.index.toNat + 3 ≤ address →
        stored.memory.byteAt address = c.machine.memory.byteAt address) ∧
      (c.withMachine stored).execute (.fillRegisters 2) =
        .ok (c.withMachine filled) ∧
      filled = { stored with v := filled.v } ∧
      filled.reg 0 = hundreds ∧ filled.reg 1 = tens ∧
      filled.reg 2 = ones := by
  let digits := decimalDigits (c.machine.reg x)
  obtain ⟨hhundreds, htens, hones, hsum⟩ :=
    decimalDigits_account (c.machine.reg x)
  have hfits : c.machine.index.toNat + digits.length ≤ Memory.size := h
  obtain ⟨stored, hstored, hframe, hinside, houtside⟩ :=
    Machine.storeAtIndex_of_fits hfits
  have hindex : stored.index = c.machine.index := by rw [hframe]
  have hroom : stored.index.toNat + (2 : Register).val + 1 ≤
      Memory.size := by
    rwa [hindex]
  obtain ⟨filled, hfilled, hsame, hregs⟩ :=
    Machine.fillRegisters_of_fits hroom
  have hread (y : Register) (hy : y ≤ 2) :
      filled.reg y = digits.getD y.val 0 := by
    rw [hregs, if_pos hy, hindex]
    exact hinside y.val (Nat.lt_succ_of_le hy)
  exact ⟨stored, filled, _, _, _, hhundreds, htens, hones, hsum,
    onMachine_of_ok (fun m => m.storeAtIndex (decimalDigits (m.reg x)))
      hstored, hframe, Memory.block_eq_of_byteAt hinside,
    houtside, onMachine_of_ok (·.fillRegisters 2) hfilled, hsame, hread 0 (by decide),
    hread 1 (by decide), hread 2 (by decide)⟩

/-- Moving blocks between registers and memory, for every console whose block
fits.  Storing the registers up to `Vx` changes the cells of the block alone;
filling them again gives each the byte that was stored for it, whatever has
become of the registers in between, and leaves the others alone; and storing
registers that have just been filled changes nothing.  Storing the digits of
`Vx` changes three cells alone, and filling `V0` to `V2` reads them back.  The
index register stays where it is. -/
theorem transfers_undo_each_other (c : Console) (x : Register) :
    let m := c.machine
    let first := m.index.toNat
    (first + x.val + 1 ≤ Memory.size →
      (∃ stored : Machine,
        c.execute (.storeRegisters x) = .ok (c.withMachine stored) ∧
        stored = { m with memory := stored.memory } ∧
        (∀ y ≤ x, stored.memory.byteAt (first + y.val) = m.reg y) ∧
        (∀ address, address < first ∨ first + x.val < address →
          stored.memory.byteAt address = m.memory.byteAt address) ∧
        ∀ later : Console, later.machine.index = stored.index →
          (∀ y ≤ x, later.machine.memory.byteAt (first + y.val) =
            stored.memory.byteAt (first + y.val)) →
          ∃ filled : Machine,
            later.execute (.fillRegisters x) =
              .ok (later.withMachine filled) ∧
            filled = { later.machine with v := filled.v } ∧
            ∀ y, filled.reg y =
              if y ≤ x then m.reg y else later.machine.reg y) ∧
      ∃ filled : Machine,
        c.execute (.fillRegisters x) = .ok (c.withMachine filled) ∧
        filled = { m with v := filled.v } ∧
        (c.withMachine filled).execute (.storeRegisters x) =
          .ok (c.withMachine filled)) ∧
    (first + 3 ≤ Memory.size →
      ∃ (stored filled : Machine) (hundreds tens ones : UInt8),
        hundreds.toNat ≤ 9 ∧ tens.toNat ≤ 9 ∧ ones.toNat ≤ 9 ∧
        100 * hundreds.toNat + 10 * tens.toNat + ones.toNat =
          (m.reg x).toNat ∧
        c.execute (.storeDigits x) = .ok (c.withMachine stored) ∧
        stored = { m with memory := stored.memory } ∧
        stored.memory.block first 3 = [hundreds, tens, ones] ∧
        (∀ address, address < first ∨ first + 3 ≤ address →
          stored.memory.byteAt address = m.memory.byteAt address) ∧
        (c.withMachine stored).execute (.fillRegisters 2) =
          .ok (c.withMachine filled) ∧
        filled = { stored with v := filled.v } ∧
        filled.reg 0 = hundreds ∧ filled.reg 1 = tens ∧
        filled.reg 2 = ones) := by
  intro m first
  constructor
  · intro hfits
    obtain ⟨stored, hstored, hframe, hcells, houtside⟩ :=
      Machine.storeRegisters_of_fits hfits
    refine ⟨⟨stored,
      onMachine_of_ok (fun m => m.storeAtIndex (m.regsThrough x)) hstored,
      hframe, hcells, houtside, ?_⟩, store_after_fill hfits⟩
    intro later hindex hkept
    have hpoints : later.machine.index = m.index := by rw [hindex, hframe]
    exact fill_after_store hfits hpoints hcells hkept
  · intro hfits
    exact fill_after_digits hfits

/-- The block ends with the last cell of memory.  Registers that are cleared
after they were stored come back, and 254 has the digits 2, 5 and 4. -/
theorem transfers_undo_each_other_at_last_cell :
    let m := { (Machine.blank.setReg 0 7).setReg 2 254 with index := 0xFFD }
    let c : Console := ⟨m, .blank, fun _ => none, .ofCells fun _ => 0⟩
    m.index.toNat + (2 : Register).val + 1 ≤ Memory.size ∧
      m.index.toNat + 3 ≤ Memory.size ∧
      (∃ stored filled : Machine,
        c.execute (.storeRegisters 2) = .ok (c.withMachine stored) ∧
        (c.withMachine { stored with v := Machine.blank.v }).execute
          (.fillRegisters 2) = .ok (c.withMachine filled) ∧
        filled.reg 0 = 7 ∧ filled.reg 2 = 254 ∧ filled.reg 3 = 0) ∧
      ∃ stored : Machine,
        c.execute (.storeDigits 2) = .ok (c.withMachine stored) ∧
        stored.memory.block 0xFFD 3 = [2, 5, 4] := by
  intro m c
  have hregs : m.index.toNat + (2 : Register).val + 1 ≤ Memory.size := by
    decide
  have hdigits : m.index.toNat + 3 ≤ Memory.size := by decide
  refine ⟨hregs, hdigits, ?_, ?_⟩
  · obtain ⟨⟨stored, hstored, -, -, -, hlater⟩, -⟩ :=
      (transfers_undo_each_other c 2).1 hregs
    obtain ⟨filled, hfilled, -, hback⟩ :=
      hlater (c.withMachine { stored with v := Machine.blank.v }) rfl
        fun _ _ => rfl
    exact ⟨stored, filled, hstored, hfilled, hback 0, hback 2, hback 3⟩
  · obtain ⟨stored, filled, hundreds, tens, ones, hhundreds, htens, hones,
      hsum, hstored, -, hblock, -⟩ :=
      (transfers_undo_each_other c 2).2 hdigits
    have hvalue : 100 * hundreds.toNat + 10 * tens.toNat + ones.toNat =
        254 := hsum
    have htwo : hundreds.toNat = 2 := by omega
    have hfive : tens.toNat = 5 := by omega
    have hfour : ones.toNat = 4 := by omega
    obtain rfl : hundreds = 2 := UInt8.toNat_inj.mp htwo
    obtain rfl : tens = 5 := UInt8.toNat_inj.mp hfive
    obtain rfl : ones = 4 := UInt8.toNat_inj.mp hfour
    exact ⟨stored, hstored, hblock⟩

end Console

end Chip8
