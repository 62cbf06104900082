import Chip8.Machine.Operations

/-!
# Access to cells and return slots

`Memory.byteAt` gives a byte for every address.  Each way to read memory either
succeeds with what this view shows, because all the cells it covers exist, or
reports the lowest address it covers outside memory; what is stored shows at the
cells it covers and nowhere else.  Calls and returns find their slot as long as
the stack pointer names one itself.
-/

namespace Chip8

namespace Memory

/-- The byte at an address, with zeros outside memory. -/
def byteAt (m : Memory) (address : Nat) : UInt8 :=
  m.cells[address]?.getD 0

/-- The word at an address and the one after it, high byte first. -/
def wordAt (m : Memory) (address : Nat) : UInt16 :=
  UInt16.ofNat ((m.byteAt address).toNat * 256 +
    (m.byteAt (address + 1)).toNat)

/-- The bytes of a number of cells from an address on. -/
def block (m : Memory) (address count : Nat) : List UInt8 :=
  (List.range count).map fun k => m.byteAt (address + k)

variable (m : Memory) (address count : Nat)

theorem read_eq :
    m.read address =
      if address < size then .ok (m.byteAt address)
      else .error (.outsideMemory address) := by
  by_cases h : address < 4096
  · simp [read, byteAt, size, h]
  · simp [read, size, h]

theorem readWord_eq :
    m.readWord address =
      if address + 1 < size then .ok (m.wordAt address)
      else .error (.outsideMemory (max address size)) := by
  simp only [readWord, read_eq, wordAt]
  by_cases hhigh : address < size
  · by_cases hlow : address + 1 < size
    · simp only [if_pos hhigh, if_pos hlow]
    · have hmax : max address size = address + 1 := by omega
      simp only [if_pos hhigh, if_neg hlow, hmax]
  · have hlow : ¬address + 1 < size := by omega
    have hmax : max address size = address := by omega
    simp only [if_neg hhigh, if_neg hlow, hmax]

theorem length_block : (m.block address count).length = count := by
  simp [block]

theorem block_succ :
    m.block address (count + 1) =
      m.byteAt address :: m.block (address + 1) count := by
  simp only [block, List.range_succ_eq_map, List.map_cons, List.map_map,
    Nat.add_zero]
  congr 1
  apply List.map_congr_left
  intro k _
  simp only [Function.comp_apply, Nat.succ_eq_add_one, Nat.add_assoc,
    Nat.add_comm 1]

theorem readBlock_eq :
    m.readBlock address count =
      if count ≤ size - address then .ok (m.block address count)
      else .error (.outsideMemory (max address size)) := by
  induction count generalizing address with
  | zero => simp [readBlock, block]
  | succ count ih =>
      rw [readBlock, read_eq, ih]
      by_cases hfirst : address < size
      · have hmax : max address size = max (address + 1) size := by omega
        by_cases hrest : count ≤ size - (address + 1)
        · have hall : count + 1 ≤ size - address := by omega
          simp only [if_pos hfirst, if_pos hrest, if_pos hall, block_succ]
        · have hall : ¬count + 1 ≤ size - address := by omega
          simp only [if_pos hfirst, if_neg hrest, if_neg hall, hmax]
      · have hall : ¬count + 1 ≤ size - address := by omega
        have hmax : max address size = address := by omega
        simp only [if_neg hfirst, if_neg hall, hmax]

theorem byteAt_blank : blank.byteAt address = 0 := by
  by_cases h : address < 4096
  · simp [byteAt, blank, h]
  · simp [byteAt, blank, h]

theorem byteAt_set (value : UInt8) (other : Nat) :
    (m.set address value).byteAt other =
      if address = other ∧ other < size then value else m.byteAt other := by
  simp only [byteAt, set, Vector.getElem?_setIfInBounds]
  by_cases hin : other < 4096
  · by_cases hsame : address = other
    · subst hsame
      simp [size, hin]
    · simp [hsame]
  · by_cases hsame : address = other
    · subst hsame
      simp [size, hin]
    · simp [hsame]

/-- A block shows at the cells it covers, as far as they exist, and nowhere
else. -/
theorem byteAt_put (data : List UInt8) (other : Nat) :
    (m.put address data).byteAt other =
      if address ≤ other ∧ other < address + data.length ∧ other < size then
        data.getD (other - address) 0
      else m.byteAt other := by
  induction data generalizing m address with
  | nil =>
      rw [put, if_neg]
      simp only [List.length_nil]
      omega
  | cons value rest ih =>
      rw [put, ih, byteAt_set, List.length_cons]
      by_cases hrest : address + 1 ≤ other ∧
          other < address + 1 + rest.length ∧ other < size
      · have hall : address ≤ other ∧ other < address + (rest.length + 1) ∧
            other < size := by omega
        have hplace : other - address = other - (address + 1) + 1 := by omega
        rw [if_pos hrest, if_pos hall, hplace, List.getD_cons_succ]
      · rw [if_neg hrest]
        by_cases hfirst : address = other ∧ other < size
        · have hall : address ≤ other ∧ other < address + (rest.length + 1) ∧
              other < size := by omega
          have hplace : other - address = 0 := by omega
          rw [if_pos hfirst, if_pos hall, hplace, List.getD_cons_zero]
        · rw [if_neg hfirst, if_neg]
          omega

/-- Memories that hold the same bytes are equal. -/
theorem ext_byteAt {m n : Memory}
    (h : ∀ address, n.byteAt address = m.byteAt address) : n = m := by
  obtain ⟨cells⟩ := m
  obtain ⟨others⟩ := n
  congr 1
  apply Vector.ext
  intro address hlt
  have hsame := h address
  simpa [byteAt, hlt] using hsame

theorem block_eq_of_byteAt {m : Memory} {address : Nat} {data : List UInt8}
    (h : ∀ k < data.length, m.byteAt (address + k) = data.getD k 0) :
    m.block address data.length = data := by
  apply List.ext_getElem
  · rw [length_block]
  · intro k hblock hdata
    simp only [block, List.getElem_map, List.getElem_range]
    rw [h k hdata, List.getD_eq_getElem?_getD,
      List.getElem?_eq_getElem hdata, Option.getD_some]

/-- A block that fits is found where it was put. -/
theorem block_put (m : Memory) {address : Nat} {data : List UInt8}
    (h : address + data.length ≤ size) :
    (m.put address data).block address data.length = data := by
  apply block_eq_of_byteAt
  intro k hk
  rw [byteAt_put, if_pos (by omega), Nat.add_sub_cancel_left]

/-- The two bytes of a word are read as that word. -/
theorem wordAt_put (m : Memory) {address : Nat} (w : UInt16)
    (h : address + 1 < size) :
    (m.put address [UInt8.ofNat (w.toNat / 256), UInt8.ofNat w.toNat]).wordAt
      address = w := by
  let data : List UInt8 := [UInt8.ofNat (w.toNat / 256), UInt8.ofNat w.toNat]
  have hlength : data.length = 2 := rfl
  have hhigh : (m.put address data).byteAt address =
      UInt8.ofNat (w.toNat / 256) := by
    rw [byteAt_put, if_pos (by omega), Nat.sub_self]
    rfl
  have hlow : (m.put address data).byteAt (address + 1) =
      UInt8.ofNat w.toNat := by
    rw [byteAt_put, if_pos (by omega), Nat.add_sub_cancel_left]
    rfl
  have hw := w.toNat_lt
  apply UInt16.toNat_inj.mp
  rw [wordAt, hhigh, hlow, UInt16.toNat_ofNat', UInt8.toNat_ofNat',
    UInt8.toNat_ofNat']
  omega

section

variable {m : Memory} {address : Nat} {data : List UInt8}

theorem store_of_le (h : address + data.length ≤ size) :
    m.store address data = .ok (m.put address data) :=
  if_neg (Nat.not_lt.mpr h)

theorem store_of_lt (h : size < address + data.length) :
    m.store address data = .fail m (.outsideMemory (max address size)) :=
  if_pos h

end

end Memory

namespace Stack

variable (s : Stack) {slot : UInt8} (value : UInt16)

theorem error_set_of_lt (h : slot.toNat < size) :
    (s.set slot value).error = none := by
  rw [set, if_pos h, Outcome.error_ok]

theorem set_of_not_lt (h : ¬slot.toNat < size) :
    s.set slot value = .fail s () := if_neg h

end Stack

namespace Machine

theorem length_regsThrough (m : Machine) (x : Register) :
    (m.regsThrough x).length = x.val + 1 := by
  have hthrough : ∀ x : Register, x.through.length = x.val + 1 := by decide
  rw [regsThrough, List.length_map, hthrough]

theorem reg_setRegs (m : Machine) (values : List UInt8) (y : Register) :
    (m.setRegs values).reg y = values.getD y.val (m.reg y) := by
  simp [reg, setRegs]

variable {m : Machine}

theorem storeAtIndex_of_le {data : List UInt8}
    (h : m.index.toNat + data.length ≤ Memory.size) :
    m.storeAtIndex data =
      .ok { m with memory := m.memory.put m.index.toNat data } := by
  rw [storeAtIndex, Memory.store_of_le h]
  rfl

theorem storeAtIndex_of_lt {data : List UInt8}
    (h : Memory.size < m.index.toNat + data.length) :
    m.storeAtIndex data =
      .fail m (.outsideMemory (max m.index.toNat Memory.size)) := by
  rw [storeAtIndex, Memory.store_of_lt h]
  rfl

theorem call_of_slot (target : Address)
    (hslot : (m.sp + 1).toNat < Stack.size) :
    m.call target = .ok { m with
      stack := (m.stack.set (m.sp + 1) m.pc).state
      sp := m.sp + 1
      pc := target.toWord - Instruction.width } := by
  simp only [call, Stack.error_set_of_lt _ _ hslot]
  rfl

theorem call_of_no_slot (target : Address)
    (hslot : ¬(m.sp + 1).toNat < Stack.size) :
    m.call target = .fail m (.stackOverflow m.pc) := by
  simp only [call, Stack.set_of_not_lt _ _ hslot, Outcome.error_fail,
    Outcome.state_fail]

theorem ret_of_slot {call : UInt16} (hsp : m.sp ≠ 0)
    (hslot : m.stack.get? m.sp = some call) :
    m.ret = .ok { m with pc := call, sp := m.sp - 1 } := by
  simp only [ret, if_neg hsp, hslot]

theorem ret_of_sp_zero (hsp : m.sp = 0) :
    m.ret = .fail m (.stackUnderflow m.pc) := by
  rw [ret, if_pos hsp]

theorem ret_eq (hsp : m.sp.toNat ≤ 15) :
    m.ret =
      if m.sp = 0 then .fail m (.stackUnderflow m.pc)
      else .ok { m with
        pc := (m.stack.get? m.sp).getD 0
        sp := m.sp - 1 } := by
  have hslot : m.sp.toNat < 16 := by omega
  simp only [ret, Stack.get?, Vector.getElem?_eq_getElem hslot,
    Option.getD_some]

theorem call_eq (target : Address) (hsp : m.sp.toNat ≤ 15) :
    m.call target =
      if m.sp = 15 then .fail m (.stackOverflow m.pc)
      else .ok (branch { m with
        stack := (m.stack.set (m.sp + 1) m.pc).state
        sp := m.sp + 1 } target.toWord) := by
  have hnext : (m.sp + 1).toNat = m.sp.toNat + 1 := by
    rw [UInt8.toNat_add]
    simp only [UInt8.toNat_one]
    omega
  by_cases hfull : m.sp = 15
  · have hslot : ¬(m.sp + 1).toNat < Stack.size := by
      rw [hfull]
      decide
    rw [if_pos hfull, call_of_no_slot target hslot]
  · have hne : m.sp.toNat ≠ 15 := by
      intro heq
      exact hfull (UInt8.toNat_inj.mp heq)
    have hslot : (m.sp + 1).toNat < Stack.size := by
      simp only [hnext, Stack.size]
      omega
    rw [if_neg hfull, call_of_slot target hslot]
    rfl

end Machine

end Chip8
