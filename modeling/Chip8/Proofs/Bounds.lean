import Chip8.Outcome
import Chip8.Proofs.Access

/-!
# Access at any address

An access covers a number of cells from its address on.  It is checked if it
does what it should whenever all of them exist, and otherwise changes nothing
and reports the lowest address that it covers outside memory.  Every access with
a 64-bit address is checked but one: a host's block whose end is no 64-bit
number is not compared with the size of memory at all.
-/

namespace Chip8

namespace Memory

/-- All the cells that an access covers exist. -/
def Inside (address count : Nat) : Prop := ∀ k < count, address + k < size

/-- An address outside memory is the lowest one that an access covers. -/
structure LowestOutside (address count lowest : Nat) : Prop where
  covered : address ≤ lowest ∧ lowest < address + count
  outside : size ≤ lowest
  lowest_le : ∀ other, address ≤ other → size ≤ other → lowest ≤ other

/-- An access gives a right result if all the cells that it covers exist, and
otherwise reports the lowest address that it covers outside memory. -/
structure Checks {ε α : Type} (fault : Fault → ε) (address count : Nat)
    (result : Except ε α) (Right : α → Prop) : Prop where
  inside : Inside address count → ∃ value, result = .ok value ∧ Right value
  outside : ¬Inside address count →
    LowestOutside address count (max address size) ∧
      result = .error (fault (.outsideMemory (max address size)))

/-- Write bytes at one address after another, until one of them does not
exist. -/
def writeEach (m : Memory) (address : Nat) :
    List UInt8 → Outcome Fault Memory
  | [] => .ok m
  | value :: rest =>
    (m.write address value).andThen (·.writeEach (address + 1) rest)

/-- A write is checked.  The cells that it covers then hold its bytes, as if
they had been written one after another, and the others hold what they held;
and a write that is refused leaves the memory as it was. -/
structure ChecksWrite {ε : Type} (fault : Fault → ε) (m : Memory)
    (address : Nat) (data : List UInt8) (outcome : Outcome ε Memory) :
    Prop where
  inside : Inside address data.length →
    outcome.error = none ∧
      m.writeEach address data = .ok outcome.state ∧
      ∀ other, outcome.state.byteAt other =
        if address ≤ other ∧ other < address + data.length then
          data.getD (other - address) 0
        else m.byteAt other
  outside : ¬Inside address data.length →
    LowestOutside address data.length (max address size) ∧
      outcome.error = some (fault (.outsideMemory (max address size)))
  kept : ¬Inside address data.length → outcome.state = m

section

variable {ε α : Type} {fault : Fault → ε} {address count : Nat}
  {result : Except ε α} {Right : α → Prop}

theorem inside_iff : Inside address count ↔ count ≤ size - address := by
  constructor
  · intro h
    by_cases hcount : count = 0
    · rw [hcount]
      exact Nat.zero_le _
    · have hlast := h (count - 1) (by omega)
      omega
  · intro h k hk
    omega

theorem lowestOutside_max (h : ¬Inside address count) :
    LowestOutside address count (max address size) := by
  rw [inside_iff] at h
  exact ⟨by omega, by omega, fun other haddress hout => by omega⟩

theorem checks_of_cases {value : α}
    (hinside : count ≤ size - address → result = .ok value)
    (hright : count ≤ size - address → Right value)
    (houtside : ¬count ≤ size - address →
      result = .error (fault (.outsideMemory (max address size)))) :
    Checks fault address count result Right where
  inside h := ⟨value, hinside (inside_iff.mp h), hright (inside_iff.mp h)⟩
  outside h := ⟨lowestOutside_max h, houtside (mt inside_iff.mpr h)⟩

end

variable (m : Memory) (address : Nat)

theorem read_checks :
    Checks id address 1 (m.read address) (· = m.byteAt address) := by
  apply checks_of_cases
  · intro hfits
    rw [read_eq, if_pos (by omega)]
  · intro _
    rfl
  · intro hfits
    have hmax : max address size = address := by omega
    rw [read_eq, if_neg (by omega), hmax, id]

theorem readWord_checks :
    Checks id address 2 (m.readWord address) fun word =>
      word.toNat = 256 * (m.byteAt address).toNat +
        (m.byteAt (address + 1)).toNat := by
  apply checks_of_cases
  · intro hfits
    rw [readWord_eq, if_pos (by omega)]
  · intro _
    have hhigh := (m.byteAt address).toNat_lt
    have hlow := (m.byteAt (address + 1)).toNat_lt
    rw [wordAt, UInt16.toNat_ofNat']
    omega
  · intro hfits
    rw [readWord_eq, if_neg (by omega), id]

/-- The second cell of a word is looked for only if the first one exists, and
then its address is a 64-bit number. -/
theorem succ_lt_of_read_eq_ok {high : UInt8}
    (h : m.read address = .ok high) : address + 1 < UInt64.size := by
  rw [read_eq] at h
  split at h
  next hlt =>
    simp only [size, UInt64.size] at hlt ⊢
    omega
  · cases h

theorem writeEach_eq (data : List UInt8) :
    m.writeEach address data =
      if data.length ≤ size - address then .ok (m.put address data)
      else .fail (m.put address (data.take (size - address)))
        (.outsideMemory (max address size)) := by
  induction data generalizing m address with
  | nil => rw [writeEach, put, List.length_nil, if_pos (Nat.zero_le _)]
  | cons value rest ih =>
      rw [writeEach, write, List.length_cons]
      by_cases hfirst : address < size
      · have hmax : max address size = max (address + 1) size := by omega
        have hroom : size - address = size - (address + 1) + 1 := by omega
        have hrest : rest.length + 1 ≤ size - address ↔
            rest.length ≤ size - (address + 1) := by omega
        rw [if_pos hfirst, Outcome.ok_andThen, ih, hmax, hroom,
          List.take_succ_cons]
        simp only [hroom ▸ hrest, put]
      · have hall : ¬rest.length + 1 ≤ size - address := by omega
        have hmax : max address size = address := by omega
        have hroom : size - address = 0 := by omega
        rw [if_neg hfirst, Outcome.fail_andThen, if_neg hall, hmax, hroom]
        rfl

theorem byteAt_put_of_fits {data : List UInt8}
    (hfits : data.length ≤ size - address) (other : Nat) :
    (m.put address data).byteAt other =
      if address ≤ other ∧ other < address + data.length then
        data.getD (other - address) 0
      else m.byteAt other := by
  rw [byteAt_put]
  congr 1
  apply propext
  omega

/-- Whatever puts a block that fits and refuses every other one is a checked
write. -/
theorem checksWrite_of_cases {ε : Type} {fault : Fault → ε}
    {data : List UInt8} {outcome : Outcome ε Memory}
    (hinside : data.length ≤ size - address →
      outcome = .ok (m.put address data))
    (houtside : ¬data.length ≤ size - address →
      outcome = .fail m (fault (.outsideMemory (max address size)))) :
    ChecksWrite fault m address data outcome where
  inside h := by
    have hfits := inside_iff.mp h
    rw [hinside hfits, writeEach_eq, if_pos hfits]
    exact ⟨rfl, rfl, m.byteAt_put_of_fits address hfits⟩
  outside h := by
    rw [houtside (mt inside_iff.mpr h)]
    exact ⟨lowestOutside_max h, rfl⟩
  kept h := by
    rw [houtside (mt inside_iff.mpr h), Outcome.state_fail]

theorem write_checks (value : UInt8) :
    ChecksWrite id m address [value] (m.write address value) := by
  apply checksWrite_of_cases
  · intro hfits
    rw [List.length_singleton] at hfits
    rw [write, if_pos (by omega)]
    rfl
  · intro hfits
    rw [List.length_singleton] at hfits
    have hmax : max address size = address := by omega
    rw [write, if_neg (by omega), hmax, id]

theorem store_eq {data : List UInt8} (hdata : data ≠ []) :
    m.store address data =
      if data.length ≤ size - address then .ok (m.put address data)
      else .fail m (.outsideMemory (max address size)) := by
  have hlength := List.length_pos_iff.mpr hdata
  by_cases hfits : data.length ≤ size - address
  · rw [store_of_le (by omega), if_pos hfits]
  · rw [store_of_lt (by omega), if_neg hfits]

theorem hostStore_of_lt {data : List UInt8} (hdata : data ≠ [])
    (hend : address + data.length < UInt64.size) :
    m.hostStore address data =
      if data.length ≤ size - address then .ok (m.put address data)
      else .fail m (.fault (.outsideMemory (max address size))) := by
  rw [hostStore, if_neg (Nat.not_le.mpr hend), store_eq m address hdata]
  by_cases hfits : data.length ≤ size - address
  · rw [if_pos hfits, if_pos hfits, Outcome.mapError_ok]
  · rw [if_neg hfits, if_neg hfits, Outcome.mapError_fail]

theorem hostStore_of_le {data : List UInt8}
    (hend : UInt64.size ≤ address + data.length) :
    m.hostStore address data = .fail m .endOverflow := by
  rw [hostStore, if_pos hend]

/-- A host's block is checked if and only if its end is a 64-bit number. -/
theorem hostStore_checks_iff {data : List UInt8} (hdata : data ≠ []) :
    ChecksWrite .fault m address data (m.hostStore address data) ↔
      address + data.length < UInt64.size := by
  have hlength := List.length_pos_iff.mpr hdata
  constructor
  · intro hchecks
    apply Nat.lt_of_not_le
    intro hend
    have hout : ¬Inside address data.length := by
      rw [inside_iff]
      simp only [size, UInt64.size] at hend ⊢
      omega
    have hreported := (hchecks.outside hout).2
    rw [hostStore_of_le m address hend] at hreported
    cases hreported
  · intro hend
    have hstore := m.hostStore_of_lt address hdata hend
    apply checksWrite_of_cases
    · intro hfits
      rw [hstore, if_pos hfits]
    · intro hfits
      rw [hstore, if_neg hfits]

/-- Every access at a 64-bit address is checked, apart from a host's block whose
end is no 64-bit number: it is refused for its end, whatever it covers.  Looking
for the second cell of a word never takes an address beyond 64 bits. -/
theorem access_checks (m : Memory) (address : UInt64) (value : UInt8)
    (data : List UInt8) (hdata : data ≠ []) :
    let a := address.toNat
    Checks id a 1 (m.read a) (· = m.byteAt a) ∧
    Checks id a 2 (m.readWord a) (fun word =>
      word.toNat = 256 * (m.byteAt a).toNat + (m.byteAt (a + 1)).toNat) ∧
    (∀ high, m.read a = .ok high → a + 1 < UInt64.size) ∧
    ChecksWrite id m a [value] (m.write a value) ∧
    (ChecksWrite .fault m a data (m.hostStore a data) ↔
      a + data.length < UInt64.size) ∧
    (UInt64.size ≤ a + data.length →
      m.hostStore a data = .fail m .endOverflow) := by
  intro a
  exact ⟨m.read_checks a, m.readWord_checks a,
    fun _ => m.succ_lt_of_read_eq_ok a, m.write_checks a value,
    m.hostStore_checks_iff a hdata, m.hostStore_of_le a⟩

/-- The last two cells are read as a word, and a block of three bytes does not
fit there. -/
theorem access_checks_at_last_cells :
    let m := Memory.blank.put 0xFFE [0xAB, 0xCD]
    let address : UInt64 := 0xFFE
    ([1, 2, 3] : List UInt8) ≠ [] ∧
    (∃ word, m.readWord address.toNat = .ok word ∧ word.toNat = 0xABCD) ∧
    (m.hostStore address.toNat [1, 2, 3]).error =
      some (.fault (.outsideMemory 0x1000)) ∧
    (m.hostStore address.toNat [1, 2, 3]).state = m ∧
    LowestOutside address.toNat 3 0x1000 := by
  intro m address
  have hdata : ([1, 2, 3] : List UInt8) ≠ [] := by decide
  obtain ⟨-, hword, -, -, hstore, -⟩ :=
    access_checks m address 0 [1, 2, 3] hdata
  have hinside : Inside address.toNat 2 := inside_iff.mpr (by decide)
  have hout : ¬Inside address.toNat 3 := mt inside_iff.mp (by decide)
  have hmax : max address.toNat size = 0x1000 := by decide
  obtain ⟨word, hread, hvalue⟩ := hword.inside hinside
  have hchecked := hstore.mpr (by decide)
  obtain ⟨hlowest, hrefused⟩ := hchecked.outside hout
  rw [hmax] at hlowest hrefused
  refine ⟨hdata, ⟨word, hread, ?_⟩, hrefused, hchecked.kept hout, hlowest⟩
  rw [hvalue]
  decide +kernel

/-- One byte at the last 64-bit address is not reported as lying outside
memory. -/
theorem hostStore_unchecked_at_last_address :
    let address : UInt64 := 0xFFFFFFFFFFFFFFFF
    Memory.blank.hostStore address.toNat [1] =
      .fail Memory.blank .endOverflow ∧
    LowestOutside address.toNat 1 address.toNat ∧
    ¬ChecksWrite .fault Memory.blank address.toNat [1]
      (Memory.blank.hostStore address.toNat [1]) := by
  intro address
  have hend : UInt64.size ≤ address.toNat + ([1] : List UInt8).length := by
    decide
  have hout : ¬Inside address.toNat 1 := mt inside_iff.mp (by decide)
  have hmax : max address.toNat size = address.toNat := by decide
  refine ⟨Memory.blank.hostStore_of_le _ hend, ?_, ?_⟩
  · have hlowest := lowestOutside_max hout
    rwa [hmax] at hlowest
  · rw [Memory.blank.hostStore_checks_iff _ (by decide)]
    exact Nat.not_lt.mpr hend

end Memory

end Chip8
