import Chip8.Proofs.Cycle
import Chip8.Proofs.Effect
import Chip8.Proofs.Schedule
import Chip8.Proofs.Sprite
import Mathlib.Order.Bounds.Defs

/-!
# The faults of a step

What goes wrong in a step can be read off the machine before it: the counter
says whether there is a word, and the word says which cells or which slot its
instruction needs.  An address that is reported is the lowest one outside
memory among those that the step needs.
-/

namespace Chip8

/-- How many cells an instruction reads or stores from the index register
on. -/
def Instruction.span : Instruction → Nat
  | .draw _ _ rows => rows
  | .storeDigits _ => 3
  | .storeRegisters x | .fillRegisters x => x + 1
  | _ => 0

namespace Machine

/-- What goes wrong with a number of cells from the index register on. -/
def blockFault (m : Machine) (count : Nat) : Option Fault :=
  if 0 < count ∧ 0x1000 < m.index.toNat + count then
    some (.outsideMemory (max m.index.toNat 0x1000))
  else none

/-- What goes wrong with an instruction. -/
def faultOf (m : Machine) : Instruction → Option Fault
  | .ret => if m.sp = 0 then some (.stackUnderflow m.pc) else none
  | .call _ => if m.sp = 15 then some (.stackOverflow m.pc) else none
  | i => m.blockFault i.span

/-- What goes wrong with the word that the counter points at. -/
def faultAhead (m : Machine) : Option Fault :=
  if 0xFFF ≤ m.pc.toNat then some (.outsideMemory (max m.pc.toNat 0x1000))
  else (Instruction.decode (m.memory.wordAt m.pc.toNat)).bind m.faultOf

/-- Whether a step needs the cell at an address, for its word or, once there
is one, for its instruction. -/
def Needs (m : Machine) (address : Nat) : Prop :=
  address = m.pc.toNat ∨ address = m.pc.toNat + 1 ∨
    m.pc.toNat < 0xFFF ∧
      ∃ i, Instruction.decode (m.memory.wordAt m.pc.toNat) = some i ∧
        m.index.toNat ≤ address ∧ address < m.index.toNat + i.span

theorem blockFault_of_pos {m : Machine} {count : Nat} (hcount : 0 < count) :
    m.blockFault count =
      if count ≤ Memory.size - m.index.toNat then none
      else some (.outsideMemory (max m.index.toNat Memory.size)) := by
  have hsize : Memory.size = 0x1000 := rfl
  by_cases hfit : count ≤ Memory.size - m.index.toNat
  · have hin : ¬(0 < count ∧ 0x1000 < m.index.toNat + count) := by omega
    rw [blockFault, if_neg hin, if_pos hfit]
  · have hout : 0 < count ∧ 0x1000 < m.index.toNat + count := by omega
    rw [blockFault, if_pos hout, if_neg hfit, hsize]

theorem storeAtIndex_error (m : Machine) {data : List UInt8}
    (hdata : 0 < data.length) :
    (m.storeAtIndex data).error = m.blockFault data.length := by
  rw [blockFault_of_pos hdata]
  rcases Nat.lt_or_ge Memory.size (m.index.toNat + data.length) with
    hout | hfits
  · rw [storeAtIndex_of_lt hout, if_neg (by omega), Outcome.error_fail]
  · rw [storeAtIndex_of_le hfits, if_pos (by omega), Outcome.error_ok]

theorem fillRegisters_error (m : Machine) (x : Register) :
    (m.fillRegisters x).error = m.blockFault (x.val + 1) := by
  rw [blockFault_of_pos (Nat.succ_pos x.val)]
  by_cases hfit : x.val + 1 ≤ Memory.size - m.index.toNat
  · simp only [fillRegisters, Memory.readBlock_eq, if_pos hfit,
      Outcome.error_ok]
  · simp only [fillRegisters, Memory.readBlock_eq, if_neg hfit,
      Outcome.error_fail]

end Machine

namespace Console

variable (c : Console)

theorem draw_error (x y : Register) (rows : Nibble) :
    (c.draw x y rows).error = c.machine.blockFault rows := by
  have hdrawn : (c.draw x y rows).error =
      if rows.val ≤ Memory.size - c.machine.index.toNat then none
      else some
        (.outsideMemory (max c.machine.index.toNat Memory.size)) := by
    by_cases hfit : rows.val ≤ Memory.size - c.machine.index.toNat
    · rw [if_pos hfit, c.draw_of_fits x y hfit]
      rfl
    · simp only [draw, Screen.drawSprite_eq, if_neg hfit]
      rfl
  rw [hdrawn]
  by_cases hrows : 0 < rows.val
  · rw [Machine.blockFault_of_pos hrows]
  · have hnone : rows.val ≤ Memory.size - c.machine.index.toNat := by omega
    rw [if_pos hnone, Machine.blockFault, if_neg]
    intro hblock
    exact hrows hblock.1

/-- Each instruction goes wrong as its operands and the machine say. -/
theorem execute_error (i : Instruction) (hsp : c.machine.sp.toNat ≤ 15) :
    (c.execute i).error = c.machine.faultOf i := by
  cases i with
  | ret =>
      rw [execute, onMachine_error, Machine.ret_eq hsp, Machine.faultOf]
      by_cases hzero : c.machine.sp = 0
      · rw [if_pos hzero, if_pos hzero, Outcome.error_fail]
      · rw [if_neg hzero, if_neg hzero, Outcome.error_ok]
  | call target =>
      rw [execute, onMachine_error, Machine.call_eq target hsp,
        Machine.faultOf]
      by_cases hfull : c.machine.sp = 15
      · rw [if_pos hfull, if_pos hfull, Outcome.error_fail]
      · rw [if_neg hfull, if_neg hfull, Outcome.error_ok]
  | draw x y rows => exact c.draw_error x y rows
  | storeDigits x => exact c.machine.storeAtIndex_error (Nat.succ_pos 2)
  | storeRegisters x =>
      have hlength := c.machine.length_regsThrough x
      rw [execute, onMachine_error, Machine.storeAtIndex_error _ (by omega),
        hlength]
      rfl
  | fillRegisters x => exact c.machine.fillRegisters_error x
  | _ => simp [execute, Machine.faultOf, Machine.blockFault, Instruction.span]

end Console

namespace Engine

/-- A cycle goes wrong as the machine says. -/
theorem cycle_error (e : Engine) (hsp : e.console.machine.sp.toNat ≤ 15) :
    e.cycle.error = e.console.machine.faultAhead := by
  by_cases hin : e.console.machine.pc.toNat ≤ 0xFFE
  · have hfetch := word_of_inside hin
    rw [Machine.faultAhead, if_neg (by omega)]
    cases hdecode : Instruction.decode
        (e.console.machine.memory.wordAt e.console.machine.pc.toNat) with
    | none => exact (cycle_of_decode_none hfetch hdecode).1
    | some i =>
        have hahead : e.instruction? = some i :=
          instruction?_eq_some_iff.mpr ⟨_, hfetch, hdecode⟩
        have hexecute := e.console.execute_error i hsp
        rw [Option.bind_some, ← hexecute]
        cases herror : (e.console.execute i).error with
        | none => exact (cycle_of_execute_ok hahead herror).1
        | some fault => exact (cycle_of_execute_error hahead herror).1
  · have hout : 0xFFF ≤ e.console.machine.pc.toNat := by omega
    rw [cycle_of_word_error (word_of_outside hout), Machine.faultAhead,
      if_pos hout]
    rfl

end Engine

namespace Machine

theorem pointGlyph_index (m : Machine) (x : Register) :
    (m.pointGlyph x).index.toNat = Font.stride * (m.reg x).toNat := by
  have hbyte : (m.reg x).toNat < 256 := (m.reg x).toNat_lt
  rw [pointGlyph, UInt16.toNat_ofNat']
  simp only [Font.stride]
  omega

/-- What the instructions of a machine compute on their way stays in range:
the products that make glyph pointers fit the index register, the stack
pointer moves by one without wrapping, and a block that is stored lies in
memory, where all of it can be found. -/
structure StaysInRange (m : Machine) : Prop where
  glyph (x : Register) :
    (m.pointGlyph x).index.toNat = Font.stride * (m.reg x).toNat
  returned (h : m.ret.error = none) :
    m.ret.state.sp.toNat + 1 = m.sp.toNat
  called (target : Address) (h : (m.call target).error = none) :
    (m.call target).state.sp.toNat = m.sp.toNat + 1
  stored (data : List UInt8) (h : (m.storeAtIndex data).error = none) :
    m.index.toNat + data.length ≤ Memory.size ∧
      (m.storeAtIndex data).state.memory.block m.index.toNat data.length =
        data

variable {m : Machine}

theorem sp_ret (h : m.ret.error = none) :
    m.ret.state.sp.toNat + 1 = m.sp.toNat := by
  obtain ⟨hsp, call, -, hret⟩ := ret_eq_of_ok h
  have hpos : m.sp.toNat ≠ 0 := fun hzero => hsp (UInt8.toNat_inj.mp hzero)
  have hlt := m.sp.toNat_lt
  have hone : (1 : UInt8).toNat = 1 := rfl
  rw [hret, Outcome.state_ok, UInt8.toNat_sub, hone]
  omega

theorem sp_call (hsp : m.sp.toNat ≤ 15) {target : Address}
    (h : (m.call target).error = none) :
    (m.call target).state.sp.toNat = m.sp.toNat + 1 := by
  have hone : (1 : UInt8).toNat = 1 := rfl
  rw [(call_eq_of_ok h).2, Outcome.state_ok, UInt8.toNat_add, hone]
  omega

theorem block_storeAtIndex {data : List UInt8}
    (h : (m.storeAtIndex data).error = none) :
    m.index.toNat + data.length ≤ Memory.size ∧
      (m.storeAtIndex data).state.memory.block m.index.toNat data.length =
        data := by
  obtain ⟨hfits, hstore⟩ := storeAtIndex_eq_of_ok h
  rw [hstore]
  exact ⟨hfits, Memory.block_put _ hfits⟩

theorem staysInRange (hsp : m.sp.toNat ≤ 15) : m.StaysInRange where
  glyph := m.pointGlyph_index
  returned := sp_ret
  called _ := sp_call hsp
  stored _ := block_storeAtIndex

theorem faultOf_outsideMemory_iff {i : Instruction} {address : Nat} :
    m.faultOf i = some (.outsideMemory address) ↔
      (0 < i.span ∧ Memory.size < m.index.toNat + i.span) ∧
        address = max m.index.toNat Memory.size := by
  have hblock (count : Nat) :
      m.blockFault count = some (.outsideMemory address) ↔
        (0 < count ∧ Memory.size < m.index.toNat + count) ∧
          address = max m.index.toNat Memory.size := by
    simp [blockFault, Memory.size, eq_comm]
  cases i with
  | ret => simp [faultOf, Instruction.span]
  | call target => simp [faultOf, Instruction.span]
  | _ => exact hblock _

/-- The address that a step reports is the lowest one it needs outside
memory. -/
theorem isLeast_of_faultAhead {address : Nat}
    (h : m.faultAhead = some (.outsideMemory address)) :
    IsLeast {needed | m.Needs needed ∧ Memory.size ≤ needed} address := by
  have hsize : Memory.size = 0x1000 := rfl
  rw [faultAhead] at h
  split at h
  next hout =>
    cases h
    constructor
    · constructor
      · rw [Needs]
        omega
      · omega
    · rintro needed ⟨hneeds, hbeyond⟩
      rcases hneeds with rfl | rfl | ⟨hin, -⟩
      · omega
      · omega
      · omega
  next hin =>
    obtain ⟨i, hdecode, hfault⟩ := Option.bind_eq_some_iff.mp h
    obtain ⟨⟨hspan, hbeyond⟩, rfl⟩ := faultOf_outsideMemory_iff.mp hfault
    constructor
    · refine ⟨Or.inr (Or.inr ⟨by omega, i, hdecode, ?_, ?_⟩), ?_⟩
      · omega
      · omega
      · omega
    · rintro needed ⟨hneeds, hout⟩
      rcases hneeds with rfl | rfl | ⟨-, j, -, hfirst, -⟩
      · omega
      · omega
      · omega

theorem lt_size_of_needs (h : m.faultAhead = none) {address : Nat}
    (hneeds : m.Needs address) : address < Memory.size := by
  have hsize : Memory.size = 0x1000 := rfl
  rw [faultAhead] at h
  split at h
  next hout => cases h
  next hin =>
    rcases hneeds with rfl | rfl | ⟨-, i, hdecode, hfirst, hlast⟩
    · omega
    · omega
    · rw [hdecode, Option.bind_some] at h
      by_contra hout
      have hbeyond : 0 < i.span ∧ Memory.size < m.index.toNat + i.span := by
        omega
      have hfault := faultOf_outsideMemory_iff.mpr ⟨hbeyond, rfl⟩
      rw [h] at hfault
      cases hfault

end Machine

namespace Emulator

/-- A step goes wrong exactly as the machine says.  An address it reports is
the lowest one it needs outside memory, and a step that goes well needs none
there.  What is computed on the way stays in range. -/
theorem step_error_eq_faultAhead (e : Emulator) (hrunning : e.fault = none)
    (hsp : e.machine.sp.toNat ≤ 15) :
    e.step.error = e.machine.faultAhead ∧
      (∀ address, e.step.error = some (.outsideMemory address) →
        IsLeast {needed | e.machine.Needs needed ∧ Memory.size ≤ needed}
          address) ∧
      (e.step.error = none →
        ∀ address, e.machine.Needs address → address < Memory.size) ∧
      e.machine.StaysInRange := by
  have hstep : e.step.error = e.machine.faultAhead := by
    rw [step_of_running hrunning]
    exact e.engine.cycle_error hsp
  refine ⟨hstep, ?_, ?_, ?_⟩
  · intro address haddress
    exact Machine.isLeast_of_faultAhead (hstep ▸ haddress)
  · intro hnone address hneeds
    exact Machine.lt_size_of_needs (hstep ▸ hnone) hneeds
  · exact Machine.staysInRange hsp

/-- Storing two registers at the last cell needs the cell after it. -/
theorem step_error_storing_past_end :
    ∃ e, boot [0xAF, 0xFF, 0xF1, 0x55] (fun _ => none) {}
        (.ofCells fun n => n) (fun _ => .ofCells fun _ => 0) = .ok e ∧
      (e.run [.step]).1.fault = none ∧
      (e.run [.step]).1.machine.sp.toNat ≤ 15 ∧
      (e.run [.step]).1.step.error = some (.outsideMemory 0x1000) := by
  obtain ⟨e, hboot, hrunning, hsp, hahead⟩ : ∃ e,
      boot [0xAF, 0xFF, 0xF1, 0x55] (fun _ => none) {}
        (.ofCells fun n => n) (fun _ => .ofCells fun _ => 0) = .ok e ∧
      (e.run [.step]).1.fault = none ∧
      (e.run [.step]).1.machine.sp.toNat ≤ 15 ∧
      (e.run [.step]).1.machine.faultAhead =
        some (.outsideMemory 0x1000) :=
    ⟨_, rfl, by decide +kernel, by decide +kernel, by decide +kernel⟩
  have hstep := (step_error_eq_faultAhead _ hrunning hsp).1
  exact ⟨e, hboot, hrunning, hsp, hstep.trans hahead⟩

end Emulator

end Chip8
