import Chip8.Console
import Chip8.Proofs.Access
import Mathlib.Tactic.Push

/-!
# What instructions leave alone

Operations that can go wrong look for all they need before they change
anything: a call for a free slot, a return for its own slot, and a transfer for
all of its cells.  So an instruction that goes wrong leaves the machine as it
was; only a draw has changed the screen by then.  And only calls and returns
touch the return slots and the stack pointer.
-/

namespace Chip8

theorem Memory.store_state_of_error {m : Memory} {address : Nat}
    {data : List UInt8} {fault : Fault}
    (h : (m.store address data).error = some fault) :
    (m.store address data).state = m := by
  rcases Nat.lt_or_ge size (address + data.length) with hout | hfits
  · rw [store_of_lt hout, Outcome.state_fail]
  · rw [store_of_le hfits] at h
    cases h

/-! ## Operations that go wrong -/

namespace Machine

variable {m : Machine} {fault : Fault}

theorem call_state_of_error {target : Address}
    (h : (m.call target).error = some fault) :
    (m.call target).state = m := by
  by_cases hslot : (m.sp + 1).toNat < Stack.size
  · rw [call_of_slot target hslot] at h
    cases h
  · rw [call_of_no_slot target hslot, Outcome.state_fail]

theorem ret_state_of_error (h : m.ret.error = some fault) :
    m.ret.state = m := by
  simp only [ret] at h ⊢
  split
  next => rfl
  next hsp =>
    split
    next => rfl
    next call hslot =>
      rw [if_neg hsp, hslot] at h
      cases h

theorem storeAtIndex_state_of_error {data : List UInt8}
    (h : (m.storeAtIndex data).error = some fault) :
    (m.storeAtIndex data).state = m := by
  rw [storeAtIndex, Outcome.error_map] at h
  rw [storeAtIndex, Outcome.state_map, Memory.store_state_of_error h]

theorem fillRegisters_state_of_error {x : Register}
    (h : (m.fillRegisters x).error = some fault) :
    (m.fillRegisters x).state = m := by
  simp only [fillRegisters] at h ⊢
  split
  next => rfl
  next values hread =>
    rw [hread] at h
    cases h

end Machine

namespace Console

section

variable {c : Console} {act : Machine → Outcome Fault Machine}

@[simp] theorem onMachine_error :
    (c.onMachine act).error = (act c.machine).error := rfl

@[simp] theorem onMachine_machine :
    (c.onMachine act).state.machine = (act c.machine).state := rfl

theorem onMachine_of_ok (act : Machine → Outcome Fault Machine)
    {machine : Machine} (h : act c.machine = .ok machine) :
    c.onMachine act = .ok (c.withMachine machine) := by
  rw [onMachine, h]
  rfl

theorem onMachine_of_fail (act : Machine → Outcome Fault Machine)
    {fault : Fault} (h : act c.machine = .fail c.machine fault) :
    c.onMachine act = .fail c fault := by
  rw [onMachine, h]
  rfl

theorem onMachine_state_of_eq (h : (act c.machine).state = c.machine) :
    (c.onMachine act).state = c := by
  rw [onMachine, Outcome.state_map, h]
  rfl

end

/-- Drawing puts the collision into `VF` once all rows are drawn, and changes
nothing else of the machine. -/
theorem draw_machine (c : Console) (x y : Register) (rows : Nibble) :
    (c.draw x y rows).state.machine = c.machine ∨
      ∃ flag, (c.draw x y rows).state.machine = c.machine.setReg .flag flag := by
  simp only [draw]
  split
  · exact Or.inl rfl
  · exact Or.inr ⟨_, rfl⟩

theorem draw_state_of_error {c : Console} {x y : Register} {rows : Nibble}
    {fault : Fault} (h : (c.draw x y rows).error = some fault) :
    (c.draw x y rows).state =
      { c with screen := (c.draw x y rows).state.screen } := by
  simp only [draw] at h ⊢
  split
  · rfl
  next hdrawn => simp [hdrawn] at h

/-- Only a draw leaves something on the screen when it goes wrong. -/
theorem execute_state_of_error_of_ne_draw {i : Instruction} {c : Console}
    {fault : Fault} (h : (c.execute i).error = some fault)
    (hdraw : ∀ x y rows, i ≠ .draw x y rows) :
    (c.execute i).state = c := by
  cases i with
  | ret => exact onMachine_state_of_eq (Machine.ret_state_of_error h)
  | call target => exact onMachine_state_of_eq (Machine.call_state_of_error h)
  | storeDigits x | storeRegisters x =>
      exact onMachine_state_of_eq (Machine.storeAtIndex_state_of_error h)
  | fillRegisters x =>
      exact onMachine_state_of_eq (Machine.fillRegisters_state_of_error h)
  | draw x y rows => exact absurd rfl (hdraw x y rows)
  | _ => simp [execute] at h

/-- An instruction that goes wrong leaves everything but the screen as it
was. -/
theorem execute_state_of_error {i : Instruction} {c : Console}
    {fault : Fault} (h : (c.execute i).error = some fault) :
    (c.execute i).state =
      { c with screen := (c.execute i).state.screen } := by
  by_cases hdraw : ∀ x y rows, i ≠ .draw x y rows
  · rw [execute_state_of_error_of_ne_draw h hdraw]
  · push Not at hdraw
    obtain ⟨x, y, rows, rfl⟩ := hdraw
    exact draw_state_of_error h

theorem execute_machine_of_error {i : Instruction} {c : Console}
    {fault : Fault} (h : (c.execute i).error = some fault) :
    (c.execute i).state.machine = c.machine := by
  rw [execute_state_of_error h]

end Console

namespace Machine

/-- Two machines have the same return slots and stack pointer. -/
structure SameStack (m n : Machine) : Prop where
  stack : n.stack = m.stack
  sp : n.sp = m.sp

namespace SameStack

theorem refl (m : Machine) : SameStack m m := ⟨rfl, rfl⟩

theorem trans {m n o : Machine} (hmn : SameStack m n) (hno : SameStack n o) :
    SameStack m o :=
  ⟨hno.stack.trans hmn.stack, hno.sp.trans hmn.sp⟩

end SameStack

theorem setReg_sameStack (m : Machine) (x : Register) (value : UInt8) :
    SameStack m (m.setReg x value) := ⟨rfl, rfl⟩

theorem skipIf_sameStack (m : Machine) (condition : Bool) :
    SameStack m (m.skipIf condition) := by
  cases condition <;> exact ⟨rfl, rfl⟩

theorem combine_sameStack (m : Machine) (op : Combination) (x y : Register) :
    SameStack m (m.combine op x y) := by
  simp only [combine]
  split
  · exact ⟨rfl, rfl⟩
  · exact ⟨rfl, rfl⟩

theorem storeAtIndex_sameStack (m : Machine) (data : List UInt8) :
    SameStack m (m.storeAtIndex data).state := ⟨rfl, rfl⟩

theorem setRegs_sameStack (m : Machine) (values : List UInt8) :
    SameStack m (m.setRegs values) := by
  constructor
  · simp only [setRegs]
  · simp only [setRegs]

theorem fillRegisters_sameStack (m : Machine) (x : Register) :
    SameStack m (m.fillRegisters x).state := by
  simp only [fillRegisters]
  split
  · exact .refl m
  · exact m.setRegs_sameStack _

/-- A store that goes well has found room for its block. -/
theorem storeAtIndex_eq_of_ok {m : Machine} {data : List UInt8}
    (h : (m.storeAtIndex data).error = none) :
    m.index.toNat + data.length ≤ Memory.size ∧
      m.storeAtIndex data =
        .ok { m with memory := m.memory.put m.index.toNat data } := by
  rcases Nat.lt_or_ge Memory.size (m.index.toNat + data.length) with
    hout | hfits
  · rw [storeAtIndex_of_lt hout] at h
    cases h
  · exact ⟨hfits, storeAtIndex_of_le hfits⟩

/-- A call that goes well has filled the slot after the one used last. -/
theorem call_eq_of_ok {m : Machine} {target : Address}
    (h : (m.call target).error = none) :
    (m.sp + 1).toNat < Stack.size ∧
      m.call target = .ok { m with
        stack := (m.stack.set (m.sp + 1) m.pc).state
        sp := m.sp + 1
        pc := target.toWord - Instruction.width } := by
  by_cases hslot : (m.sp + 1).toNat < Stack.size
  · exact ⟨hslot, call_of_slot target hslot⟩
  · rw [call_of_no_slot target hslot] at h
    cases h

/-- A return that goes well has taken its counter from the slot used last. -/
theorem ret_eq_of_ok {m : Machine} (h : m.ret.error = none) :
    m.sp ≠ 0 ∧ ∃ call, m.stack.get? m.sp = some call ∧
      m.ret = .ok { m with pc := call, sp := m.sp - 1 } := by
  simp only [ret] at h ⊢
  split at h
  · cases h
  next hsp =>
    split at h
    · cases h
    next call hslot =>
      rw [if_neg hsp, hslot]
      exact ⟨hsp, call, rfl, rfl⟩

end Machine

/-- Whether an instruction is there to move the return stack. -/
def Instruction.movesStack : Instruction → Bool
  | .call _ | .ret => true
  | _ => false

namespace Console

/-- Only calls and returns touch the return slots and the stack pointer. -/
theorem execute_sameStack {i : Instruction} (c : Console)
    (h : i.movesStack = false) :
    c.machine.SameStack (c.execute i).state.machine := by
  cases i with
  | call | ret => cases h
  | skip condition => exact c.machine.skipIf_sameStack _
  | combine op x y => exact c.machine.combine_sameStack op x y
  | storeDigits | storeRegisters => exact c.machine.storeAtIndex_sameStack _
  | fillRegisters x => exact c.machine.fillRegisters_sameStack x
  | draw x y rows =>
      rcases c.draw_machine x y rows with hdraw | ⟨flag, hdraw⟩
      · exact hdraw ▸ .refl _
      · exact hdraw ▸ c.machine.setReg_sameStack _ _
  | waitKey x =>
      simp only [execute, waitKey]
      split
      · exact ⟨rfl, rfl⟩
      · exact ⟨rfl, rfl⟩
  | _ => exact ⟨rfl, rfl⟩

end Console

end Chip8
