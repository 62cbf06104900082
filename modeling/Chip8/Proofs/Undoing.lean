import Chip8.ControlUnit
import Chip8.Proofs.Access
import Chip8.Proofs.Effect

/-!
# Returns that undo calls

A call fills the slot after the one used last, and a return takes the counter
back out of the slot used last.  So a return undoes a call, whatever happens in
between to anything but the slots and the stack pointer, and a call that finds
no slot is refused.

The exception is a stack pointer of 255.  The slot after it is found by a sum
that wraps around, so that a call fills slot 0, and no return ever looks there.
-/

namespace Chip8

namespace Machine

variable {m : Machine}

theorem exists_call_of_slot (target : Address)
    (hslot : (m.sp + 1).toNat < Stack.size) :
    ∃ called, m.call target = .ok called ∧ called.sp = m.sp + 1 ∧
      called.stack.get? (m.sp + 1) = some m.pc := by
  refine ⟨_, call_of_slot target hslot, rfl, ?_⟩
  exact (Stack.get?_set hslot _ _).trans (if_pos rfl)

/-- Only past the last pointer does the next one come to be 0. -/
theorem next_sp_eq_zero_iff : m.sp + 1 = 0 ↔ m.sp = 255 := by
  constructor
  · intro h
    grind
  · intro h
    rw [h]
    rfl

end Machine

namespace Console

/-- An operation touches neither the return slots nor the stack pointer. -/
def KeepsStack (op : Operation Console) : Prop :=
  ∀ c : Console, c.machine.SameStack (op c).state.machine

/-- What operations leave that are done one after another, whether or not they
go wrong. -/
def after (c : Console) (ops : List (Operation Console)) : Console :=
  ops.foldl (fun d op => (op d).state) c

theorem keepsStack_execute {i : Instruction} (h : i.movesStack = false) :
    KeepsStack (execute i) :=
  fun c => c.execute_sameStack h

theorem after_sameStack {ops : List (Operation Console)}
    (hkeep : ∀ op ∈ ops, KeepsStack op) (c : Console) :
    c.machine.SameStack (c.after ops).machine := by
  induction ops generalizing c with
  | nil => exact .refl c.machine
  | cons op rest ih =>
      have hfirst := hkeep op List.mem_cons_self c
      have hrest := ih (fun other hother =>
        hkeep other (List.mem_cons_of_mem op hother)) (op c).state
      exact hfirst.trans hrest

/-- A call is refused and changes nothing, or it is carried out and a return
takes it back: at once, or after operations that keep the stack. -/
def CallComesBack (c : Console) (target : Address) : Prop :=
  c.execute (.call target) = .fail c (.stackOverflow c.machine.pc) ∨
  ∃ called, c.execute (.call target) = .ok called ∧
    ∀ between : List (Operation Console), (∀ op ∈ between, KeepsStack op) →
      let later := called.after between
      later.execute .ret = .ok (later.withMachine { later.machine with
        pc := c.machine.pc
        sp := c.machine.sp })

variable {c : Console}

theorem callComesBack_of_ne (target : Address) (hsp : c.machine.sp ≠ 255) :
    c.CallComesBack target := by
  by_cases hslot : (c.machine.sp + 1).toNat < Stack.size
  · right
    obtain ⟨called, hcall, hpointer, hfilled⟩ :=
      Machine.exists_call_of_slot target hslot
    refine ⟨c.withMachine called, onMachine_of_ok (·.call target) hcall, ?_⟩
    intro between hkeep later
    have hsame := after_sameStack hkeep (c.withMachine called)
    have hlater : later.machine.sp = c.machine.sp + 1 :=
      hsame.sp.trans hpointer
    have hne : later.machine.sp ≠ 0 := by
      rw [hlater]
      exact mt Machine.next_sp_eq_zero_iff.mp hsp
    have hfound : later.machine.stack.get? later.machine.sp =
        some c.machine.pc := by
      rw [hlater, hsame.stack]
      exact hfilled
    have hback : later.machine.sp - 1 = c.machine.sp := by
      rw [hlater, UInt8.add_sub_cancel]
    have hret := Machine.ret_of_slot hne hfound
    rw [hback] at hret
    exact onMachine_of_ok Machine.ret hret
  · left
    exact onMachine_of_fail (·.call target)
      (Machine.call_of_no_slot target hslot)

/-- The call from the last pointer goes well, and no return takes it back. -/
theorem call_of_sp_last (target : Address) (hsp : c.machine.sp = 255) :
    ∃ called, c.execute (.call target) = .ok called ∧
      ∀ between : List (Operation Console), (∀ op ∈ between, KeepsStack op) →
        let later := called.after between
        later.execute .ret =
          .fail later (.stackUnderflow later.machine.pc) := by
  have hnext : c.machine.sp + 1 = 0 := Machine.next_sp_eq_zero_iff.mpr hsp
  have hslot : (c.machine.sp + 1).toNat < Stack.size := by
    rw [hnext]
    decide
  obtain ⟨called, hcall, hpointer, -⟩ :=
    Machine.exists_call_of_slot target hslot
  refine ⟨c.withMachine called, onMachine_of_ok (·.call target) hcall, ?_⟩
  intro between hkeep later
  have hsame := after_sameStack hkeep (c.withMachine called)
  have hlater : later.machine.sp = 0 :=
    hsame.sp.trans (hpointer.trans hnext)
  exact onMachine_of_fail Machine.ret (Machine.ret_of_sp_zero hlater)

theorem not_callComesBack_of_sp_last (target : Address)
    (hsp : c.machine.sp = 255) : ¬c.CallComesBack target := by
  obtain ⟨called, hcall, hlost⟩ := call_of_sp_last target hsp
  have hreturn : called.execute .ret =
      .fail called (.stackUnderflow called.machine.pc) := hlost [] (by simp)
  rintro (hrefused | ⟨other, hother, hreturns⟩)
  · rw [hcall] at hrefused
    cases congrArg Outcome.error hrefused
  · obtain rfl : called = other :=
      congrArg Outcome.state (hcall.symm.trans hother)
    have hfound := congrArg Outcome.error (hreturns [] (by simp))
    have hfault := congrArg Outcome.error hreturn
    cases hfault.symm.trans hfound

/-- A call comes back from every stack pointer but the last one.  From there
it goes well, and every return that follows finds nothing to go back to.  The
operations that may come in between are those of all instructions but calls and
returns. -/
theorem call_comes_back_iff (c : Console) (target : Address) :
    (c.CallComesBack target ↔ c.machine.sp ≠ 255) ∧
    (c.machine.sp = 255 →
      ∃ called, c.execute (.call target) = .ok called ∧
        ∀ between : List (Operation Console),
          (∀ op ∈ between, KeepsStack op) →
          let later := called.after between
          later.execute .ret =
            .fail later (.stackUnderflow later.machine.pc)) ∧
    (∀ i : Instruction, i.movesStack = false → KeepsStack (execute i)) := by
  refine ⟨⟨?_, callComesBack_of_ne target⟩, call_of_sp_last target,
    fun _ => keepsStack_execute⟩
  intro hback hsp
  exact not_callComesBack_of_sp_last target hsp hback

/-- A call from the last slot but one comes back after a draw that goes wrong
and a byte that is put into the register that the draw reads. -/
theorem call_comes_back_from_fourteen :
    let c : Console :=
      ⟨{ Machine.blank with sp := 14, index := 0xFFF }, .blank,
        fun _ => none, .ofCells fun _ => 0⟩
    let between : List (Operation Console) :=
      [execute (.draw .first .flag (Nibble.ofNat 2)),
        execute (.setByte .first 0xAB)]
    ∃ called later, c.execute (.call (Address.ofNat 0x300)) = .ok called ∧
      called.machine.sp = 15 ∧
      called.after between = later ∧ later.machine.reg .first = 0xAB ∧
      (later.execute .ret).error = none ∧
      (later.execute .ret).state.machine.pc = 0x200 ∧
      (later.execute .ret).state.machine.sp = 14 := by
  intro c between
  obtain ⟨hiff, -, hkeeps⟩ := call_comes_back_iff c (Address.ofNat 0x300)
  have hkeep : ∀ op ∈ between, KeepsStack op := by
    intro op hop
    rw [List.mem_cons, List.mem_singleton] at hop
    rcases hop with rfl | rfl
    · exact hkeeps _ rfl
    · exact hkeeps _ rfl
  rcases hiff.mpr (by decide) with hrefused | ⟨called, hcall, hreturns⟩
  · have herror : (c.execute (.call (Address.ofNat 0x300))).error = none := by
      decide +kernel
    rw [hrefused] at herror
    cases herror
  · have hcalled : called = (c.execute (.call (Address.ofNat 0x300))).state := by
      rw [hcall, Outcome.state_ok]
    refine ⟨called, _, hcall, ?_, rfl, ?_, ?_⟩
    · rw [hcalled]
      decide +kernel
    · rw [hcalled]
      decide +kernel
    · rw [hreturns between hkeep]
      exact ⟨rfl, rfl, rfl⟩

/-- A call from pointer 255 puts the counter into slot 0 and goes on, and the
return that follows it has nowhere to go. -/
theorem call_lost_from_last_pointer :
    let c : Console :=
      ⟨{ Machine.blank with sp := 255 }, .blank, fun _ => none,
        .ofCells fun _ => 0⟩
    let target := Address.ofNat 0x300
    let called := (c.execute (.call target)).state
    (c.execute (.call target)).error = none ∧
      called.machine.stack.get? 0 = some 0x200 ∧
      (called.execute .ret).error = some (.stackUnderflow 0x2FE) ∧
      ¬c.CallComesBack target := by
  intro c target called
  exact ⟨by decide +kernel, by decide +kernel, by decide +kernel,
    not_callComesBack_of_sp_last target rfl⟩

end Console

end Chip8
