import Chip8.Proofs.Access
import Chip8.Proofs.Boot
import Chip8.Proofs.Effect
import Chip8.Proofs.Session
import Mathlib.Data.List.Infix

/-!
# The return slots as a list of open calls

Beside a session runs a list: a call that is carried out appends the counter it
was made from, and a return that is carried out drops the last one.  The slots
above the unused slot 0 hold exactly this list.  Calls and returns therefore go
wrong exactly when the list is full or empty, and a return goes on with the
instruction after the call that it belongs to.
-/

namespace Chip8

/-- The return slots hold these counters, oldest first, and nothing has been
put into slot 0. -/
structure Machine.Remembers (m : Machine) (calls : List UInt16) : Prop where
  sp : m.sp.toNat = calls.length
  room : calls.length ≤ 15
  unused : m.stack.get? 0 = some 0
  slots : ∀ k < calls.length,
    m.stack.get? (UInt8.ofNat (k + 1)) = calls[k]?

namespace Machine

variable {m n : Machine} {calls : List UInt16}

theorem remembers_nil (hstack : m.stack = .blank) (hsp : m.sp = 0) :
    m.Remembers [] where
  sp := by simp [hsp]
  room := by simp
  unused := by rw [hstack]; rfl
  slots := by simp

theorem Remembers.sp_le (h : m.Remembers calls) : m.sp.toNat ≤ 15 :=
  h.sp ▸ h.room

theorem Remembers.of_sameStack (h : m.Remembers calls)
    (hsame : m.SameStack n) : n.Remembers calls where
  sp := hsame.sp ▸ h.sp
  room := h.room
  unused := hsame.stack ▸ h.unused
  slots := hsame.stack ▸ h.slots

/-- A call with a free slot stores the counter there. -/
theorem Remembers.call (h : m.Remembers calls) (hroom : calls.length < 15)
    (target : Address) :
    ∃ called, m.call target = .ok called ∧
      called.Remembers (calls ++ [m.pc]) := by
  have hsp : (m.sp + 1).toNat = calls.length + 1 := by
    rw [UInt8.toNat_add, h.sp]
    simp only [UInt8.toNat_one]
    omega
  have hslots : (m.sp + 1).toNat < Stack.size := by
    simp only [hsp, Stack.size]
    omega
  have hget := Stack.get?_set (s := m.stack) hslots m.pc
  refine ⟨_, call_of_slot target hslots, ?_, ?_, ?_, ?_⟩
  · simpa using hsp
  · rw [List.length_append]
    exact hroom
  · have hne : (0 : UInt8) ≠ m.sp + 1 := by
      intro heq
      rw [← heq] at hsp
      simp at hsp
    simpa [hget, hne] using h.unused
  · intro k hk
    rw [List.length_append, List.length_singleton] at hk
    have hslot : (UInt8.ofNat (k + 1)).toNat = k + 1 := by
      rw [UInt8.toNat_ofNat']
      omega
    simp only [hget]
    by_cases hlast : k = calls.length
    · subst hlast
      have heq : UInt8.ofNat (calls.length + 1) = m.sp + 1 :=
        UInt8.toNat_inj.mp (hslot.trans hsp.symm)
      simp [heq]
    · have hne : UInt8.ofNat (k + 1) ≠ m.sp + 1 := by
        intro heq
        rw [heq, hsp] at hslot
        omega
      rw [if_neg hne, h.slots k (by omega),
        List.getElem?_append_left (by omega)]

theorem Remembers.call_full (h : m.Remembers calls)
    (hfull : calls.length = 15) (target : Address) :
    m.call target = .fail m (.stackOverflow m.pc) := by
  have hsp : m.sp = 15 := UInt8.toNat_inj.mp (h.sp.trans hfull)
  rw [call_eq target h.sp_le, if_pos hsp]

/-- A return takes the counter of the last open call from its slot. -/
theorem Remembers.ret {rest : List UInt16} {pc : UInt16}
    (h : m.Remembers (rest ++ [pc])) :
    m.ret = .ok { m with pc := pc, sp := m.sp - 1 } ∧
      { m with pc := pc, sp := m.sp - 1 }.Remembers rest := by
  have hlength : (rest ++ [pc]).length = rest.length + 1 := by simp
  have hsp : m.sp.toNat = rest.length + 1 := h.sp.trans hlength
  have hbound := h.room
  have hne : m.sp ≠ 0 := by
    intro hzero
    rw [hzero] at hsp
    simp at hsp
  have hslot : UInt8.ofNat (rest.length + 1) = m.sp := by
    rw [← hsp, UInt8.ofNat_toNat]
  have hget : m.stack.get? m.sp = some pc := by
    rw [← hslot, h.slots rest.length (by omega)]
    simp
  refine ⟨?_, ?_, ?_, ?_, ?_⟩
  · rw [ret_eq h.sp_le, if_neg hne, hget, Option.getD_some]
  · have hle : (1 : UInt8) ≤ m.sp := by
      rw [UInt8.le_iff_toNat_le, hsp]
      simp
    simp only [UInt8.toNat_sub_of_le _ _ hle, hsp]
    simp
  · omega
  · exact h.unused
  · intro k hk
    rw [h.slots k (by omega), List.getElem?_append_left hk]

theorem Remembers.ret_nil (h : m.Remembers []) :
    m.ret = .fail m (.stackUnderflow m.pc) := by
  have hsp : m.sp = 0 := UInt8.toNat_inj.mp h.sp
  rw [ret_eq h.sp_le, if_pos hsp]

end Machine

/-! ## The list of open calls -/

namespace Engine

/-- The calls that are open after a cycle of an engine: a call that is carried
out is added, and a return that is carried out takes the last one away. -/
def openAfter (calls : List UInt16) (e : Engine) : List UInt16 :=
  match e.cycle.error, e.instruction? with
  | none, some (.call _) => calls ++ [e.console.machine.pc]
  | none, some .ret => calls.dropLast
  | _, _ => calls

/-- The calls that are open after a number of cycles, oldest first. -/
def openCalls (cycles : List Engine) : List UInt16 :=
  cycles.foldl openAfter []

/-- Among the cycles after a call no return goes below the depth that the call
has reached, and in the end that depth is reached again. -/
def Balanced (earlier : List Engine) (caller : Engine)
    (between : List Engine) : Prop :=
  let depth (cycles : List Engine) :=
    (openCalls (earlier ++ caller :: cycles)).length
  (∀ inner, inner <+: between → depth [] ≤ depth inner) ∧
    depth between = depth []

variable {e : Engine} {calls : List UInt16}

theorem openAfter_of_error {fault : Fault} (h : e.cycle.error = some fault) :
    openAfter calls e = calls := by
  simp [openAfter, h]

theorem openAfter_of_sameStack
    (h : ∀ i, e.instruction? = some i → i.movesStack = false) :
    openAfter calls e = calls := by
  cases hahead : e.instruction? with
  | none => cases herror : e.cycle.error <;> simp [openAfter, hahead, herror]
  | some i =>
      have hmoves := h i hahead
      cases i with
      | call | ret => cases hmoves
      | _ => cases herror : e.cycle.error <;> simp [openAfter, hahead, herror]

theorem openAfter_of_call {target : Address}
    (hahead : e.instruction? = some (.call target))
    (hok : e.cycle.error = none) :
    openAfter calls e = calls ++ [e.console.machine.pc] := by
  simp [openAfter, hahead, hok]

theorem openAfter_of_ret (hahead : e.instruction? = some .ret)
    (hok : e.cycle.error = none) :
    openAfter calls e = calls.dropLast := by
  simp [openAfter, hahead, hok]

theorem openAfter_cases (calls : List UInt16) (e : Engine) :
    openAfter calls e = calls ∨
      openAfter calls e = calls ++ [e.console.machine.pc] ∨
      openAfter calls e = calls.dropLast := by
  cases herror : e.cycle.error with
  | some fault => exact Or.inl (openAfter_of_error herror)
  | none =>
      by_cases hmoves : ∀ i, e.instruction? = some i → i.movesStack = false
      · exact Or.inl (openAfter_of_sameStack hmoves)
      · push Not at hmoves
        obtain ⟨i, hahead, hmoves⟩ := hmoves
        cases i with
        | call target => exact Or.inr (Or.inl (openAfter_of_call hahead herror))
        | ret => exact Or.inr (Or.inr (openAfter_of_ret hahead herror))
        | _ => exact absurd rfl hmoves

/-- A cycle ahead of a call goes as the call does. -/
theorem cycle_call {target : Address}
    (hahead : e.instruction? = some (.call target))
    (h : e.console.machine.Remembers calls) :
    (e.cycle.error = some (.stackOverflow e.console.machine.pc) ↔
        calls.length = 15) ∧
      (calls.length < 15 → e.cycle.error = none ∧
        e.cycle.state.console.machine.Remembers
          (calls ++ [e.console.machine.pc])) := by
  have hgood : calls.length < 15 → e.cycle.error = none ∧
      e.cycle.state.console.machine.Remembers
        (calls ++ [e.console.machine.pc]) := by
    intro hroom
    obtain ⟨called, hcall, hcalled⟩ := h.call hroom target
    have hexecute : e.console.execute (.call target) =
        .ok (e.console.withMachine called) :=
      Console.onMachine_of_ok (·.call target) hcall
    obtain ⟨herror, hconsole⟩ := cycle_of_execute_ok hahead
      (by rw [hexecute, Outcome.error_ok])
    refine ⟨herror, ?_⟩
    rw [hconsole, hexecute]
    exact hcalled.of_sameStack ⟨rfl, rfl⟩
  refine ⟨⟨?_, ?_⟩, hgood⟩
  · intro herror
    by_contra hne
    have hroom : calls.length < 15 := lt_of_le_of_ne h.room hne
    rw [(hgood hroom).1] at herror
    cases herror
  · intro hfull
    have hexecute : e.console.execute (.call target) =
        .fail e.console (.stackOverflow e.console.machine.pc) :=
      Console.onMachine_of_fail (·.call target) (h.call_full hfull target)
    exact (cycle_of_execute_error hahead
      (by rw [hexecute, Outcome.error_fail])).1

/-- A cycle ahead of a return goes wrong without open calls, and else goes on
after the last of them. -/
theorem cycle_ret (hahead : e.instruction? = some .ret)
    (h : e.console.machine.Remembers calls) :
    (e.cycle.error = some (.stackUnderflow e.console.machine.pc) ↔
        calls = []) ∧
      (∀ rest pc, calls = rest ++ [pc] → e.cycle.error = none ∧
        e.cycle.state.console.machine.pc = pc + 2 ∧
        e.cycle.state.console.machine.Remembers rest) := by
  have hgood : ∀ rest pc, calls = rest ++ [pc] → e.cycle.error = none ∧
      e.cycle.state.console.machine.pc = pc + 2 ∧
      e.cycle.state.console.machine.Remembers rest := by
    rintro rest pc rfl
    obtain ⟨hret, hreturned⟩ := h.ret
    have hexecute : e.console.execute .ret =
        .ok (e.console.withMachine
          { e.console.machine with
            pc := pc, sp := e.console.machine.sp - 1 }) :=
      Console.onMachine_of_ok Machine.ret hret
    obtain ⟨herror, hconsole⟩ := cycle_of_execute_ok hahead
      (by rw [hexecute, Outcome.error_ok])
    refine ⟨herror, ?_, ?_⟩
    · rw [hconsole, hexecute]
      rfl
    · rw [hconsole, hexecute]
      exact hreturned.of_sameStack ⟨rfl, rfl⟩
  refine ⟨⟨?_, ?_⟩, hgood⟩
  · intro herror
    rcases List.eq_nil_or_concat calls with hnil | ⟨rest, pc, hconcat⟩
    · exact hnil
    · rw [List.concat_eq_append] at hconcat
      rw [(hgood rest pc hconcat).1] at herror
      cases herror
  · rintro rfl
    have hexecute : e.console.execute .ret =
        .fail e.console (.stackUnderflow e.console.machine.pc) :=
      Console.onMachine_of_fail Machine.ret h.ret_nil
    exact (cycle_of_execute_error hahead
      (by rw [hexecute, Outcome.error_fail])).1

/-- Whatever a cycle carries out, the slots go on holding the open calls. -/
theorem cycle_remembers (h : e.console.machine.Remembers calls) :
    e.cycle.state.console.machine.Remembers (openAfter calls e) := by
  cases hahead : e.instruction? with
  | none =>
      have hopen : openAfter calls e = calls := by
        apply openAfter_of_sameStack
        simp [hahead]
      rw [hopen]
      cases hword : e.word with
      | error fault =>
          rw [cycle_of_word_error hword]
          exact h
      | ok word =>
          have hdecode : Instruction.decode word = none := by
            simpa [instruction?, hword] using hahead
          rw [(cycle_of_decode_none hword hdecode).2]
          exact h.of_sameStack ⟨rfl, rfl⟩
  | some i =>
      cases hexecute : (e.console.execute i).error with
      | some fault =>
          obtain ⟨herror, hconsole⟩ := cycle_of_execute_error hahead hexecute
          rw [openAfter_of_error herror, hconsole,
            Console.execute_machine_of_error hexecute]
          exact h
      | none =>
          obtain ⟨hok, hconsole⟩ := cycle_of_execute_ok hahead hexecute
          cases hmoves : i.movesStack with
          | false =>
              have hopen : openAfter calls e = calls := by
                apply openAfter_of_sameStack
                intro j hj
                rw [hahead] at hj
                exact Option.some.inj hj ▸ hmoves
              rw [hopen, hconsole]
              have hsame := e.console.execute_sameStack hmoves
              exact h.of_sameStack (hsame.trans ⟨rfl, rfl⟩)
          | true =>
              cases i with
              | call target =>
                  rw [openAfter_of_call hahead hok]
                  obtain ⟨hfull, hgood⟩ := cycle_call hahead h
                  apply (hgood _).2
                  apply lt_of_le_of_ne h.room
                  intro hlength
                  rw [hfull.mpr hlength] at hok
                  cases hok
              | ret =>
                  rw [openAfter_of_ret hahead hok]
                  obtain ⟨hempty, hgood⟩ := cycle_ret hahead h
                  rcases List.eq_nil_or_concat calls with
                    hnil | ⟨rest, pc, hconcat⟩
                  · rw [hempty.mpr hnil] at hok
                    cases hok
                  · rw [List.concat_eq_append] at hconcat
                    rw [hconcat, List.dropLast_concat]
                    exact (hgood rest pc hconcat).2.2
              | _ => cases hmoves

theorem openCalls_concat (done : List Engine) (engine : Engine) :
    openCalls (done ++ [engine]) = openAfter (openCalls done) engine := by
  rw [openCalls, List.foldl_concat, openCalls]

theorem openCalls_step (done : List Engine) (engine : Engine)
    (h : engine.console.machine.Remembers (openCalls done)) :
    engine.cycle.state.console.machine.Remembers
      (openCalls (done ++ [engine])) := by
  rw [openCalls_concat]
  exact cycle_remembers h

theorem openCalls_countDown (done : List Engine) (machine : Machine)
    (h : machine.Remembers (openCalls done)) :
    machine.countDown.Remembers (openCalls done) :=
  h.of_sameStack ⟨rfl, rfl⟩

/-- Calls that stay open below the depth that some cycles go down to stay as
they are. -/
theorem isPrefix_foldl_openAfter {base : List UInt16} {cycles : List Engine}
    (hbase : base <+: calls)
    (hdepth : ∀ inner, inner <+: cycles →
      base.length ≤ (inner.foldl openAfter calls).length) :
    base <+: cycles.foldl openAfter calls := by
  induction cycles generalizing calls with
  | nil => exact hbase
  | cons e rest ih =>
      have hstep : base <+: openAfter calls e := by
        have hlength := hdepth [e] (by simp)
        rw [List.foldl_cons, List.foldl_nil] at hlength
        rcases openAfter_cases calls e with hsame | hpushed | hpopped
        · rw [hsame]
          exact hbase
        · rw [hpushed]
          exact hbase.trans (List.prefix_append _ _)
        · rw [hpopped] at hlength ⊢
          rw [List.dropLast_eq_take, List.prefix_take_iff]
          exact ⟨hbase, List.length_dropLast ▸ hlength⟩
      apply ih hstep
      intro inner hinner
      exact hdepth (e :: inner) (List.cons_prefix_cons.mpr ⟨rfl, hinner⟩)

end Engine

namespace Emulator

open Engine

variable {rom : Program} {latch : Latch} {config : Config}
  {source : Tape Nat} {entropy : Entropy} {e : Emulator}

theorem boot_remembers (h : boot rom latch config source entropy = .ok e) :
    e.machine.Remembers [] := by
  obtain ⟨-, hmachine⟩ := boot_machine h
  apply Machine.remembers_nil
  · rw [hmachine]
    rfl
  · rw [hmachine]
    rfl

theorem run_remembers (hboot : boot rom latch config source entropy = .ok e)
    {requests : List Request}
    (hspares : ∀ request ∈ requests, request.sparesMachine = true) :
    (e.run requests).1.machine.Remembers (openCalls (e.cycles requests)) :=
  run_history openCalls_step openCalls_countDown (boot_paced hboot) hspares []
    (boot_remembers hboot)

theorem cycles_remember
    (hboot : boot rom latch config source entropy = .ok e)
    {requests : List Request}
    (hspares : ∀ request ∈ requests, request.sparesMachine = true)
    {earlier later : List Engine} {engine : Engine}
    (hcycles : e.cycles requests = earlier ++ engine :: later) :
    engine.console.machine.Remembers (openCalls earlier) :=
  cycles_history openCalls_step openCalls_countDown (boot_paced hboot) hspares
    (boot_remembers hboot) hcycles

/-- A return goes on after the call that it belongs to. -/
theorem ret_pc_of_balanced
    (hboot : boot rom latch config source entropy = .ok e)
    {requests : List Request}
    (hspares : ∀ request ∈ requests, request.sparesMachine = true)
    {earlier between later : List Engine} {caller returner : Engine}
    (hcycles : e.cycles requests =
      earlier ++ caller :: between ++ returner :: later)
    {target : Address}
    (hcall : caller.instruction? = some (.call target))
    (hcalled : caller.cycle.error = none)
    (hbalanced : Balanced earlier caller between)
    (hret : returner.instruction? = some .ret) :
    returner.cycle.error = none ∧
      returner.cycle.state.console.machine.pc =
        caller.console.machine.pc + 2 := by
  have hopen : openCalls (earlier ++ [caller]) =
      openCalls earlier ++ [caller.console.machine.pc] := by
    rw [openCalls_concat]
    exact openAfter_of_call hcall hcalled
  have hsplit (inner : List Engine) :
      openCalls (earlier ++ caller :: inner) =
        inner.foldl openAfter (openCalls (earlier ++ [caller])) := by
    rw [openCalls, openCalls, List.append_cons, List.foldl_append]
  have hkept : openCalls (earlier ++ [caller]) <+:
      openCalls (earlier ++ caller :: between) := by
    rw [hsplit between]
    apply isPrefix_foldl_openAfter (List.prefix_refl _)
    intro inner hinner
    rw [← hsplit]
    exact hbalanced.1 inner hinner
  have hcalls : openCalls (earlier ++ caller :: between) =
      openCalls earlier ++ [caller.console.machine.pc] := by
    rw [← hopen]
    exact (hkept.eq_of_length hbalanced.2.symm).symm
  have hremembers := cycles_remember hboot hspares hcycles
  obtain ⟨-, hgood⟩ := cycle_ret hret hremembers
  obtain ⟨hok, hpc, -⟩ := hgood _ _ hcalls
  exact ⟨hok, hpc⟩

/-- The return slots refine the list of open calls.  In every session that
leaves the machine alone they hold it, at the end and wherever a word is
carried out; there a return goes wrong exactly if the list is empty and else
goes on after its last call, a call goes wrong exactly if the list has fifteen
entries; and so a return goes on after the call that it belongs to. -/
theorem slots_refine_openCalls (rom : Program) (latch : Latch)
    (config : Config) (source : Tape Nat) (entropy : Entropy)
    (e : Emulator) (hboot : boot rom latch config source entropy = .ok e)
    (requests : List Request)
    (hspares : ∀ request ∈ requests, request.sparesMachine = true) :
    (e.run requests).1.machine.Remembers (openCalls (e.cycles requests)) ∧
    (∀ (earlier : List Engine) (engine : Engine) (later : List Engine),
      e.cycles requests = earlier ++ engine :: later →
      let calls := openCalls earlier
      let pc := engine.console.machine.pc
      engine.console.machine.Remembers calls ∧
      (engine.instruction? = some .ret →
        (engine.cycle.error = some (.stackUnderflow pc) ↔ calls = []) ∧
        ∀ rest call, calls = rest ++ [call] →
          engine.cycle.error = none ∧
          engine.cycle.state.console.machine.pc = call + 2) ∧
      (∀ target, engine.instruction? = some (.call target) →
        (engine.cycle.error = some (.stackOverflow pc) ↔
          calls.length = 15) ∧
        (calls.length < 15 → engine.cycle.error = none))) ∧
    (∀ (earlier : List Engine) (caller : Engine) (between : List Engine)
        (returner : Engine) (later : List Engine) (target : Address),
      e.cycles requests =
        earlier ++ caller :: between ++ returner :: later →
      caller.instruction? = some (.call target) →
      caller.cycle.error = none →
      Balanced earlier caller between →
      returner.instruction? = some .ret →
      returner.cycle.error = none ∧
        returner.cycle.state.console.machine.pc =
          caller.console.machine.pc + 2) := by
  refine ⟨run_remembers hboot hspares, ?_, ?_⟩
  · intro earlier engine later hcycles calls pc
    have hremembers := cycles_remember hboot hspares hcycles
    refine ⟨hremembers, ?_, ?_⟩
    · intro hret
      obtain ⟨hempty, hgood⟩ := cycle_ret hret hremembers
      refine ⟨hempty, ?_⟩
      intro rest call hcalls
      obtain ⟨hok, hpc, -⟩ := hgood rest call hcalls
      exact ⟨hok, hpc⟩
    · intro target hcall
      obtain ⟨hfull, hgood⟩ := cycle_call hcall hremembers
      exact ⟨hfull, fun hroom => (hgood hroom).1⟩
  · intro earlier caller between returner later target hcycles hcall hcalled
      hbalanced hret
    exact ret_pc_of_balanced hboot hspares hcycles hcall hcalled hbalanced
      hret

/-- A program that starts with a call holds its counter while the subroutine
loads a register, and returns to the word after the call. -/
theorem slots_hold_call_until_return :
    let rom : Program := [0x22, 0x04, 0x00, 0xE0, 0x60, 0x07, 0x00, 0xEE]
    let requests := [Request.step, .step, .step]
    ∃ e, boot rom (fun _ => none) {} (.ofCells fun n => n)
        (fun _ => .ofCells fun _ => 0) = .ok e ∧
      (∀ request ∈ requests, request.sparesMachine = true) ∧
      ∃ caller inside returner,
        e.cycles requests = [caller, inside, returner] ∧
        caller.instruction? = some (.call 0x204) ∧
        caller.cycle.error = none ∧
        Balanced [] caller [inside] ∧
        returner.instruction? = some .ret ∧
        returner.console.machine.Remembers [0x200] ∧
        returner.cycle.error = none ∧
        returner.cycle.state.console.machine.pc = 0x202 := by
  intro rom requests
  obtain ⟨e, hboot, hrunning, hcall, hpc, hcalled, hopen, hret⟩ : ∃ e,
      boot rom (fun _ => none) {} (.ofCells fun n => n)
        (fun _ => .ofCells fun _ => 0) = .ok e ∧
      (e.fault = none ∧ e.step.state.fault = none ∧
        e.step.state.step.state.fault = none) ∧
      e.engine.instruction? = some (.call 0x204) ∧
      e.engine.console.machine.pc = 0x200 ∧
      e.engine.cycle.error = none ∧
      (openCalls [e.engine] = [0x200] ∧
        openCalls [e.engine, e.step.state.engine] = [0x200]) ∧
      e.step.state.step.state.engine.instruction? = some .ret :=
    ⟨_, rfl, by decide +kernel, by decide +kernel, by decide +kernel,
      by decide +kernel, by decide +kernel, by decide +kernel⟩
  have hspares : ∀ request ∈ requests, request.sparesMachine = true := by
    simp [requests, Request.sparesMachine]
  have hcycles : e.cycles requests =
      [e.engine, e.step.state.engine, e.step.state.step.state.engine] := by
    simp [requests, cycles, carriesOut, answer, replyTo, hrunning]
  have hbalanced : Balanced [] e.engine [e.step.state.engine] := by
    constructor
    · intro inner hinner
      rcases List.prefix_cons_iff.mp hinner with rfl | ⟨rest, rfl, hrest⟩
      · exact Nat.le_refl _
      · simp [List.prefix_nil.mp hrest, hopen]
    · simp [hopen]
  obtain ⟨-, hheld, hmatched⟩ :=
    slots_refine_openCalls rom _ _ _ _ e hboot requests hspares
  have hremembers := (hheld [e.engine, e.step.state.engine] _ [] hcycles).1
  rw [hopen.2] at hremembers
  have hback := hmatched [] e.engine [e.step.state.engine] _ [] 0x204 hcycles
    hcall hcalled hbalanced hret
  rw [hpc] at hback
  exact ⟨e, hboot, hspares, _, _, _, hcycles, hcall, hcalled, hbalanced, hret,
    hremembers, hback⟩

end Emulator

end Chip8
