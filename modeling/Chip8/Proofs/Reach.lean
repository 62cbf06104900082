import Chip8.Proofs.Access
import Chip8.Proofs.Footprint
import Mathlib.Data.List.Basic

/-!
# How far the counter gets

Sums with the counter are taken in sixteen bits and could wrap around.  They do
not, because a word can only be fetched from memory, and because each return
slot holds the address that some word was fetched from: from there the counter
gets no further than one jump with an offset takes it.  A program that leaves
memory at its end therefore goes wrong at once and does not go on at its start.
-/

namespace Chip8

/-- The counter is no further than a jump with the largest offset takes it, and
each return slot holds the address of a word in memory. -/
structure Machine.InReach (m : Machine) : Prop where
  counter : m.pc.toNat ≤ 0x10FE
  slots : ∀ slot call, m.stack.get? slot = some call → call.toNat ≤ 0xFFE

namespace Console

/-- Where the counter is headed in a cycle, by the instruction of its word, as a
number without bound. -/
def heading (c : Console) : Option Instruction → Nat
  | some (.jump target) | some (.call target) => target.val
  | some (.jumpOffset target) => target.val + (c.machine.reg .first).toNat
  | some .ret => ((c.machine.stack.get? c.machine.sp).getD 0).toNat + 2
  | some (.skip condition) =>
    c.machine.pc.toNat + if condition.holds c.machine c.latch then 4 else 2
  | some (.waitKey _) =>
    c.machine.pc.toNat + if c.latch.firstPressed?.isSome then 2 else 0
  | _ => c.machine.pc.toNat + 2

/-- Whether an instruction takes the counter two short of where it is headed,
for the step past its word to make that good. -/
def aimsShort (c : Console) : Instruction → Bool
  | .jump _ | .call _ | .jumpOffset _ => true
  | .waitKey _ => c.latch.firstPressed?.isNone
  | _ => false

end Console

/-- No sum that a cycle makes with the counter needs more than sixteen bits,
except where the step past a word makes good what its instruction aims short. -/
structure Engine.SumsFit (e : Engine) : Prop where
  skipped : ∀ condition, e.instruction? = some (.skip condition) →
    e.console.machine.pc.toNat + 2 < 65536
  offset : ∀ target, e.instruction? = some (.jumpOffset target) →
    target.toWord.toNat + (e.console.machine.reg .first).toNat < 65536
  passedOver : ∀ word, e.word = .ok word → Instruction.decode word = none →
    e.console.machine.pc.toNat + 2 < 65536
  advanced : e.cycle.error = none → ∀ i, e.instruction? = some i →
    e.console.aimsShort i = false →
      (e.console.execute i).state.machine.pc.toNat + 2 < 65536

namespace Machine

variable {m : Machine}

theorem call_slots {target : Address} (h : (m.call target).error = none)
    (slot : UInt8) :
    (m.call target).state.stack.get? slot =
      if slot = m.sp + 1 then some m.pc else m.stack.get? slot := by
  obtain ⟨hslot, hcall⟩ := call_eq_of_ok h
  rw [hcall]
  exact Stack.get?_set hslot _ _

theorem ret_stack (h : m.ret.error = none) :
    m.ret.state.stack = m.stack := by
  obtain ⟨-, call, -, hret⟩ := ret_eq_of_ok h
  rw [hret, Outcome.state_ok]

end Machine

theorem Address.toNat_toWord (target : Address) :
    target.toWord.toNat = target.val := by
  rw [toWord, UInt16.toNat_ofNat']
  omega

theorem toNat_add_of_fits {a b : UInt16}
    (hfit : a.toNat + b.toNat < 65536) :
    (a + b).toNat = a.toNat + b.toNat := by
  rw [UInt16.toNat_add]
  exact Nat.mod_eq_of_lt hfit

namespace Console

variable {c : Console}

/-- What a slot holds after an instruction it held before, unless it is the
counter of a call. -/
theorem execute_slots {i : Instruction} (hok : (c.execute i).error = none)
    {slot : UInt8} {call : UInt16}
    (hslot : (c.execute i).state.machine.stack.get? slot = some call) :
    c.machine.stack.get? slot = some call ∨ call = c.machine.pc := by
  cases hmoves : i.movesStack with
  | false =>
      left
      rwa [(c.execute_sameStack hmoves).stack] at hslot
  | true =>
      cases i with
      | call target =>
          rw [execute, onMachine_machine, Machine.call_slots hok] at hslot
          split at hslot
          · exact Or.inr (Option.some.inj hslot).symm
          · exact Or.inl hslot
      | ret =>
          rw [execute, onMachine_machine, Machine.ret_stack hok] at hslot
          exact Or.inl hslot
      | _ => cases hmoves

/-- In reach, the counter arrives where it is headed without wrapping
around. -/
theorem GoesTo.toNat_eq {next : UInt16} {i : Option Instruction}
    (h : c.GoesTo next i) (hreach : c.machine.InReach)
    (hpc : c.machine.pc.toNat ≤ 0xFFE) :
    next.toNat = c.heading i := by
  have htwo : (2 : UInt16).toNat = 2 := rfl
  have hfour : (4 : UInt16).toNat = 4 := rfl
  have hnext : (c.machine.pc + 2).toNat = c.machine.pc.toNat + 2 :=
    toNat_add_of_fits (by omega)
  cases i with
  | none =>
      have heq : next = c.machine.pc + 2 := h
      rw [heq]
      exact hnext
  | some i =>
      cases i with
      | jump target | call target =>
          have heq : next = target.toWord := h
          rw [heq]
          exact target.toNat_toWord
      | jumpOffset target =>
          have heq : next = target.toWord +
              (c.machine.reg .first).toUInt16 := h
          have hbyte := (c.machine.reg .first).toNat_lt
          have hword := target.toNat_toWord
          have hreg := (c.machine.reg .first).toNat_toUInt16
          have hfit : target.toWord.toNat +
              (c.machine.reg .first).toUInt16.toNat < 65536 := by omega
          rw [heq, toNat_add_of_fits hfit, hword, hreg]
          rfl
      | ret =>
          obtain ⟨call, hslot, rfl⟩ := h
          have hcall := hreach.slots _ call hslot
          have hfit : call.toNat + (2 : UInt16).toNat < 65536 := by omega
          rw [toNat_add_of_fits hfit, htwo]
          change _ = ((c.machine.stack.get? c.machine.sp).getD 0).toNat + 2
          rw [hslot, Option.getD_some]
      | skip condition =>
          change _ = c.machine.pc.toNat +
            if condition.holds c.machine c.latch then 4 else 2
          rcases h with ⟨hmet, rfl⟩ | ⟨hmet, rfl⟩
          · have hholds := (condition.holds_iff_met _ _).mpr hmet
            have hfit : c.machine.pc.toNat + (4 : UInt16).toNat <
                65536 := by omega
            rw [toNat_add_of_fits hfit, hfour, if_pos hholds]
          · have hholds := mt (condition.holds_iff_met _ _).mp hmet
            rw [hnext, if_neg hholds]
      | waitKey x =>
          change _ = c.machine.pc.toNat +
            if c.latch.firstPressed?.isSome then 2 else 0
          rcases h with ⟨⟨key, hdown⟩, rfl⟩ | ⟨hup, rfl⟩
          · have hfirst : c.latch.firstPressed?.isSome = true := by
              rw [Option.isSome_iff_ne_none]
              intro hnone
              exact Latch.firstPressed?_eq_none_iff.mp hnone key hdown
            rw [hnext, if_pos hfirst]
          · have hfirst := Latch.firstPressed?_eq_none_iff.mpr hup
            rw [hfirst]
            rfl
      | _ =>
          have heq : next = c.machine.pc + 2 := h
          rw [heq]
          exact hnext

theorem heading_le (hreach : c.machine.InReach)
    (hpc : c.machine.pc.toNat ≤ 0xFFE) (i : Option Instruction) :
    c.heading i ≤ 0x10FE := by
  cases i with
  | none =>
      change c.machine.pc.toNat + 2 ≤ _
      omega
  | some i =>
      cases i with
      | jump target | call target =>
          change target.val ≤ _
          omega
      | jumpOffset target =>
          change target.val + (c.machine.reg .first).toNat ≤ _
          have hbyte := (c.machine.reg .first).toNat_lt
          omega
      | ret =>
          change ((c.machine.stack.get? c.machine.sp).getD 0).toNat + 2 ≤ _
          cases hslot : c.machine.stack.get? c.machine.sp with
          | none => simp
          | some call =>
              have hcall := hreach.slots _ call hslot
              rw [Option.getD_some]
              omega
      | skip condition =>
          change c.machine.pc.toNat +
            (if condition.holds c.machine c.latch then 4 else 2) ≤ _
          split
          · omega
          · omega
      | waitKey x =>
          change c.machine.pc.toNat +
            (if c.latch.firstPressed?.isSome then 2 else 0) ≤ _
          split
          · omega
          · omega
      | _ =>
          change c.machine.pc.toNat + 2 ≤ _
          omega

theorem two_le_heading {i : Instruction} (h : c.aimsShort i = false) :
    2 ≤ c.heading (some i) := by
  cases i with
  | jump | call | jumpOffset => cases h
  | ret => exact Nat.le_add_left 2 _
  | skip condition =>
      change 2 ≤ c.machine.pc.toNat +
        if condition.holds c.machine c.latch then 4 else 2
      split
      · omega
      · omega
  | waitKey x =>
      have hnone : c.latch.firstPressed?.isNone = false := h
      have hsome : c.latch.firstPressed?.isSome = true := by
        rw [← Option.not_isNone, hnone]
        rfl
      change 2 ≤ c.machine.pc.toNat +
        if c.latch.firstPressed?.isSome then 2 else 0
      rw [if_pos hsome]
      omega
  | _ => exact Nat.le_add_left 2 _

end Console

namespace Engine

variable {e : Engine}

/-- In reach, a cycle that goes well takes the counter where it is headed. -/
theorem cycle_heading (hreach : e.console.machine.InReach)
    (hok : e.cycle.error = none) :
    e.cycle.state.console.machine.pc.toNat =
      e.console.heading e.instruction? := by
  obtain ⟨word, hword, -⟩ := cycle_of_ok hok
  exact (cycle_goesTo hok).toNat_eq hreach (counter_le_of_word hword)

theorem cycle_slots (hok : e.cycle.error = none)
    {slot : UInt8} {call : UInt16}
    (hslot : e.cycle.state.console.machine.stack.get? slot = some call) :
    e.console.machine.stack.get? slot = some call ∨
      call = e.console.machine.pc := by
  obtain ⟨word, -, hgone⟩ := cycle_of_ok hok
  rcases hgone with ⟨-, hconsole⟩ | ⟨i, -, hexecute, hconsole⟩
  · rw [hconsole] at hslot
    exact Or.inl hslot
  · rw [hconsole] at hslot
    exact Console.execute_slots hexecute hslot

theorem cycle_inReach (hreach : e.console.machine.InReach) :
    e.cycle.state.console.machine.InReach := by
  cases herror : e.cycle.error with
  | some fault => rwa [cycle_machine_of_error herror]
  | none =>
      obtain ⟨word, hword, -⟩ := cycle_of_ok herror
      have hpc := counter_le_of_word hword
      constructor
      · rw [cycle_heading hreach herror]
        exact Console.heading_le hreach hpc _
      · intro slot call hslot
        rcases cycle_slots herror hslot with hheld | hcalled
        · exact hreach.slots slot call hheld
        · rw [hcalled]
          exact hpc

theorem sumsFit (hreach : e.console.machine.InReach) : e.SumsFit where
  skipped := by
    intro condition hahead
    obtain ⟨word, hword, -⟩ := instruction?_eq_some_iff.mp hahead
    have hpc := counter_le_of_word hword
    omega
  offset := by
    intro target _
    have hword := target.toNat_toWord
    have hbyte := (e.console.machine.reg .first).toNat_lt
    omega
  passedOver := by
    intro word hword _
    have hpc := counter_le_of_word hword
    omega
  advanced := by
    intro hok i hahead haims
    obtain ⟨word, hword, hdecode⟩ := instruction?_eq_some_iff.mp hahead
    have hgoes := cycle_heading hreach hok
    have hfar := Console.two_le_heading haims
    have hlt := (e.console.execute i).state.machine.pc.toNat_lt
    cases hexecute : (e.console.execute i).error with
    | some fault =>
        rw [(cycle_of_execute_error hahead hexecute).1] at hok
        cases hok
    | none =>
        -- Had the sum wrapped around, the counter would now be below two.
        have hpc : e.cycle.state.console.machine.pc =
            (e.console.execute i).state.machine.pc + 2 := by
          rw [(cycle_of_execute_ok hahead hexecute).2]
          rfl
        have htwo : (2 : UInt16).toNat = 2 := rfl
        rw [hpc, hahead, UInt16.toNat_add, htwo] at hgoes
        omega

end Engine

namespace Emulator

variable {rom : Program} {latch : Latch} {config : Config}
  {source : Tape Nat} {entropy : Entropy} {e : Emulator}

theorem boot_inReach (h : boot rom latch config source entropy = .ok e) :
    e.machine.InReach := by
  obtain ⟨-, hmachine⟩ := boot_machine h
  rw [hmachine]
  constructor
  · change (UInt16.ofNat Program.start).toNat ≤ 0x10FE
    decide
  · intro slot call hslot
    change Stack.blank.get? slot = some call at hslot
    rw [Stack.get?, Stack.blank, Vector.getElem?_replicate] at hslot
    split at hslot
    · cases hslot
      decide
    · cases hslot

/-- Between two words of a session nothing moves the counter. -/
theorem cycles_counter (hpaced : e.Paced) {requests : List Request}
    (hspares : ∀ request ∈ requests, request.sparesMachine = true)
    {earlier rest : List Engine} {engine next : Engine}
    (hcycles : e.cycles requests = earlier ++ engine :: next :: rest) :
    next.console.machine.pc = engine.cycle.state.console.machine.pc := by
  let Left (done : List Engine) (machine : Machine) : Prop :=
    ∀ last, done.getLast? = some last →
      machine.pc = last.cycle.state.console.machine.pc
  have hcycle (done : List Engine) (engine : Engine) :
      Left done engine.console.machine →
        Left (done ++ [engine]) engine.cycle.state.console.machine := by
    intro _ last hlast
    rw [List.getLast?_concat] at hlast
    cases hlast
    rfl
  have hcount (done : List Engine) (machine : Machine) :
      Left done machine → Left done machine.countDown :=
    fun h => h
  have hnone : Left [] e.machine := by
    intro last hlast
    cases hlast
  have hsplit : e.cycles requests = (earlier ++ [engine]) ++ next :: rest := by
    rw [hcycles, List.append_assoc, List.singleton_append]
  exact cycles_history hcycle hcount hpaced hspares hnone hsplit engine
    List.getLast?_concat

/-- The counter cannot wrap around unnoticed.  Whatever a session asks for
without changing the machine itself, the counter and the return slots stay in
reach, words are only carried out that lie in memory, and no sum with the
counter needs more than sixteen bits.  So the counter arrives where a word sends
it, and if there is no room for a word there, the next cycle finds none. -/
theorem counter_stays_in_reach (rom : Program) (latch : Latch)
    (config : Config) (source : Tape Nat) (entropy : Entropy)
    (e : Emulator) (hboot : boot rom latch config source entropy = .ok e)
    (requests : List Request)
    (hspares : ∀ request ∈ requests, request.sparesMachine = true) :
    (e.run requests).1.machine.InReach ∧
    ∀ earlier engine later,
      e.cycles requests = earlier ++ engine :: later →
      engine.console.machine.InReach ∧
      (∀ word, engine.word = .ok word →
        engine.console.machine.pc.toNat ≤ 0xFFE) ∧
      engine.SumsFit ∧
      (engine.cycle.error = none →
        let arrival := engine.console.heading engine.instruction?
        engine.cycle.state.console.machine.pc.toNat = arrival ∧
        (0xFFF ≤ arrival → ∀ next rest, later = next :: rest →
          next.cycle = .fail next (.outsideMemory (max arrival 0x1000)))) := by
  have hpaced := boot_paced hboot
  have hbooted := boot_inReach hboot
  have hcycle (done : List Engine) (engine : Engine) :
      engine.console.machine.InReach →
        engine.cycle.state.console.machine.InReach := Engine.cycle_inReach
  have hcount (done : List Engine) (machine : Machine)
      (h : machine.InReach) : machine.countDown.InReach :=
    ⟨h.counter, h.slots⟩
  constructor
  · exact run_history (P := fun _ machine => machine.InReach) hcycle hcount
      hpaced hspares [] hbooted
  · intro earlier engine later hcycles
    have hreach : engine.console.machine.InReach :=
      cycles_history (P := fun _ machine => machine.InReach) hcycle hcount
        hpaced hspares hbooted hcycles
    refine ⟨hreach, ?_, Engine.sumsFit hreach, ?_⟩
    · intro word hword
      exact Engine.counter_le_of_word hword
    · intro hok arrival
      have harrives := Engine.cycle_heading hreach hok
      refine ⟨harrives, ?_⟩
      rintro hout next rest rfl
      have hpc : next.console.machine.pc.toNat = arrival := by
        rw [cycles_counter hpaced hspares hcycles]
        exact harrives
      rw [← hpc] at hout ⊢
      exact Engine.cycle_of_word_error (Engine.word_of_outside hout)

/-- A jump with the largest offset takes the counter as far as it gets, and the
next cycle finds no word there. -/
theorem counter_stays_in_reach_of_largest_offset :
    let rom : Program := [0x60, 0xFF, 0xBF, 0xFF]
    let requests := [Request.step, .step, .countDown, .poll, .step]
    ∃ e, boot rom (fun _ => none) {} (.ofCells fun n => 2000000 * n)
        (fun _ => .ofCells fun _ => 0) = .ok e ∧
      (∀ request ∈ requests, request.sparesMachine = true) ∧
      ∃ first engine next,
        e.cycles requests = [first, engine, next] ∧
        engine.console.heading engine.instruction? = 0x10FE ∧
        next.cycle = .fail next (.outsideMemory 0x10FE) := by
  intro rom requests
  obtain ⟨e, hboot, hlength, hsecond⟩ : ∃ e,
      boot rom (fun _ => none) {} (.ofCells fun n => 2000000 * n)
        (fun _ => .ofCells fun _ => 0) = .ok e ∧
      (e.cycles requests).length = 3 ∧
      ∀ engine ∈ ((e.cycles requests).drop 1).take 1,
        engine.cycle.error = none ∧
          engine.console.heading engine.instruction? = 0x10FE :=
    ⟨_, rfl, by decide +kernel, by decide +kernel⟩
  have hspares : ∀ request ∈ requests, request.sparesMachine = true := by
    simp [requests, Request.sparesMachine]
  obtain ⟨first, engine, next, hcycles⟩ := List.length_eq_three.mp hlength
  obtain ⟨hok, hheading⟩ := hsecond engine (by simp [hcycles])
  obtain ⟨-, hall⟩ :=
    counter_stays_in_reach rom _ _ _ _ e hboot requests hspares
  obtain ⟨-, -, -, hon⟩ := hall [first] engine [next] hcycles
  have hnext := (hon hok).2 (by simp [hheading]) next [] rfl
  refine ⟨e, hboot, hspares, first, engine, next, hcycles, hheading, ?_⟩
  rw [hnext, hheading]
  rfl

end Emulator

end Chip8
