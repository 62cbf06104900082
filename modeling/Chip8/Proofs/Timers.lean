import Chip8.Proofs.Footprint
import Mathlib.Data.List.DropRight

/-!
# What the timers show

A timer is loaded by the words that are there for it and lowered by every step
of the timers, and nothing else touches it.  What it shows can so be read off
the work done so far: the byte that was loaded last, less the steps since then,
but no less than zero.  The words carried out in between do not count.
-/

namespace Chip8

/-- One of the timers of the machine. -/
inductive Timer
  | delay
  | sound
  deriving DecidableEq, Repr

/-- What a timer shows. -/
def Machine.timer (m : Machine) : Timer → UInt8
  | .delay => m.delay
  | .sound => m.sound

/-- The instruction that loads a timer from `Vx`. -/
def Timer.load : Timer → Register → Instruction
  | .delay => .setDelay
  | .sound => .setSound

/-- A timer as a part of the console. -/
def Timer.part : Timer → Part
  | .delay => .delay
  | .sound => .sound

/-- The register that an instruction loads a timer from, if it does. -/
def Instruction.loadedFrom? : Timer → Instruction → Option Register
  | .delay, .setDelay x | .sound, .setSound x => some x
  | _, _ => none

/-- The byte that a piece of work loads into a timer, if it does. -/
def Deed.loaded? (t : Timer) : Deed → Option UInt8
  | .word engine =>
    (engine.instruction?.bind (Instruction.loadedFrom? t)).map
      engine.console.machine.reg
  | .countDown => none

namespace Timer

/-- The byte that was loaded into a timer last, or zero if none was. -/
def lastLoaded (t : Timer) (done : List Deed) : UInt8 :=
  (done.filterMap (Deed.loaded? t)).getLast?.getD 0

/-- How many times the timers were counted down since a timer was loaded last,
or since the start if it was not loaded. -/
def ticksSince (t : Timer) (done : List Deed) : Nat :=
  Deed.ticks (done.rtakeWhile fun deed => (deed.loaded? t).isNone)

section

variable {t : Timer} {done : List Deed} {deed : Deed}

theorem lastLoaded_concat_of_some {byte : UInt8}
    (h : deed.loaded? t = some byte) :
    t.lastLoaded (done ++ [deed]) = byte := by
  simp [lastLoaded, List.filterMap_append, h]

theorem lastLoaded_concat_of_none (h : deed.loaded? t = none) :
    t.lastLoaded (done ++ [deed]) = t.lastLoaded done := by
  simp [lastLoaded, List.filterMap_append, h]

theorem ticksSince_concat_of_some {byte : UInt8}
    (h : deed.loaded? t = some byte) :
    t.ticksSince (done ++ [deed]) = 0 := by
  simp [ticksSince, h, Deed.ticks]

theorem ticksSince_concat_of_none (h : deed.loaded? t = none) :
    t.ticksSince (done ++ [deed]) = t.ticksSince done + Deed.ticks [deed] := by
  simp [ticksSince, h, Deed.ticks_append]

end

end Timer

theorem Instruction.loadedFrom?_eq_some_iff {t : Timer} {i : Instruction}
    {x : Register} : i.loadedFrom? t = some x ↔ i = t.load x := by
  cases t with
  | delay => cases i with
    | _ => simp [loadedFrom?, Timer.load]
  | sound => cases i with
    | _ => simp [loadedFrom?, Timer.load]

theorem Instruction.exists_load_of_mem_footprint {t : Timer}
    {i : Instruction} {c : Console} (h : t.part ∈ i.footprint c) :
    ∃ x, i = t.load x := by
  cases t with
  | delay => cases i with
    | setDelay x => exact ⟨x, rfl⟩
    | combine op => cases op with
      | _ => simp [footprint, Timer.part] at h
    | _ => simp [footprint, Timer.part] at h
  | sound => cases i with
    | setSound x => exact ⟨x, rfl⟩
    | combine op => cases op with
      | _ => simp [footprint, Timer.part] at h
    | _ => simp [footprint, Timer.part] at h

theorem Deed.loaded?_word_eq_some_iff {t : Timer} {engine : Engine}
    {byte : UInt8} :
    (Deed.word engine).loaded? t = some byte ↔
      ∃ x, engine.instruction? = some (t.load x) ∧
        engine.console.machine.reg x = byte := by
  simp only [loaded?, Option.map_eq_some_iff, Option.bind_eq_some_iff,
    Instruction.loadedFrom?_eq_some_iff]
  constructor
  · rintro ⟨x, ⟨i, hahead, rfl⟩, hbyte⟩
    exact ⟨x, hahead, hbyte⟩
  · rintro ⟨x, hahead, hbyte⟩
    exact ⟨x, ⟨_, hahead, rfl⟩, hbyte⟩

theorem Machine.toNat_timer_countDown (m : Machine) (t : Timer) :
    (m.countDown.timer t).toNat = (m.timer t).toNat - 1 := by
  cases t with
  | delay => exact toNat_ofNat_sub m.delay 1
  | sound => exact toNat_ofNat_sub m.sound 1

namespace Engine

variable {e : Engine} {t : Timer}

theorem cycle_timer_of_load {x : Register}
    (hahead : e.instruction? = some (t.load x)) :
    e.cycle.error = none ∧
      e.cycle.state.console.machine.timer t = e.console.machine.reg x := by
  cases t with
  | delay =>
      obtain ⟨hok, hconsole⟩ := cycle_of_execute_ok hahead rfl
      rw [hconsole]
      exact ⟨hok, rfl⟩
  | sound =>
      obtain ⟨hok, hconsole⟩ := cycle_of_execute_ok hahead rfl
      rw [hconsole]
      exact ⟨hok, rfl⟩

/-- Only a word that loads a timer changes it. -/
theorem cycle_timer_of_not_load
    (h : ∀ x, e.instruction? ≠ some (t.load x)) :
    e.cycle.state.console.machine.timer t = e.console.machine.timer t := by
  have hpart : t.part ∉ e.footprint := by
    rintro (hcounter | hmem)
    · cases t with
      | delay | sound => cases hcounter
    · cases hahead : e.instruction? with
      | none => simp [hahead] at hmem
      | some i =>
          simp only [hahead] at hmem
          obtain ⟨x, rfl⟩ := Instruction.exists_load_of_mem_footprint hmem
          exact h x hahead
  have hsame := e.cycle_changesOnly t.part hpart
  cases t with
  | delay => exact hsame
  | sound => exact hsame

end Engine

namespace Emulator

variable {e : Emulator}

/-- A timer of a machine that starts with none of it left shows the byte loaded
last less the steps since. -/
theorem run_timer (hpaced : e.Paced) {requests : List Request}
    (hspares : ∀ request ∈ requests, request.sparesMachine = true)
    (t : Timer) (hstart : e.machine.timer t = 0) :
    ((e.run requests).1.machine.timer t).toNat =
      (t.lastLoaded (e.deeds requests)).toNat -
        t.ticksSince (e.deeds requests) := by
  let Shows (done : List Deed) (m : Machine) : Prop :=
    (m.timer t).toNat = (t.lastLoaded done).toNat - t.ticksSince done
  have hcycle (done : List Deed) (engine : Engine)
      (h : Shows done engine.console.machine) :
      Shows (done ++ [.word engine]) engine.cycle.state.console.machine := by
    cases hload : (Deed.word engine).loaded? t with
    | some byte =>
        obtain ⟨x, hahead, hbyte⟩ := Deed.loaded?_word_eq_some_iff.mp hload
        simp only [Shows]
        rw [Timer.lastLoaded_concat_of_some hload,
          Timer.ticksSince_concat_of_some hload,
          (Engine.cycle_timer_of_load hahead).2, hbyte, Nat.sub_zero]
    | none =>
        have hnot : ∀ x, engine.instruction? ≠ some (t.load x) := by
          intro x hahead
          have hsome := Deed.loaded?_word_eq_some_iff.mpr ⟨x, hahead, rfl⟩
          rw [hload] at hsome
          cases hsome
        simp only [Shows]
        rw [Timer.lastLoaded_concat_of_none hload,
          Timer.ticksSince_concat_of_none hload,
          Engine.cycle_timer_of_not_load hnot]
        exact h
  have hcount (done : List Deed) (m : Machine) (h : Shows done m) :
      Shows (done ++ [.countDown]) m.countDown := by
    simp only [Shows]
    rw [Timer.lastLoaded_concat_of_none rfl,
      Timer.ticksSince_concat_of_none rfl, m.toNat_timer_countDown, h,
      Nat.sub_sub]
    rfl
  have hnone : Shows [] e.machine := by
    simp only [Shows, hstart]
    rfl
  exact run_deeds_machine hcycle hcount hpaced hspares [] hnone

/-- A poll that finds both jobs due carries out a word before it counts the
timers down. -/
theorem poll_of_both_due (hpaced : e.Paced) (hrunning : e.fault = none)
    (hcycle : e.clock.isDue .cycle = true)
    (hcount : e.clock.isDue .countDown = true)
    (hok : e.engine.cycle.error = none) :
    e.poll.state.engine = e.engine.cycle.state.countDown ∧
      e.poll.state.fault = none := by
  have hcarries : e.carriesOut .poll = true := by
    simp [carriesOut, hrunning, hcycle]
  have hcounts : e.countsDown .poll = true := by
    simp [countsDown, hrunning, hcount, hok]
  constructor
  · rw [poll_engine hpaced, if_pos hcounts, afterWord, if_pos hcarries]
  · have hfault := answer_fault hpaced .poll
    rw [if_pos hcarries, hok] at hfault
    exact hfault

/-- The timers of an emulator, after every session in which the host spares its
machine.  Each shows the byte that was loaded into it last, less the steps of
the timers since, down to zero; and the beeper sounds as long as the sound timer
shows more than zero.  In a poll that does both jobs the word comes first: it
reads the delay timer as it was, and what it loads is lowered at once. -/
theorem timers_follow_deeds {rom : Program} {latch : Latch} {config : Config}
    {source : Tape Nat} {entropy : Entropy}
    (hboot : boot rom latch config source entropy = .ok e)
    {requests : List Request}
    (hspares : ∀ request ∈ requests, request.sparesMachine = true) :
    let now := (e.run requests).1
    let done := e.deeds requests
    (∀ t : Timer, (now.machine.timer t).toNat =
      (t.lastLoaded done).toNat - t.ticksSince done) ∧
    (now.beeping = true ↔
      Timer.sound.ticksSince done < (Timer.sound.lastLoaded done).toNat) ∧
    (now.fault = none → now.clock.isDue .cycle = true →
      now.clock.isDue .countDown = true →
      let after := now.poll.state
      (∀ x, now.engine.instruction? = some (.getDelay x) →
        after.fault = none ∧
        after.machine.reg x = now.machine.delay ∧
        after.machine.delay.toNat = now.machine.delay.toNat - 1) ∧
      ∀ (t : Timer) (x : Register),
        now.engine.instruction? = some (t.load x) →
        after.fault = none ∧
        (after.machine.timer t).toNat = (now.machine.reg x).toNat - 1) := by
  intro now done
  have hpaced := boot_paced hboot
  have hshows (t : Timer) : (now.machine.timer t).toNat =
      (t.lastLoaded done).toNat - t.ticksSince done := by
    apply run_timer hpaced hspares
    rw [(boot_machine hboot).2]
    cases t with
    | delay | sound => rfl
  refine ⟨hshows, ?_, ?_⟩
  · have hbeeping :
        now.beeping = true ↔ 0 < (now.machine.timer .sound).toNat := by
      rw [beeping, decide_eq_true_iff]
      exact UInt8.lt_iff_toNat_lt
    rw [hbeeping, hshows]
    exact Nat.sub_pos_iff_lt
  · intro hrunning hcycle hcount after
    have hnow : now.Paced := run_paced hpaced requests
    constructor
    · intro x hahead
      obtain ⟨hok, hconsole⟩ := Engine.cycle_of_execute_ok hahead rfl
      obtain ⟨hengine, hfault⟩ :=
        poll_of_both_due hnow hrunning hcycle hcount hok
      have hmachine : after.machine =
          (now.machine.setReg x now.machine.delay).advance.countDown := by
        rw [machine, hengine, Engine.countDown, Engine.withMachine, hconsole]
        rfl
      refine ⟨hfault, ?_, ?_⟩
      · rw [hmachine]
        exact (Machine.reg_setReg _ x x _).trans (if_pos rfl)
      · rw [hmachine]
        exact Machine.toNat_timer_countDown _ .delay
    · intro t x hahead
      obtain ⟨hok, htimer⟩ := Engine.cycle_timer_of_load hahead
      obtain ⟨hengine, hfault⟩ :=
        poll_of_both_due hnow hrunning hcycle hcount hok
      have hmachine : after.machine =
          now.engine.cycle.state.console.machine.countDown :=
        congrArg (·.console.machine) hengine
      refine ⟨hfault, ?_⟩
      rw [hmachine, Machine.toNat_timer_countDown, htimer]
      rfl

/-- Both timers are loaded with 5, the second one in a poll that lowers it at
once.  The next poll reads the delay timer, twice lowered, before it is lowered
again. -/
theorem timers_follow_deeds_of_loads :
    let rom : Program := [0x60, 0x05, 0xF0, 0x15, 0xF0, 0x18, 0xF1, 0x07]
    let requests := [Request.step, .step, .countDown, .poll]
    ∃ e, boot rom (fun _ => none) {} (.ofCells fun n => 20000000 * n)
        (fun _ => .ofCells fun _ => 0) = .ok e ∧
      (∀ request ∈ requests, request.sparesMachine = true) ∧
      let now := (e.run requests).1
      (now.machine.timer .delay).toNat = 5 - 2 ∧
      (now.machine.timer .sound).toNat = 5 - 1 ∧
      now.beeping = true ∧
      now.fault = none ∧
      now.clock.isDue .cycle = true ∧
      now.clock.isDue .countDown = true ∧
      now.engine.instruction? = some (.getDelay 1) ∧
      now.poll.state.machine.reg 1 = now.machine.delay ∧
      now.poll.state.machine.delay.toNat = now.machine.delay.toNat - 1 := by
  intro rom requests
  obtain ⟨e, hboot, hdelay, hdelayTicks, hsound, hsoundTicks, hrunning,
      hcycle, hcount, hahead⟩ : ∃ e,
      boot rom (fun _ => none) {} (.ofCells fun n => 20000000 * n)
        (fun _ => .ofCells fun _ => 0) = .ok e ∧
      Timer.delay.lastLoaded (e.deeds requests) = 5 ∧
      Timer.delay.ticksSince (e.deeds requests) = 2 ∧
      Timer.sound.lastLoaded (e.deeds requests) = 5 ∧
      Timer.sound.ticksSince (e.deeds requests) = 1 ∧
      (e.run requests).1.fault = none ∧
      (e.run requests).1.clock.isDue .cycle = true ∧
      (e.run requests).1.clock.isDue .countDown = true ∧
      (e.run requests).1.engine.instruction? = some (.getDelay 1) :=
    ⟨_, rfl, by decide +kernel⟩
  have hspares : ∀ request ∈ requests, request.sparesMachine = true := by
    simp [requests, Request.sparesMachine]
  obtain ⟨hshows, hbeeping, hpoll⟩ := timers_follow_deeds hboot hspares
  have hshowsDelay := hshows .delay
  have hshowsSound := hshows .sound
  rw [hdelay, hdelayTicks] at hshowsDelay
  rw [hsound, hsoundTicks] at hshowsSound hbeeping
  obtain ⟨-, hread, hlowered⟩ :=
    (hpoll hrunning hcycle hcount).1 1 hahead
  exact ⟨e, hboot, hspares, hshowsDelay, hshowsSound,
    hbeeping.mpr (by decide), hrunning, hcycle, hcount, hahead, hread,
    hlowered⟩

end Emulator

end Chip8
