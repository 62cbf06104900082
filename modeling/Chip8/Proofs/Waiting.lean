import Chip8.Proofs.Counter
import Chip8.Proofs.Encoding
import Chip8.Proofs.Session
import Mathlib.Data.Fin.Tuple.Basic

/-!
# Waiting for a key

A cycle that finds no key pressed moves the counter back by the word that every
cycle moves it on by.  It leaves the console as it was, so that the same word
is ahead again, and however often it is carried out nothing but the timers and
the keys can be told from the start.
-/

namespace Chip8

/-- Whether a host does no more with a request than change the keys. -/
def Request.isWorkOrKeys : Request → Bool
  | .step | .poll | .countDown | .setLatch _ => true
  | .refresh | .edit _ | .load _ => false

/-- The machine after its timers have been counted down a number of times. -/
def Machine.countedDown (m : Machine) (ticks : Nat) : Machine :=
  { m with
    delay := UInt8.ofNat (m.delay.toNat - ticks)
    sound := UInt8.ofNat (m.sound.toNat - ticks) }

namespace Machine

theorem countedDown_zero (m : Machine) : m.countedDown 0 = m := by
  simp [countedDown]

theorem countDown_countedDown (m : Machine) (ticks : Nat) :
    (m.countedDown ticks).countDown = m.countedDown (ticks + 1) := by
  simp only [countDown, countedDown, toNat_ofNat_sub, Nat.sub_sub]

theorem advance_rewind (m : Machine) : m.rewind.advance = m := by
  simp only [advance, rewind, UInt16.sub_add_cancel]

end Machine

theorem Latch.firstPressed?_eq_some_iff {latch : Latch} {key : Key} :
    latch.firstPressed? = some key ↔
      latch key = some true ∧ ∀ lower < key, latch lower ≠ some true := by
  rw [firstPressed?, Key.all, ← Fin.find?_eq_find?_finRange,
    Fin.find?_eq_some_iff]
  simp only [← Bool.not_eq_true, isPressed_iff, ne_eq]

namespace Engine

section

variable {e : Engine} {x : Register}

/-- A cycle without a pressed key is a fixed point, apart from the journal. -/
theorem cycle_of_unpressed (hahead : e.instruction? = some (.waitKey x))
    (hup : ∀ key, e.console.latch key ≠ some true) :
    e.cycle.error = none ∧ e.cycle.state.console = e.console ∧
      e.cycle.state.dispatcher = e.dispatcher := by
  obtain ⟨word, hword, hdecode⟩ := instruction?_eq_some_iff.mp hahead
  have hnone := Latch.firstPressed?_eq_none_iff.mpr hup
  have hexecute : e.console.execute (.waitKey x) =
      .ok (e.console.withMachine e.console.machine.rewind) := by
    simp only [Console.execute, Console.waitKey, hnone]
  rw [cycle_eq_of_execute_ok hword hdecode (by rw [hexecute]; rfl), hexecute]
  refine ⟨rfl, ?_, rfl⟩
  simp only [Outcome.state_ok, Console.withMachine, Machine.advance_rewind]

theorem cycle_of_firstPressed {key : Key}
    (hahead : e.instruction? = some (.waitKey x))
    (hfirst : e.console.latch.firstPressed? = some key) :
    e.cycle.error = none ∧ e.cycle.state.console =
      e.console.withMachine
        (e.console.machine.setReg x (UInt8.ofNat key.val)).advance := by
  have hexecute : e.console.execute (.waitKey x) =
      .ok (e.console.withMachine
        (e.console.machine.setReg x (UInt8.ofNat key.val))) := by
    simp only [Console.execute, Console.waitKey, hfirst]
  have hcycle := cycle_of_execute_ok hahead (by rw [hexecute]; rfl)
  rw [hexecute] at hcycle
  exact hcycle

end

/-- One engine comes from another by waiting through a number of steps of the
timers. -/
structure WaitsFrom (start : Engine) (ticks : Nat) (now : Engine) : Prop where
  machine : now.console.machine = start.console.machine.countedDown ticks
  screen : now.console.screen = start.console.screen
  random : now.console.random = start.console.random
  dispatcher : now.dispatcher = start.dispatcher

namespace WaitsFrom

variable {start now : Engine} {ticks : Nat}

theorem refl (start : Engine) : start.WaitsFrom 0 start :=
  ⟨start.console.machine.countedDown_zero.symm, rfl, rfl, rfl⟩

/-- The same word stays ahead. -/
theorem word (h : start.WaitsFrom ticks now) : now.word = start.word := by
  rw [Engine.word, h.machine]
  rfl

theorem instruction? (h : start.WaitsFrom ticks now) :
    now.instruction? = start.instruction? := by
  rw [Engine.instruction?, h.word]
  rfl

theorem cycle {x : Register} (h : start.WaitsFrom ticks now)
    (hahead : start.instruction? = some (.waitKey x))
    (hup : ∀ key, now.console.latch key ≠ some true) :
    start.WaitsFrom ticks now.cycle.state := by
  obtain ⟨-, hconsole, hdispatcher⟩ :=
    cycle_of_unpressed (h.instruction?.trans hahead) hup
  refine ⟨?_, ?_, ?_, hdispatcher.trans h.dispatcher⟩
  · rw [hconsole, h.machine]
  · rw [hconsole, h.screen]
  · rw [hconsole, h.random]

theorem countDown (h : start.WaitsFrom ticks now) :
    start.WaitsFrom (ticks + 1) now.countDown := by
  refine ⟨?_, h.screen, h.random, h.dispatcher⟩
  rw [← Machine.countDown_countedDown, ← h.machine]
  rfl

end WaitsFrom

end Engine

namespace Emulator

variable {e : Emulator} {x : Register} {requests : List Request}

/-- The run lemma of waiting: it goes on for as long as no word is carried out
with a key pressed. -/
theorem run_waitsFrom (hpaced : e.Paced)
    (hahead : e.engine.instruction? = some (.waitKey x))
    (hrequests : ∀ request ∈ requests, request.isWorkOrKeys = true)
    (hup : ∀ engine ∈ e.cycles requests,
      ∀ key, engine.console.latch key ≠ some true) :
    e.engine.WaitsFrom (Deed.ticks (e.deeds requests))
      (e.run requests).1.engine := by
  -- That no key is pressed is known of the words done so far only.
  let Waiting (done : List Deed) (engine : Engine) : Prop :=
    (∀ before ∈ done.filterMap Deed.engine?,
      ∀ key, before.console.latch key ≠ some true) →
    e.engine.WaitsFrom (Deed.ticks done) engine
  have hcycle (done : List Deed) (engine : Engine)
      (h : Waiting done engine) :
      Waiting (done ++ [.word engine]) engine.cycle.state := by
    intro hall
    rw [List.filterMap_append, List.forall_mem_append] at hall
    rw [Deed.ticks_append]
    exact (h hall.1).cycle hahead (hall.2 engine (List.mem_singleton_self _))
  have hcount (done : List Deed) (engine : Engine)
      (h : Waiting done engine) :
      Waiting (done ++ [.countDown]) engine.countDown := by
    intro hall
    rw [List.filterMap_append, List.forall_mem_append] at hall
    rw [Deed.ticks_append]
    exact (h hall.1).countDown
  have hhost : ∀ request ∈ requests, request.isWork = false →
      ∀ done (now : Emulator), Waiting done now.engine →
        Waiting done (now.answer request).1.engine := by
    intro request hmem hwork done now h hall
    have hkeys := hrequests request hmem
    cases request with
    | step | poll | countDown => cases hwork
    | refresh | edit | load => cases hkeys
    | setLatch latch =>
        obtain ⟨hmachine, hscreen, hrandom, hdispatcher⟩ := h hall
        exact ⟨hmachine, hscreen, hrandom, hdispatcher⟩
  have hstart : Waiting [] e.engine := fun _ => .refl e.engine
  have hrun := run_deeds_history hcycle hcount hpaced hhost [] hstart
  rw [List.nil_append] at hrun
  apply hrun
  rw [filterMap_deeds]
  exact hup

/-- Where a word is carried out, the waiting has gone on until then if no word
before was carried out with a key pressed. -/
theorem cycles_waitsFrom (hpaced : e.Paced)
    (hahead : e.engine.instruction? = some (.waitKey x))
    (hrequests : ∀ request ∈ requests, request.isWorkOrKeys = true)
    {earlier later : List Engine} {engine : Engine}
    (hcycles : e.cycles requests = earlier ++ engine :: later)
    (hup : ∀ before ∈ earlier,
      ∀ key, before.console.latch key ≠ some true) :
    ∃ ticks, e.engine.WaitsFrom ticks engine := by
  obtain ⟨before, request, after, rfl, rfl, rfl, -⟩ :=
    cycles_eq_append_cons hcycles
  have hbefore : ∀ request ∈ before, request.isWorkOrKeys = true := by
    intro request hmem
    exact hrequests request (List.mem_append_left _ hmem)
  exact ⟨_, run_waitsFrom hpaced hahead hbefore hup⟩

theorem run_fault_of_unpressed (hpaced : e.Paced) (hrunning : e.fault = none)
    (hahead : e.engine.instruction? = some (.waitKey x))
    (hrequests : ∀ request ∈ requests, request.isWorkOrKeys = true)
    (hup : ∀ engine ∈ e.cycles requests,
      ∀ key, engine.console.latch key ≠ some true) :
    (e.run requests).1.fault = none := by
  refine run_fault_of_cycles_ok hpaced ?_ hrunning
  intro engine hmem
  obtain ⟨earlier, later, hcycles⟩ := List.mem_iff_append.mp hmem
  have hearlier : ∀ before ∈ earlier,
      ∀ key, before.console.latch key ≠ some true := by
    intro before hbefore
    exact hup before (hcycles ▸ List.mem_append_left _ hbefore)
  obtain ⟨ticks, hwaits⟩ :=
    cycles_waitsFrom hpaced hahead hrequests hcycles hearlier
  have hnow := hwaits.instruction?.trans hahead
  exact (Engine.cycle_of_unpressed hnow (hup engine hmem)).1

/-- Waiting for a key, in every session of an emulator that has the word for it
ahead, in which the host does nothing to the machine but change its keys.  As
long as no word is carried out with a key pressed, only the timers change, each
by one for every step of the timers until it is at zero, and nothing goes wrong.
The first word carried out with a key pressed puts the lowest such key into
`Vx` and moves the counter on. -/
theorem waits_for_key (hpaced : e.Paced) (hrunning : e.fault = none)
    (hword : e.engine.word = .ok (Word.ofByte 0xF x 0x0A))
    (hrequests : ∀ request ∈ requests, request.isWorkOrKeys = true) :
    ((∀ engine ∈ e.cycles requests,
        ∀ key, engine.console.latch key ≠ some true) →
      let now := (e.run requests).1
      let ticks := Deed.ticks (e.deeds requests)
      now.machine = { e.machine with
        delay := now.machine.delay
        sound := now.machine.sound } ∧
      now.machine.delay.toNat = e.machine.delay.toNat - ticks ∧
      now.machine.sound.toNat = e.machine.sound.toNat - ticks ∧
      now.screen = e.screen ∧
      now.engine.console.random = e.engine.console.random ∧
      now.unknown = e.unknown ∧
      now.fault = none) ∧
    ∀ (earlier later : List Engine) (engine : Engine) (key : Key),
      e.cycles requests = earlier ++ engine :: later →
      (∀ before ∈ earlier, ∀ key, before.console.latch key ≠ some true) →
      engine.console.latch key = some true →
      (∀ lower < key, engine.console.latch lower ≠ some true) →
      let after := engine.cycle.state.console.machine
      engine.cycle.error = none ∧
      after = { e.machine with
        v := after.v
        pc := e.machine.pc + 2
        delay := engine.console.machine.delay
        sound := engine.console.machine.sound } ∧
      ∀ y, after.reg y =
        if x = y then UInt8.ofNat key.val else e.machine.reg y := by
  have hahead : e.engine.instruction? = some (.waitKey x) := by
    rw [Engine.instruction?_of_word hword]
    exact Instruction.decode_encode (.waitKey x)
  constructor
  · intro hup now ticks
    obtain ⟨hmachine, hscreen, hrandom, hdispatcher⟩ :=
      run_waitsFrom hpaced hahead hrequests hup
    have hnow : now.machine = e.machine.countedDown ticks := hmachine
    refine ⟨?_, ?_, ?_, hscreen, hrandom, ?_,
      run_fault_of_unpressed hpaced hrunning hahead hrequests hup⟩
    · rw [hnow]
      rfl
    · rw [hnow]
      exact toNat_ofNat_sub _ _
    · rw [hnow]
      exact toNat_ofNat_sub _ _
    · exact congrArg Dispatcher.unknown hdispatcher
  · intro earlier later engine key hcycles hearlier hdown hlower after
    obtain ⟨ticks, hwaits⟩ :=
      cycles_waitsFrom hpaced hahead hrequests hcycles hearlier
    have hfirst : engine.console.latch.firstPressed? = some key :=
      Latch.firstPressed?_eq_some_iff.mpr ⟨hdown, hlower⟩
    obtain ⟨hok, hconsole⟩ :=
      Engine.cycle_of_firstPressed (hwaits.instruction?.trans hahead) hfirst
    have hafter : after = (engine.console.machine.setReg x
        (UInt8.ofNat key.val)).advance := by
      simp only [after, hconsole, Console.withMachine]
    refine ⟨hok, ?_, ?_⟩
    · rw [hafter, hwaits.machine]
      rfl
    · intro y
      rw [hafter, hwaits.machine]
      exact Machine.reg_setReg _ x y _

/-- The word is the first one in memory, so that moving the counter back wraps
around.  Two words are carried out, the second in a poll that also counts the
timers down; of the keys pressed later key 5 is the lowest, because nothing is
wired to key 2. -/
theorem waits_for_key_at_zero :
    let start : Machine := { Machine.blank with
      memory := Memory.blank.put 0 [0xF3, 0x0A]
      pc := 0
      delay := 1
      sound := 7 }
    let e : Emulator :=
      { engine :=
          ⟨⟨start, .blank, fun _ => some false, .ofCells fun _ => 0⟩,
            .ofPolicy .record, #[]⟩
        clock := .ofJobs (.ofCells fun n => 20 * n) 20 0 20 0
        fault := none }
    let waiting : List Request :=
      [.step, .setLatch fun _ => none, .poll, .poll, .countDown]
    let pressed : List Request :=
      [.step, .setLatch fun key => if key = 2 then none else some (5 ≤ key),
        .step]
    e.Paced ∧ e.fault = none ∧
      e.engine.word = .ok (Word.ofByte 0xF 3 0x0A) ∧
      (∀ request ∈ waiting ++ pressed, request.isWorkOrKeys = true) ∧
      (e.cycles waiting).length = 2 ∧
      (∀ engine ∈ e.cycles waiting,
        ∀ key, engine.console.latch key ≠ some true) ∧
      (e.run waiting).1.machine.pc = 0 ∧
      (e.run waiting).1.machine.delay.toNat = 0 ∧
      (e.run waiting).1.machine.sound.toNat = 5 ∧
      (e.run waiting).1.fault = none ∧
      ∃ engine, e.cycles pressed = [e.engine, engine] ∧
        engine.cycle.error = none ∧
        engine.cycle.state.console.machine.pc = 2 ∧
        engine.cycle.state.console.machine.reg 3 = 5 := by
  intro start e waiting pressed
  have hpaced : e.Paced := ⟨_, _, _, _, _, rfl⟩
  have hword : e.engine.word = .ok (Word.ofByte 0xF 3 0x0A) := by
    rw [Engine.word_of_inside (by decide)]
    exact congrArg Except.ok (by decide +kernel)
  have hrequests : ∀ request ∈ waiting ++ pressed,
      request.isWorkOrKeys = true := by decide
  obtain ⟨hwaiting, hpressed⟩ := List.forall_mem_append.mp hrequests
  have hcount : (e.cycles waiting).length = 2 := by decide +kernel
  have hup : ∀ engine ∈ e.cycles waiting,
      ∀ key, engine.console.latch key ≠ some true := by decide +kernel
  have hticks : Deed.ticks (e.deeds waiting) = 2 := by decide +kernel
  obtain ⟨hmachine, hdelay, hsound, -, -, -, hfault⟩ :=
    (waits_for_key hpaced rfl hword hwaiting).1 hup
  rw [hticks] at hdelay hsound
  let ready := (e.run (pressed.take 2)).1
  let engine := ready.engine
  have hcarries : ready.carriesOut .step = true := by decide +kernel
  have hcycles : e.cycles pressed = [e.engine] ++ engine :: [] := by
    change e.engine ::
      ((if ready.carriesOut .step then [engine] else []) ++ []) = _
    rw [if_pos hcarries]
    rfl
  have hstart : ∀ before ∈ [e.engine],
      ∀ key, before.console.latch key ≠ some true := by decide +kernel
  have hdown : engine.console.latch 5 = some true := by decide +kernel
  have hlower : ∀ lower < 5, engine.console.latch lower ≠ some true := by
    decide +kernel
  obtain ⟨hok, hafter, hregs⟩ := (waits_for_key hpaced rfl hword hpressed).2
    [e.engine] [] engine 5 hcycles hstart hdown hlower
  refine ⟨hpaced, rfl, hword, hrequests, hcount, hup, ?_, hdelay, hsound,
    hfault, engine, hcycles, hok, ?_, hregs 3⟩
  · exact congrArg Machine.pc hmachine
  · exact congrArg Machine.pc hafter

end Emulator

end Chip8
