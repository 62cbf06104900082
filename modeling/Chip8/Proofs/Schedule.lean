import Chip8.Emulator.Run
import Chip8.Proofs.Firing

/-!
# Polling as a schedule of manual requests

A poll leaves the machine that a host leaves who asks by hand for the jobs that
are due: first one word, then, unless that went wrong, one step of the timers.
So every session has a session without polls beside it, with the same engine
and the same fault, and only the clock tells the two apart.
-/

namespace Chip8

namespace Clock

/-- A clock that holds the two jobs of an emulator. -/
def ofJobs (source : Tape Nat)
    (cpuPeriod cpuFired timerPeriod timerFired : Nat) : Clock Job where
  source := some source
  tasks :=
    [⟨.cycle, cpuPeriod, cpuFired⟩, ⟨.countDown, timerPeriod, timerFired⟩]

/-- Whether a job would be done if the time were read now. -/
def isDue (c : Clock Job) (job : Job) : Bool :=
  match c.source with
  | none => false
  | some source =>
    c.tasks.any fun task => task.label == job && task.due source.head

theorem isDue_cycle_ofJobs {source : Tape Nat}
    {cpuPeriod cpuFired timerPeriod timerFired : Nat} :
    (ofJobs source cpuPeriod cpuFired timerPeriod timerFired).isDue .cycle =
      decide (cpuPeriod ≤ source.head - cpuFired) := by
  simp [isDue, ofJobs, Task.due]

theorem isDue_countDown_ofJobs {source : Tape Nat}
    {cpuPeriod cpuFired timerPeriod timerFired : Nat} :
    (ofJobs source cpuPeriod cpuFired timerPeriod timerFired).isDue
        .countDown =
      decide (timerPeriod ≤ source.head - timerFired) := by
  simp [isDue, ofJobs, Task.due]

/-- A tick carries out a word if that is due and then, unless it went wrong,
counts the timers down if that is due. -/
theorem tick_ofJobs (source : Tape Nat)
    (cpuPeriod cpuFired timerPeriod timerFired : Nat) (engine : Engine) :
    let ticked := tick Job.run
      (ofJobs source cpuPeriod cpuFired timerPeriod timerFired) engine
    let cpuDue := cpuPeriod ≤ source.head - cpuFired
    let timersDue := timerPeriod ≤ source.head - timerFired
    (ticked.2 =
      if cpuDue then
        if timersDue ∧ engine.cycle.error = none then
          .ok engine.cycle.state.countDown
        else engine.cycle
      else if timersDue then .ok engine.countDown
      else .ok engine) ∧
    ∃ cpuFired' timerFired',
      ticked.1 =
        ofJobs source.advance cpuPeriod cpuFired' timerPeriod timerFired' := by
  intro ticked cpuDue timersDue
  simp only [ticked, tick, ofJobs]
  have hcpu : (⟨.cycle, cpuPeriod, cpuFired⟩ : Task Job).due source.head =
      decide cpuDue := rfl
  have htimers :
      (⟨.countDown, timerPeriod, timerFired⟩ : Task Job).due source.head =
        decide timersDue := rfl
  by_cases hc : cpuDue
  · simp only [hc, decide_true] at hcpu
    cases herror : engine.cycle.error with
    | some fault =>
        rw [fire_cons_of_error _ hcpu herror]
        exact ⟨by simp [hc, Job.run], _, _, rfl⟩
    | none =>
        rw [fire_cons_of_ok _ hcpu herror]
        by_cases ht : timersDue
        · simp only [ht, decide_true] at htimers
          rw [fire_cons_of_ok _ htimers rfl]
          exact ⟨by simp [hc, ht, Job.run, fire_nil], _, _, rfl⟩
        · simp only [ht, decide_false] at htimers
          rw [fire_cons_of_not_due _ _ htimers]
          have hcycle : engine.cycle = .ok engine.cycle.state := by
            rw [Outcome.ok, ← herror]
          exact ⟨by simp [hc, ht, Job.run, fire_nil, ← hcycle], _, _, rfl⟩
  · simp only [hc, decide_false] at hcpu
    rw [fire_cons_of_not_due _ _ hcpu]
    by_cases ht : timersDue
    · simp only [ht, decide_true] at htimers
      rw [fire_cons_of_ok _ htimers rfl]
      exact ⟨by simp [hc, ht, Job.run, fire_nil], _, _, rfl⟩
    · simp only [ht, decide_false] at htimers
      rw [fire_cons_of_not_due _ _ htimers]
      exact ⟨by simp [hc, ht, fire_nil], _, _, rfl⟩

end Clock

namespace Emulator

/-! ## Steps and polls of a running emulator -/

theorem step_of_fault {e : Emulator} {fault : Fault}
    (h : e.fault = some fault) : e.step = .fail e fault := by
  simp [step, unlessHalted, h]

theorem step_of_running {e : Emulator} (h : e.fault = none) :
    e.step = e.engine.cycle.map fun engine =>
      { e with engine := engine, fault := e.engine.cycle.error } := by
  simp [step, unlessHalted, h, Outcome.map]

theorem poll_of_fault {e : Emulator} {fault : Fault}
    (h : e.fault = some fault) : e.poll = .fail e fault := by
  simp [poll, unlessHalted, h]

theorem poll_of_running {e : Emulator} (h : e.fault = none) :
    e.poll = (e.clock.tick Job.run e.engine).2.map fun engine =>
      { engine := engine
        clock := (e.clock.tick Job.run e.engine).1
        fault := (e.clock.tick Job.run e.engine).2.error } := by
  simp [poll, unlessHalted, h, Outcome.map]

theorem run_append (e : Emulator) (requests more : List Request) :
    (e.run (requests ++ more)).1 = ((e.run requests).1.run more).1 := by
  induction requests generalizing e with
  | nil => rfl
  | cons request rest ih => exact ih (e.answer request).1

/-! ## Emulators that differ in their clocks -/

/-- Two emulators that are in the same state, their clocks apart. -/
structure SameButClock (e d : Emulator) : Prop where
  engine : e.engine = d.engine
  fault : e.fault = d.fault

theorem SameButClock.refl (e : Emulator) : SameButClock e e := ⟨rfl, rfl⟩

theorem SameButClock.trans {e d c : Emulator}
    (hed : SameButClock e d) (hdc : SameButClock d c) : SameButClock e c :=
  ⟨hed.engine.trans hdc.engine, hed.fault.trans hdc.fault⟩

/-- Only a poll looks at the clock. -/
theorem answer_sameButClock {e d : Emulator} (h : SameButClock e d)
    {request : Request} (hpoll : request ≠ .poll) :
    SameButClock (e.answer request).1 (d.answer request).1 := by
  obtain ⟨engine, clock, fault⟩ := e
  obtain ⟨engine', clock', fault'⟩ := d
  obtain ⟨hengine, hfault⟩ := h
  simp only at hengine hfault
  subst hengine hfault
  cases request with
  | poll => exact absurd rfl hpoll
  | step =>
      cases fault with
      | some fault => exact ⟨rfl, rfl⟩
      | none => exact ⟨rfl, rfl⟩
  | load rom =>
      simp only [answer, loadProgram, machine]
      cases (engine.console.machine.loadProgram rom).error with
      | some reason => exact ⟨rfl, rfl⟩
      | none => exact ⟨rfl, rfl⟩
  | _ => exact ⟨rfl, rfl⟩

theorem run_sameButClock {requests : List Request}
    (hpoll : ∀ request ∈ requests, request ≠ .poll)
    {e d : Emulator} (h : SameButClock e d) :
    SameButClock (e.run requests).1 (d.run requests).1 := by
  induction requests generalizing e d with
  | nil => exact h
  | cons request rest ih =>
      rw [List.forall_mem_cons] at hpoll
      exact ih hpoll.2 (answer_sameButClock h hpoll.1)

/-- Only a poll moves the clock. -/
theorem answer_clock (e : Emulator) {request : Request}
    (hpoll : request ≠ .poll) : (e.answer request).1.clock = e.clock := by
  cases request with
  | poll => exact absurd rfl hpoll
  | step =>
      simp only [answer, replyTo]
      cases hfault : e.fault with
      | some fault => rw [step_of_fault hfault, Outcome.state_fail]
      | none => rw [step_of_running hfault, Outcome.state_map]
  | load rom =>
      simp only [answer, loadProgram]
      cases (e.machine.loadProgram rom).error with
      | some reason => rfl
      | none => rfl
  | _ => rfl

theorem run_clock (e : Emulator) {requests : List Request}
    (hpoll : ∀ request ∈ requests, request ≠ .poll) :
    (e.run requests).1.clock = e.clock := by
  induction requests generalizing e with
  | nil => rfl
  | cons request rest ih =>
      rw [List.forall_mem_cons] at hpoll
      exact (ih _ hpoll.2).trans (e.answer_clock hpoll.1)

/-! ## What a poll amounts to -/

/-- An emulator whose clock holds its two jobs, as every booted one does. -/
def Paced (e : Emulator) : Prop :=
  ∃ source cpuPeriod cpuFired timerPeriod timerFired,
    e.clock =
      .ofJobs source cpuPeriod cpuFired timerPeriod timerFired

/-- What a host asks for by hand in place of one poll. -/
def duties (e : Emulator) : List Request :=
  if e.fault.isSome then []
  else if e.clock.isDue .cycle then
    if e.clock.isDue .countDown ∧ e.step.error = none then
      [.step, .countDown]
    else [.step]
  else if e.clock.isDue .countDown then [.countDown]
  else []

/-- A session in which every poll is replaced by what it amounts to. -/
def byHand (e : Emulator) : List Request → List Request
  | [] => []
  | .poll :: rest => e.duties ++ e.poll.state.byHand rest
  | request :: rest => request :: (e.answer request).1.byHand rest

/-- The outcome of doing by hand the jobs that are due: the timers have their
turn unless the word went wrong. -/
def shift (e : Emulator) (cpuDue timersDue : Prop)
    [Decidable cpuDue] [Decidable timersDue] : Outcome Fault Emulator :=
  if cpuDue then
    if timersDue ∧ e.step.error = none then .ok e.step.state.countDown
    else e.step
  else if timersDue then .ok e.countDown
  else .ok e

section OfJobs

variable {e : Emulator} {source : Tape Nat}
  {cpuPeriod cpuFired timerPeriod timerFired : Nat}

/-- A poll is as good as doing by hand what is due. -/
theorem poll_sameButClock_shift
    (hclock : e.clock =
      .ofJobs source cpuPeriod cpuFired timerPeriod timerFired)
    (hfault : e.fault = none) :
    let byHand := e.shift (cpuPeriod ≤ source.head - cpuFired)
      (timerPeriod ≤ source.head - timerFired)
    SameButClock e.poll.state byHand.state ∧ e.poll.error = byHand.error := by
  intro byHand
  obtain ⟨houtcome, -⟩ := Clock.tick_ofJobs source
    cpuPeriod cpuFired timerPeriod timerFired e.engine
  rw [poll_of_running hfault, hclock, houtcome]
  simp only [byHand, shift, step_of_running hfault, Outcome.error_map]
  split
  · split
    next hboth => exact ⟨⟨rfl, by simp [countDown, hboth.2]⟩, rfl⟩
    next => exact ⟨⟨rfl, rfl⟩, rfl⟩
  · split
    next => exact ⟨⟨rfl, hfault.symm⟩, rfl⟩
    next => exact ⟨⟨rfl, hfault.symm⟩, rfl⟩

end OfJobs

/-- A poll leaves both jobs with the clock. -/
theorem poll_paced {e : Emulator} (h : e.Paced) : e.poll.state.Paced := by
  cases hfault : e.fault with
  | some fault =>
      rw [poll_of_fault hfault, Outcome.state_fail]
      exact h
  | none =>
      obtain ⟨source, cpuPeriod, cpuFired, timerPeriod, timerFired, hclock⟩ := h
      obtain ⟨-, cpuFired', timerFired', hticked⟩ :=
        Clock.tick_ofJobs source cpuPeriod cpuFired timerPeriod timerFired
          e.engine
      rw [poll_of_running hfault, hclock]
      exact ⟨_, _, _, _, _, hticked⟩

theorem answer_paced {e : Emulator} (h : e.Paced) (request : Request) :
    (e.answer request).1.Paced := by
  by_cases hpoll : request = .poll
  · subst hpoll
    exact poll_paced h
  · unfold Paced
    rw [e.answer_clock hpoll]
    exact h

/-- Every session leaves both jobs with the clock. -/
theorem run_paced {e : Emulator} (h : e.Paced) (requests : List Request) :
    (e.run requests).1.Paced := by
  induction requests generalizing e with
  | nil => exact h
  | cons request rest ih => exact ih (answer_paced h request)

/-- The duties of a poll leave what the poll leaves, the clock apart. -/
theorem run_duties {e : Emulator} (h : e.Paced) :
    SameButClock e.poll.state (e.run e.duties).1 := by
  cases hfault : e.fault with
  | some fault =>
      rw [poll_of_fault hfault]
      simpa [duties, hfault, run] using SameButClock.refl e
  | none =>
      obtain ⟨source, cpuPeriod, cpuFired, timerPeriod, timerFired, hclock⟩ := h
      have hshift := (poll_sameButClock_shift hclock hfault).1
      have hrun : (e.run e.duties).1 =
          (e.shift (cpuPeriod ≤ source.head - cpuFired)
            (timerPeriod ≤ source.head - timerFired)).state := by
        simp only [duties, hfault, hclock, Clock.isDue_cycle_ofJobs,
          Clock.isDue_countDown_ofJobs, shift, decide_eq_true_eq]
        simp only [Option.isSome_none, Bool.false_eq_true, if_false]
        split
        · split
          · rfl
          · rfl
        · split
          · rfl
          · rfl
      exact hrun ▸ hshift

theorem duties_ne_poll (e : Emulator) :
    ∀ request ∈ e.duties, request ≠ .poll := by
  intro request hrequest
  unfold duties at hrequest
  grind

theorem byHand_ne_poll (e : Emulator) (requests : List Request) :
    ∀ request ∈ e.byHand requests, request ≠ .poll := by
  induction requests generalizing e with
  | nil => simp [byHand]
  | cons request rest ih =>
      by_cases hpoll : request = .poll
      · subst hpoll
        rw [byHand, List.forall_mem_append]
        exact ⟨e.duties_ne_poll, ih _⟩
      · rw [byHand, List.forall_mem_cons]
        · exact ⟨hpoll, ih _⟩
        · exact hpoll

/-- A session and the one done by hand leave the same, the clock apart. -/
theorem run_byHand {e d : Emulator} (hpaced : e.Paced)
    (hsame : SameButClock e d) (requests : List Request) :
    SameButClock (e.run requests).1 (d.run (e.byHand requests)).1 := by
  induction requests generalizing e d with
  | nil => exact hsame
  | cons request rest ih =>
      by_cases hpoll : request = .poll
      · subst hpoll
        have hduties : SameButClock e.poll.state (d.run e.duties).1 :=
          (run_duties hpaced).trans (run_sameButClock e.duties_ne_poll hsame)
        rw [byHand, run_append]
        exact ih (poll_paced hpaced) hduties
      · rw [byHand]
        · exact ih (answer_paced hpaced request)
            (answer_sameButClock hsame hpoll)
        · exact hpoll

/-- Polling is a schedule of manual requests.  A poll of a running emulator
leaves the engine and the fault, and reports what, doing by hand the jobs that
are due would; a session leaves the engine and the fault of the session with
its polls done by hand; and no manual request moves the clock. -/
theorem poll_is_schedule (e : Emulator) (source : Tape Nat)
    (cpuPeriod cpuFired timerPeriod timerFired : Nat)
    (hclock : e.clock =
      .ofJobs source cpuPeriod cpuFired timerPeriod timerFired) :
    (e.fault = none →
      let byHand := e.shift (cpuPeriod ≤ source.head - cpuFired)
        (timerPeriod ≤ source.head - timerFired)
      SameButClock e.poll.state byHand.state ∧
        e.poll.error = byHand.error) ∧
    (∀ requests,
      SameButClock (e.run requests).1 (e.run (e.byHand requests)).1 ∧
        ∀ request ∈ e.byHand requests, request ≠ .poll) ∧
    (∀ requests, (∀ request ∈ requests, request ≠ .poll) →
      (e.run requests).1.clock = e.clock) := by
  have hpaced : e.Paced := ⟨_, _, _, _, _, hclock⟩
  refine ⟨poll_sameButClock_shift hclock, ?_, ?_⟩
  · intro requests
    exact ⟨run_byHand hpaced (.refl e) requests, e.byHand_ne_poll requests⟩
  · intro requests hpoll
    exact e.run_clock hpoll

/-- With both jobs due, a poll carries out a word that reads the delay timer and
then counts the timers down. -/
theorem poll_reads_timer_then_counts_down :
    let machine : Machine :=
      { Machine.blank with
        memory := Memory.blank.put 0x200 [0xF3, 0x07]
        delay := 5
        sound := 1 }
    let engine : Engine :=
      ⟨⟨machine, .blank, fun _ => none, .ofCells fun _ => 0⟩,
        .ofPolicy .record, #[]⟩
    let source : Tape Nat := .ofCells fun n => 20 * n + 20
    let e : Emulator := ⟨engine, .ofJobs source 10 0 20 0, none⟩
    let after := e.poll.state
    e.clock = .ofJobs source 10 0 20 0 ∧ e.fault = none ∧
      SameButClock after e.step.state.countDown ∧
      after.machine.reg 3 = 5 ∧ after.machine.delay = 4 ∧
      after.machine.sound = 0 := by
  intro machine engine source e after
  have hpoll := ((poll_is_schedule e source 10 0 20 0 rfl).1 rfl).1
  have hstep : e.step.error = none := by decide +kernel
  have hshift : e.shift (10 ≤ source.head - 0) (20 ≤ source.head - 0) =
      .ok e.step.state.countDown := by
    rw [shift, if_pos (by decide), if_pos ⟨by decide, hstep⟩]
  rw [hshift] at hpoll
  have hmachine : after.machine = e.step.state.countDown.machine :=
    congrArg (·.console.machine) hpoll.engine
  rw [hmachine]
  exact ⟨rfl, rfl, hpoll, by decide +kernel, by decide +kernel,
    by decide +kernel⟩

end Emulator

end Chip8
