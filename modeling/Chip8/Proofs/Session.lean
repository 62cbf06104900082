import Chip8.Proofs.Cycle
import Chip8.Proofs.Schedule

/-!
# Words carried out in a session

A session carries out words one after another, some asked for directly and some
because a poll found them due.  `Emulator.cycles` lists the engines on which it
does so.  A property of machines is carried along a session by showing what one
such cycle and one step of the timers do to it.
-/

namespace Chip8

/-- Whether a host keeps its hands off the machine with a request. -/
def Request.sparesMachine : Request → Bool
  | .edit _ | .load _ => false
  | _ => true

/-- Whether a request has the emulator do some of its own work. -/
def Request.isWork : Request → Bool
  | .step | .poll | .countDown => true
  | _ => false

/-- A timer that is lowered does not wrap around. -/
theorem toNat_ofNat_sub (b : UInt8) (n : Nat) :
    (UInt8.ofNat (b.toNat - n)).toNat = b.toNat - n :=
  UInt8.toNat_ofNat_of_lt' (Nat.lt_of_le_of_lt (Nat.sub_le _ _) b.toNat_lt)

/-- A piece of the work done in a session. -/
inductive Deed
  /-- A word was carried out on this engine. -/
  | word (engine : Engine)
  /-- The timers were counted down. -/
  | countDown

namespace Deed

/-- The engine that a word was carried out on. -/
def engine? : Deed → Option Engine
  | .word engine => some engine
  | .countDown => none

/-- How many times the timers have been counted down. -/
def ticks (done : List Deed) : Nat :=
  done.countP (·.engine?.isNone)

theorem ticks_append (done more : List Deed) :
    ticks (done ++ more) = ticks done + ticks more :=
  List.countP_append

end Deed

namespace Emulator

/-- Whether a request has a word carried out. -/
def carriesOut (e : Emulator) : Request → Bool
  | .step => e.fault.isNone
  | .poll => e.fault.isNone && e.clock.isDue .cycle
  | _ => false

/-- The engines on which a session has words carried out, in order. -/
def cycles (e : Emulator) : List Request → List Engine
  | [] => []
  | request :: rest =>
    (if e.carriesOut request then [e.engine] else []) ++
      (e.answer request).1.cycles rest

/-- Every word of a session is carried out on the engine that the requests
before have left. -/
theorem cycles_eq_append_cons {e : Emulator} {requests : List Request}
    {earlier later : List Engine} {engine : Engine}
    (h : e.cycles requests = earlier ++ engine :: later) :
    ∃ before request after,
      requests = before ++ request :: after ∧
      e.cycles before = earlier ∧
      (e.run before).1.engine = engine ∧
      (e.run before).1.carriesOut request = true := by
  induction requests generalizing e earlier with
  | nil => simp [cycles] at h
  | cons request rest ih =>
      rw [cycles] at h
      by_cases hcarries : e.carriesOut request = true
      · rw [if_pos hcarries, List.singleton_append] at h
        cases earlier with
        | nil =>
            obtain ⟨hengine, -⟩ := List.cons.inj h
            exact ⟨[], request, rest, rfl, rfl, hengine, hcarries⟩
        | cons first earlier =>
            obtain ⟨hfirst, hrest⟩ := List.cons.inj h
            obtain ⟨before, next, after, hsplit, hbefore, hengine, hnext⟩ :=
              ih hrest
            refine ⟨request :: before, next, after, ?_, ?_, hengine, hnext⟩
            · rw [hsplit, List.cons_append]
            · rw [cycles, if_pos hcarries, hbefore, hfirst,
                List.singleton_append]
      · rw [if_neg hcarries, List.nil_append] at h
        obtain ⟨before, next, after, hsplit, hbefore, hengine, hnext⟩ := ih h
        refine ⟨request :: before, next, after, ?_, ?_, hengine, hnext⟩
        · rw [hsplit, List.cons_append]
        · rw [cycles, if_neg hcarries, hbefore, List.nil_append]

/-- The engine that a request has worked on once its word, if it has one
carried out, is done. -/
def afterWord (e : Emulator) (request : Request) : Engine :=
  if e.carriesOut request then e.engine.cycle.state else e.engine

/-- Whether a request has the timers counted down.  A poll leaves that out, even
if it is due, when its word has gone wrong. -/
def countsDown (e : Emulator) : Request → Bool
  | .countDown => true
  | .poll =>
    e.fault.isNone && e.clock.isDue .countDown &&
      !(e.clock.isDue .cycle && e.engine.cycle.error.isSome)
  | _ => false

theorem poll_engine {e : Emulator} (hpaced : e.Paced) :
    e.poll.state.engine =
      if e.countsDown .poll then (e.afterWord .poll).countDown
      else e.afterWord .poll := by
  cases hfault : e.fault with
  | some fault =>
      rw [poll_of_fault hfault]
      simp [afterWord, carriesOut, countsDown, hfault]
  | none =>
      obtain ⟨source, cpuPeriod, cpuFired, timerPeriod, timerFired, hclock⟩ :=
        hpaced
      have hengine := (poll_sameButClock_shift hclock hfault).1.engine
      simp only [hengine, shift, step_of_running hfault, afterWord,
        carriesOut, countsDown, hfault, hclock, Clock.isDue_cycle_ofJobs,
        Clock.isDue_countDown_ofJobs, Option.isNone_none, Bool.true_and,
        decide_eq_true_eq]
      by_cases hword : cpuPeriod ≤ source.head - cpuFired
      · by_cases htimers : timerPeriod ≤ source.head - timerFired
        · cases herror : e.engine.cycle.error with
          | none => simp [hword, htimers, herror, countDown]
          | some fault => simp [hword, htimers, herror]
        · simp [hword, htimers]
      · by_cases htimers : timerPeriod ≤ source.head - timerFired
        · simp [hword, htimers, countDown]
        · simp [hword, htimers]

/-- An emulator at work carries out a word and then counts the timers down,
each if the request has that done, and changes its engine in no other way. -/
theorem answer_engine_eq {e : Emulator} (hpaced : e.Paced)
    {request : Request} (hwork : request.isWork = true) :
    (e.answer request).1.engine =
      if e.countsDown request then (e.afterWord request).countDown
      else e.afterWord request := by
  cases request with
  | edit | load | refresh | setLatch => cases hwork
  | poll => exact poll_engine hpaced
  | countDown => rfl
  | step =>
      cases hfault : e.fault with
      | some fault =>
          simp [answer, replyTo, step_of_fault hfault, afterWord, carriesOut,
            countsDown, hfault]
      | none =>
          simp [answer, replyTo, step_of_running hfault, afterWord,
            carriesOut, countsDown, hfault]

theorem answer_engine {e : Emulator} (hpaced : e.Paced) {request : Request}
    (hwork : request.isWork = true) :
    (e.answer request).1.engine = e.afterWord request ∨
      (e.answer request).1.engine = (e.afterWord request).countDown := by
  rw [answer_engine_eq hpaced hwork]
  split
  · exact Or.inr rfl
  · exact Or.inl rfl

/-- The word that a request has carried out decides on the fault. -/
theorem answer_fault {e : Emulator} (hpaced : e.Paced) (request : Request) :
    (e.answer request).1.fault =
      if e.carriesOut request then e.engine.cycle.error else e.fault := by
  cases request with
  | step =>
      cases hfault : e.fault with
      | some fault =>
          simp [answer, replyTo, step_of_fault hfault, carriesOut, hfault]
      | none =>
          simp [answer, replyTo, step_of_running hfault, carriesOut, hfault]
  | poll =>
      cases hfault : e.fault with
      | some fault =>
          simp [answer, replyTo, poll_of_fault hfault, carriesOut, hfault]
      | none =>
          obtain ⟨source, cpuPeriod, cpuFired, timerPeriod, timerFired,
            hclock⟩ := hpaced
          have hpoll := (poll_sameButClock_shift hclock hfault).1.fault
          simp only [answer, replyTo, hpoll, shift, step_of_running hfault,
            carriesOut, hfault, hclock, Clock.isDue_cycle_ofJobs,
            Option.isNone_none, Bool.true_and, decide_eq_true_eq]
          split
          · split
            · rfl
            · rfl
          · split
            · exact hfault
            · exact hfault
  | load rom =>
      simp only [answer, loadProgram]
      cases (e.machine.loadProgram rom).error with
      | some reason => rfl
      | none => rfl
  | _ => rfl

/-- A session whose words all go well leaves the fault alone. -/
theorem run_fault_of_cycles_ok {e : Emulator} (hpaced : e.Paced)
    {requests : List Request}
    (hok : ∀ engine ∈ e.cycles requests, engine.cycle.error = none)
    (hrunning : e.fault = none) : (e.run requests).1.fault = none := by
  induction requests generalizing e with
  | nil => exact hrunning
  | cons request rest ih =>
      rw [cycles, List.forall_mem_append] at hok
      apply ih (answer_paced hpaced request) hok.2
      rw [answer_fault hpaced]
      split
      next hcarries =>
        apply hok.1
        rw [if_pos hcarries]
        exact List.mem_singleton_self _
      next => exact hrunning

theorem carriesOut_of_not_isWork (e : Emulator) {request : Request}
    (hwork : request.isWork = false) : e.carriesOut request = false := by
  cases request with
  | step | poll | countDown => cases hwork
  | _ => rfl

/-- What a session does, in order. -/
def deeds (e : Emulator) : List Request → List Deed
  | [] => []
  | request :: rest =>
    (if e.carriesOut request then [.word e.engine] else []) ++
      (if e.countsDown request then [.countDown] else []) ++
      (e.answer request).1.deeds rest

theorem filterMap_deeds (e : Emulator) (requests : List Request) :
    (e.deeds requests).filterMap Deed.engine? = e.cycles requests := by
  induction requests generalizing e with
  | nil => rfl
  | cons request rest ih =>
      rw [deeds, cycles, List.filterMap_append, List.filterMap_append, ih]
      congr 1
      split
      · split
        · rfl
        · rfl
      · split
        · rfl
        · rfl

theorem countsDown_of_not_isWork (e : Emulator) {request : Request}
    (hwork : request.isWork = false) : e.countsDown request = false := by
  cases request with
  | step | poll | countDown => cases hwork
  | _ => rfl

/-- An invariant that may speak of the work done so far: what holds at first,
and is kept by a cycle, by a step of the timers and by what the host does
itself, holds after every session. -/
theorem run_deeds_history {P : List Deed → Engine → Prop}
    (hcycle : ∀ done engine, P done engine →
      P (done ++ [.word engine]) engine.cycle.state)
    (hcount : ∀ done engine, P done engine →
      P (done ++ [.countDown]) engine.countDown)
    {e : Emulator} (hpaced : e.Paced) {requests : List Request}
    (hhost : ∀ request ∈ requests, request.isWork = false →
      ∀ done (now : Emulator), P done now.engine →
        P done (now.answer request).1.engine)
    (done : List Deed) (h : P done e.engine) :
    P (done ++ e.deeds requests) (e.run requests).1.engine := by
  induction requests generalizing e done with
  | nil => simpa [deeds, run] using h
  | cons request rest ih =>
      rw [List.forall_mem_cons] at hhost
      have hanswer :
          P (done ++ ((if e.carriesOut request then [.word e.engine] else []) ++
              if e.countsDown request then [.countDown] else []))
            (e.answer request).1.engine := by
        cases hwork : request.isWork with
        | false =>
            rw [e.carriesOut_of_not_isWork hwork,
              e.countsDown_of_not_isWork hwork, if_neg Bool.false_ne_true,
              if_neg Bool.false_ne_true, List.append_nil, List.append_nil]
            exact hhost.1 hwork done e h
        | true =>
            have hword :
                P (done ++ if e.carriesOut request then [.word e.engine] else [])
                  (e.afterWord request) := by
              unfold afterWord
              split
              · exact hcycle done e.engine h
              · rw [List.append_nil]
                exact h
            rw [answer_engine_eq hpaced hwork, ← List.append_assoc]
            cases hcounts : e.countsDown request with
            | true => exact hcount _ _ hword
            | false =>
                rw [if_neg Bool.false_ne_true, if_neg Bool.false_ne_true,
                  List.append_nil]
                exact hword
      have hrest := ih (answer_paced hpaced request) hhost.2 _ hanswer
      rw [deeds, ← List.append_assoc]
      exact hrest

/-- An invariant that speaks of the words carried out alone. -/
theorem run_engine_history {P : List Engine → Engine → Prop}
    (hcycle : ∀ done engine, P done engine →
      P (done ++ [engine]) engine.cycle.state)
    (hcount : ∀ done engine, P done engine → P done engine.countDown)
    {e : Emulator} (hpaced : e.Paced) {requests : List Request}
    (hhost : ∀ request ∈ requests, request.isWork = false →
      ∀ done (now : Emulator), P done now.engine →
        P done (now.answer request).1.engine)
    (done : List Engine) (h : P done e.engine) :
    P (done ++ e.cycles requests) (e.run requests).1.engine := by
  let Told (deeds : List Deed) (engine : Engine) : Prop :=
    P (done ++ deeds.filterMap Deed.engine?) engine
  have hword (deeds : List Deed) (engine : Engine) (h : Told deeds engine) :
      Told (deeds ++ [.word engine]) engine.cycle.state := by
    simpa [Told, List.filterMap_cons, Deed.engine?] using hcycle _ engine h
  have htick (deeds : List Deed) (engine : Engine) (h : Told deeds engine) :
      Told (deeds ++ [.countDown]) engine.countDown := by
    simpa [Told, List.filterMap_cons, Deed.engine?] using hcount _ engine h
  have hstart : Told [] e.engine := by
    simpa [Told] using h
  have hrun := run_deeds_history hword htick hpaced
    (fun request hmem hwork deeds => hhost request hmem hwork _) [] hstart
  rw [← e.filterMap_deeds]
  exact hrun

/-- A host that spares the machine changes it only by having work done. -/
theorem answer_machine_of_spared (e : Emulator) {request : Request}
    (hspares : request.sparesMachine = true)
    (hwork : request.isWork = false) :
    (e.answer request).1.machine = e.machine := by
  cases request with
  | step | poll | countDown => cases hwork
  | edit | load => cases hspares
  | refresh | setLatch => rfl

/-- Such a host keeps an invariant of the machine without doing anything for
it. -/
theorem run_deeds_machine {P : List Deed → Machine → Prop}
    (hcycle : ∀ done (engine : Engine), P done engine.console.machine →
      P (done ++ [.word engine]) engine.cycle.state.console.machine)
    (hcount : ∀ done machine, P done machine →
      P (done ++ [.countDown]) machine.countDown)
    {e : Emulator} (hpaced : e.Paced) {requests : List Request}
    (hspares : ∀ request ∈ requests, request.sparesMachine = true)
    (done : List Deed) (h : P done e.machine) :
    P (done ++ e.deeds requests) (e.run requests).1.machine := by
  have hhost : ∀ request ∈ requests, request.isWork = false →
      ∀ done (now : Emulator), P done now.machine →
        P done (now.answer request).1.machine := by
    intro request hmem hwork done now hnow
    rwa [now.answer_machine_of_spared (hspares request hmem) hwork]
  exact run_deeds_history
    (P := fun done engine => P done engine.console.machine) hcycle
    (fun done engine => hcount done engine.console.machine) hpaced hhost done h

/-- An invariant of the machine that speaks of the words carried out alone. -/
theorem run_history {P : List Engine → Machine → Prop}
    (hcycle : ∀ done (engine : Engine), P done engine.console.machine →
      P (done ++ [engine]) engine.cycle.state.console.machine)
    (hcount : ∀ done machine, P done machine → P done machine.countDown)
    {e : Emulator} (hpaced : e.Paced) {requests : List Request}
    (hspares : ∀ request ∈ requests, request.sparesMachine = true)
    (done : List Engine) (h : P done e.machine) :
    P (done ++ e.cycles requests) (e.run requests).1.machine := by
  have hhost : ∀ request ∈ requests, request.isWork = false →
      ∀ done (now : Emulator), P done now.machine →
        P done (now.answer request).1.machine := by
    intro request hmem hwork done now hnow
    rwa [now.answer_machine_of_spared (hspares request hmem) hwork]
  exact run_engine_history
    (P := fun done engine => P done engine.console.machine) hcycle
    (fun done engine => hcount done engine.console.machine) hpaced hhost done h

/-- Such an invariant also holds wherever a session carries out a word. -/
theorem cycles_history {P : List Engine → Machine → Prop}
    (hcycle : ∀ done (engine : Engine), P done engine.console.machine →
      P (done ++ [engine]) engine.cycle.state.console.machine)
    (hcount : ∀ done machine, P done machine → P done machine.countDown)
    {e : Emulator} (hpaced : e.Paced) {requests : List Request}
    (hspares : ∀ request ∈ requests, request.sparesMachine = true)
    (h : P [] e.machine) {earlier later : List Engine} {engine : Engine}
    (hcycles : e.cycles requests = earlier ++ engine :: later) :
    P earlier engine.console.machine := by
  obtain ⟨before, request, after, rfl, hearlier, hengine, -⟩ :=
    cycles_eq_append_cons hcycles
  have hbefore : ∀ request ∈ before, request.sparesMachine = true := by
    intro request hmem
    exact hspares request (List.mem_append_left _ hmem)
  have hrun := run_history hcycle hcount hpaced hbefore [] h
  rw [List.nil_append, hearlier] at hrun
  rw [← hengine]
  exact hrun

end Emulator

end Chip8
