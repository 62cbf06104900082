import Chip8.Proofs.Chronicle

/-!
# Emulators that differ in their policy

The policy for words that stand for no instruction decides what is noted down
and warned about, and nothing else.  Two engines that agree in their consoles
and, warnings apart, in their journals stay so with every cycle, whatever their
dispatchers have noted down; so two emulators that start with different policies
cannot be told apart by what they do.
-/

namespace Chip8

namespace Engine

/-- Two engines agree in their consoles and in their journals, warnings
apart. -/
structure SameButWarnings (e d : Engine) : Prop where
  console : d.console = e.console
  journal : d.journal.toList.filter (·.level ≠ "WARN") =
    e.journal.toList.filter (·.level ≠ "WARN")

namespace SameButWarnings

variable {e d : Engine}

theorem word (h : SameButWarnings e d) : d.word = e.word := by
  rw [Engine.word, Engine.word, h.console]

theorem withConsole (h : SameButWarnings e d) (console : Console) :
    SameButWarnings { e with console := console }
      { d with console := console } :=
  ⟨rfl, h.journal⟩

theorem note (h : SameButWarnings e d) (entry : Entry) :
    SameButWarnings (e.note entry) (d.note entry) := by
  refine ⟨h.console, ?_⟩
  simp only [Engine.note, Array.toList_push, List.filter_append, h.journal]

/-- What a dispatcher notes down on passing over a word makes no difference. -/
theorem passOver (h : SameButWarnings e d) (word : UInt16) :
    SameButWarnings
      ⟨e.console, (e.dispatcher.passOver word).1,
        e.journal ++ (e.dispatcher.passOver word).2⟩
      ⟨d.console, (d.dispatcher.passOver word).1,
        d.journal ++ (d.dispatcher.passOver word).2⟩ := by
  have hwarnings (noter : Dispatcher) :
      (noter.passOver word).2.filter (·.level ≠ "WARN") = [] := by
    unfold Dispatcher.passOver
    split
    · rfl
    · rfl
  refine ⟨h.console, ?_⟩
  simp only [Array.toList_appendList, List.filter_append, hwarnings, h.journal]

end SameButWarnings

/-- A cycle cannot tell two such engines apart. -/
theorem cycle_sameButWarnings {e d : Engine} (h : SameButWarnings e d) :
    e.cycle.Alike SameButWarnings d.cycle := by
  cases e.course with
  | noWord fault hword =>
      rw [cycle_of_word_error hword,
        cycle_of_word_error (h.word.trans hword)]
      exact ⟨rfl, h⟩
  | passedOver word hword hdecode =>
      rw [cycle_eq_of_decode_none hword hdecode,
        cycle_eq_of_decode_none (h.word.trans hword) hdecode, h.console]
      exact ⟨rfl, ((h.passOver word).withConsole _).note _⟩
  | wentWrong word i fault hword hdecode hexecute =>
      have hother : (d.console.execute i).error = some fault := by
        rw [h.console, hexecute]
      rw [cycle_eq_of_execute_error hword hdecode hexecute,
        cycle_eq_of_execute_error (h.word.trans hword) hdecode hother,
        h.console]
      exact ⟨rfl, (h.withConsole _).note _⟩
  | carriedOut word i hword hdecode hexecute =>
      have hother : (d.console.execute i).error = none := by
        rw [h.console, hexecute]
      rw [cycle_eq_of_execute_ok hword hdecode hexecute,
        cycle_eq_of_execute_ok (h.word.trans hword) hdecode hother,
        h.console]
      exact ⟨rfl, (h.withConsole _).note _⟩

theorem countDown_sameButWarnings {e d : Engine} (h : SameButWarnings e d) :
    SameButWarnings e.countDown d.countDown := by
  unfold countDown withMachine
  rw [h.console]
  exact h.withConsole _

end Engine

theorem Job.run_sameButWarnings (job : Job) (e d : Engine)
    (h : e.SameButWarnings d) :
    (job.run e).Alike Engine.SameButWarnings (job.run d) := by
  cases job with
  | cycle => exact Engine.cycle_sameButWarnings h
  | countDown => exact ⟨rfl, Engine.countDown_sameButWarnings h⟩

namespace Emulator

/-- Two emulators agree in their engines, warnings apart, and in all else. -/
structure SameButWarnings (e d : Emulator) : Prop where
  engine : e.engine.SameButWarnings d.engine
  clock : d.clock = e.clock
  fault : d.fault = e.fault

variable {e d : Emulator}

theorem unlessHalted_sameButWarnings (h : SameButWarnings e d)
    {act : Emulator → Outcome Fault Emulator}
    (hact : (act e).Alike SameButWarnings (act d)) :
    (e.unlessHalted act).Alike SameButWarnings (d.unlessHalted act) := by
  unfold unlessHalted
  rw [h.fault]
  split
  next fault hfault => exact ⟨rfl, h⟩
  next => exact ⟨hact.error, hact.state.engine, hact.state.clock, hact.error⟩

theorem step_sameButWarnings (h : SameButWarnings e d) :
    e.step.Alike SameButWarnings d.step := by
  have hcycle := Engine.cycle_sameButWarnings h.engine
  exact unlessHalted_sameButWarnings h
    ⟨hcycle.error, hcycle.state, h.clock, h.fault⟩

theorem poll_sameButWarnings (h : SameButWarnings e d) :
    e.poll.Alike SameButWarnings d.poll := by
  apply unlessHalted_sameButWarnings h
  obtain ⟨hclock, hticked⟩ :=
    Clock.tick_alike Job.run_sameButWarnings e.clock h.engine
  rw [h.clock]
  exact ⟨hticked.error, hticked.state, hclock, h.fault⟩

theorem replyTo_sameButWarnings {o p : Outcome Fault Emulator}
    (h : o.Alike SameButWarnings p) :
    (replyTo p).2 = (replyTo o).2 ∧
      SameButWarnings (replyTo o).1 (replyTo p).1 := by
  simp only [replyTo, h.error]
  exact ⟨trivial, h.state⟩

/-- No request can tell two such emulators apart. -/
theorem answer_sameButWarnings (h : SameButWarnings e d) (request : Request) :
    (d.answer request).2 = (e.answer request).2 ∧
      SameButWarnings (e.answer request).1 (d.answer request).1 := by
  have hconsole := h.engine.console
  cases request with
  | step => exact replyTo_sameButWarnings (step_sameButWarnings h)
  | poll => exact replyTo_sameButWarnings (poll_sameButWarnings h)
  | countDown =>
      exact ⟨rfl, Engine.countDown_sameButWarnings h.engine, h.clock, h.fault⟩
  | refresh =>
      simp only [answer, refresh, withConsole, screen, hconsole]
      exact ⟨trivial, h.engine.withConsole _, h.clock, h.fault⟩
  | setLatch latch =>
      simp only [answer, setLatch, withConsole, hconsole]
      exact ⟨trivial, h.engine.withConsole _, h.clock, h.fault⟩
  | edit change =>
      simp only [answer, edit, withConsole, machine, hconsole]
      exact ⟨trivial, h.engine.withConsole _, h.clock, h.fault⟩
  | load rom =>
      simp only [answer, loadProgram, machine, hconsole]
      cases (e.engine.console.machine.loadProgram rom).error with
      | some reason =>
          refine ⟨rfl, ?_, h.clock, h.fault⟩
          unfold Engine.withMachine
          rw [hconsole]
          exact h.engine.withConsole _
      | none =>
          refine ⟨rfl, ?_, h.clock, h.fault⟩
          unfold Engine.withMachine
          rw [hconsole]
          exact (h.engine.withConsole _).note _

theorem run_sameButWarnings (h : SameButWarnings e d)
    (requests : List Request) :
    (d.run requests).2 = (e.run requests).2 ∧
      SameButWarnings (e.run requests).1 (d.run requests).1 := by
  induction requests generalizing e d with
  | nil => exact ⟨rfl, h⟩
  | cons request rest ih =>
      obtain ⟨hreply, hanswer⟩ := answer_sameButWarnings h request
      obtain ⟨hreplies, hrest⟩ := ih hanswer
      exact ⟨congrArg₂ List.cons hreply hreplies, hrest⟩

/-- An emulator that passes over unknown words silently never notes any down,
whatever the host does. -/
theorem run_unknown_of_ignore (hpaced : e.Paced)
    (hdispatcher : e.engine.dispatcher = .ofPolicy .ignore)
    (requests : List Request) : (e.run requests).1.unknown = [] := by
  let Silent (_ : List Engine) (engine : Engine) : Prop :=
    engine.dispatcher = .ofPolicy .ignore
  have hcycle (done : List Engine) (engine : Engine)
      (h : Silent done engine) :
      Silent (done ++ [engine]) engine.cycle.state :=
    (Engine.cycle_reports .ignore [] h).1
  have hhost : ∀ request ∈ requests, request.isWork = false →
      ∀ done (now : Emulator), Silent done now.engine →
        Silent done (now.answer request).1.engine := by
    intro request _ hwork done now h
    cases request with
    | step | poll | countDown => cases hwork
    | refresh | setLatch | edit => exact h
    | load rom =>
        simp only [answer, loadProgram]
        cases (now.machine.loadProgram rom).error with
        | some reason => exact h
        | none => exact h
  have hrun : (e.run requests).1.engine.dispatcher = .ofPolicy .ignore :=
    run_engine_history (P := Silent) hcycle (fun _ _ h => h) hpaced hhost []
      hdispatcher
  rw [unknown, hrun]
  rfl

/-- The policy has a say in the dispatcher alone. -/
theorem boot_withPolicy (rom : Program) (latch : Latch) (config : Config)
    (source : Tape Nat) (entropy : Entropy) (policy : Policy) :
    boot rom latch { config with policy := policy } source entropy =
      (boot rom latch config source entropy).map fun e =>
        { e with engine :=
          { e.engine with dispatcher := .ofPolicy policy } } := by
  have hclock : jobClock { config with policy := policy } source =
      jobClock config source := rfl
  simp only [boot, hclock]
  cases (Machine.blank.loadFont.loadProgram rom).error with
  | some reason => rfl
  | none =>
      cases (jobClock config source).error with
      | some reason => rfl
      | none => rfl

/-- Recording the words that stand for no instruction only observes.  Of two
emulators that are set up alike but for their policy either both are refused, or
every session has the same replies and frames with both, and leaves them with
the same console, clock, fault and journal, warnings apart; and the one that
passes over such words silently never notes any down. -/
theorem policy_only_observes (rom : Program) (latch : Latch)
    (config : Config) (source : Tape Nat) (entropy : Entropy) :
    let start (policy : Policy) :=
      boot rom latch { config with policy := policy } source entropy
    (∃ reason,
      start .ignore = .error reason ∧ start .record = .error reason) ∨
    ∃ e d, start .ignore = .ok e ∧ start .record = .ok d ∧
      ∀ requests,
        let ignoring := e.run requests
        let recording := d.run requests
        recording.2 = ignoring.2 ∧
          recording.1.engine.console = ignoring.1.engine.console ∧
          recording.1.clock = ignoring.1.clock ∧
          recording.1.fault = ignoring.1.fault ∧
          recording.1.engine.journal.toList.filter (·.level ≠ "WARN") =
            ignoring.1.engine.journal.toList.filter (·.level ≠ "WARN") ∧
          ignoring.1.unknown = [] := by
  intro start
  cases hboot : boot rom latch config source entropy with
  | error reason =>
      left
      refine ⟨reason, ?_, ?_⟩
      · simp only [start, boot_withPolicy, hboot, Except.map]
      · simp only [start, boot_withPolicy, hboot, Except.map]
  | ok b =>
      right
      let under (policy : Policy) : Emulator :=
        { b with engine := { b.engine with dispatcher := .ofPolicy policy } }
      have hstart (policy : Policy) : start policy = .ok (under policy) := by
        simp only [start, under, boot_withPolicy, hboot, Except.map]
      have hsame : SameButWarnings (under .ignore) (under .record) :=
        ⟨⟨rfl, rfl⟩, rfl, rfl⟩
      refine ⟨under .ignore, under .record, hstart .ignore, hstart .record, ?_⟩
      intro requests ignoring recording
      obtain ⟨hreplies, hnow⟩ := run_sameButWarnings hsame requests
      exact ⟨hreplies, hnow.engine.console, hnow.clock, hnow.fault,
        hnow.engine.journal,
        run_unknown_of_ignore (boot_paced (hstart .ignore)) rfl requests⟩

end Emulator

end Chip8
