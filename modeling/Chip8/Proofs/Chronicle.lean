import Chip8.Proofs.Assembly
import Chip8.Proofs.Dispatching
import Chip8.Proofs.Halt
import Chip8.Proofs.Session

/-!
# The journal of a session

What a session notes in the journal is told by the words it carries out.  Each
cycle has its report, which depends on the words passed over before it and not
on the dispatcher or the journal; the journal is these reports one after
another, and the log is their lines.  A cycle that goes wrong is the last one of
its session, so that no report follows the one of its fault.
-/

namespace Chip8

namespace Entry

variable (pc w : UInt16)

theorem line_unknown :
    (unknown w).line =
      "WARN ignoring unknown opcode " ++ String.ofList (Word.text w) := by
  have hopening : "WARN ignoring unknown opcode " =
      "WARN" ++ " " ++ "ignoring unknown opcode " := by decide +kernel
  have hline : (unknown w).line =
      "WARN" ++ " " ++ ("ignoring unknown opcode " ++ word w) := rfl
  rw [hline, hopening]
  simp only [word, String.append_assoc]

theorem line_skipped :
    (skipped pc w).line =
      "TRACE " ++ String.ofList (Hex.marked 3 pc.toNat) ++ "  " ++
        String.ofList (Word.text w) ++ "  (skipped)" := by
  have hopening : "TRACE " = "TRACE" ++ " " := by decide +kernel
  have hline : (skipped pc w).line =
      "TRACE" ++ " " ++ (counter pc ++ "  " ++ word w ++ "  (skipped)") := rfl
  rw [hline, hopening]
  simp only [counter, word, String.append_assoc]

theorem line_executed (i : Instruction) :
    (executed pc w i).line =
      "TRACE " ++ String.ofList (Hex.marked 3 pc.toNat) ++ "  " ++
        String.ofList (Word.text w) ++ "  " ++ i.text := by
  have hopening : "TRACE " = "TRACE" ++ " " := by decide +kernel
  have hline : (executed pc w i).line =
      "TRACE" ++ " " ++ (counter pc ++ "  " ++ word w ++ "  " ++ i.text) := rfl
  rw [hline, hopening]
  simp only [counter, word, String.append_assoc]

theorem line_halted (fault : Fault) :
    (halted pc w fault).line =
      "ERROR halted at " ++ String.ofList (Hex.marked 3 pc.toNat) ++
        " executing " ++ String.ofList (Word.text w) ++ ": " ++
        fault.message := by
  have hopening : "ERROR halted at " = "ERROR" ++ " " ++ "halted at " := by
    decide +kernel
  have hline : (halted pc w fault).line =
      "ERROR" ++ " " ++
        ("halted at " ++ counter pc ++ " executing " ++ word w ++ ": " ++
          fault.message) := rfl
  rw [hline, hopening]
  simp only [counter, word, String.append_assoc]

end Entry

namespace Engine

/-- The word that a cycle passes over, if it passes over one. -/
def passed? (e : Engine) : Option UInt16 :=
  match e.word with
  | .error _ => none
  | .ok word => if Word.isUnknown word then some word else none

/-- What a cycle notes in the journal, given the words passed over before: for
a word that stands for no instruction that it is skipped, with a warning in
front at its first sighting, and else that its instruction was executed or what
went wrong with it.  Without a word there is nothing to tell. -/
def report (policy : Policy) (passed : List UInt16) (e : Engine) :
    List Entry :=
  let pc := e.console.machine.pc
  match e.word with
  | .error _ => []
  | .ok word =>
    match Instruction.decode word, e.cycle.error with
    | none, _ => policy.warnings passed word ++ [.skipped pc word]
    | some i, none => [.executed pc word i]
    | some _, some fault => [.halted pc word fault]

/-- The lines that a cycle writes into the log, given the words passed over
before. -/
def linesOf (policy : Policy) (passed : List UInt16) (e : Engine) :
    List String :=
  let pc := String.ofList (Hex.marked 3 e.console.machine.pc.toNat)
  match e.word with
  | .error _ => []
  | .ok word =>
    let digits := String.ofList (Word.text word)
    match Instruction.decode word, e.cycle.error with
    | none, _ =>
      (if policy = .record ∧ word ∉ passed then
        ["WARN ignoring unknown opcode " ++ digits] else []) ++
        ["TRACE " ++ pc ++ "  " ++ digits ++ "  (skipped)"]
    | some i, none => ["TRACE " ++ pc ++ "  " ++ digits ++ "  " ++ i.text]
    | some _, some fault =>
      ["ERROR halted at " ++ pc ++ " executing " ++ digits ++ ": " ++
        fault.message]

/-- What cycles add to a record one after another, each given the words passed
over before it. -/
def inTurn {α : Type} (add : List UInt16 → Engine → List α) :
    (passed : List UInt16) → List Engine → List α
  | _, [] => []
  | passed, e :: rest =>
    add passed e ++ inTurn add (passed ++ e.passed?.toList) rest

/-- What cycles note in the journal one after another. -/
def chronicle (policy : Policy) (passed : List UInt16)
    (engines : List Engine) : List Entry :=
  inTurn (report policy) passed engines

/-- The lines that cycles write into the log one after another. -/
def logOf (policy : Policy) (engines : List Engine) : List String :=
  inTurn (linesOf policy) [] engines

section

variable {e : Engine} {word : UInt16} {i : Instruction} {fault : Fault}
  (policy : Policy) (passed : List UInt16)

theorem report_of_word_error (hword : e.word = .error fault) :
    e.passed? = none ∧ e.report policy passed = [] := by
  simp only [passed?, report, hword, and_self]

theorem report_of_decode_none (hword : e.word = .ok word)
    (hdecode : Instruction.decode word = none) :
    e.passed? = some word ∧
      e.report policy passed =
        policy.warnings passed word ++
          [.skipped e.console.machine.pc word] := by
  simp [passed?, report, hword, hdecode, Word.isUnknown]

theorem report_of_execute_error (hword : e.word = .ok word)
    (hdecode : Instruction.decode word = some i)
    (hexecute : (e.console.execute i).error = some fault) :
    e.passed? = none ∧
      e.report policy passed =
        [.halted e.console.machine.pc word fault] := by
  have herror := congrArg Outcome.error
    (cycle_eq_of_execute_error hword hdecode hexecute)
  rw [Outcome.error_fail] at herror
  simp [passed?, report, hword, hdecode, herror, Word.isUnknown]

theorem report_of_execute_ok (hword : e.word = .ok word)
    (hdecode : Instruction.decode word = some i)
    (hexecute : (e.console.execute i).error = none) :
    e.passed? = none ∧
      e.report policy passed =
        [.executed e.console.machine.pc word i] := by
  have herror := congrArg Outcome.error
    (cycle_eq_of_execute_ok hword hdecode hexecute)
  rw [Outcome.error_ok] at herror
  simp [passed?, report, hword, hdecode, herror, Word.isUnknown]

/-- A cycle adds its report to the journal, and the word it passes over to
those noted down. -/
theorem cycle_reports
    (hdispatcher : e.dispatcher = ⟨policy, policy.noted passed⟩) :
    e.cycle.state.dispatcher =
        ⟨policy, policy.noted (passed ++ e.passed?.toList)⟩ ∧
      e.cycle.state.journal.toList =
        e.journal.toList ++ e.report policy passed := by
  cases e.course with
  | noWord fault hword =>
      obtain ⟨hpassed, hreport⟩ := report_of_word_error policy passed hword
      rw [cycle_of_word_error hword, hpassed, hreport]
      simp [hdispatcher]
  | passedOver word hword hdecode =>
      obtain ⟨hpassed, hreport⟩ :=
        report_of_decode_none policy passed hword hdecode
      rw [cycle_eq_of_decode_none hword hdecode, hpassed, hreport,
        hdispatcher, Dispatcher.passOver_noted]
      simp
  | wentWrong word i fault hword hdecode hexecute =>
      obtain ⟨hpassed, hreport⟩ :=
        report_of_execute_error policy passed hword hdecode hexecute
      rw [cycle_eq_of_execute_error hword hdecode hexecute, hpassed, hreport]
      simp [hdispatcher]
  | carriedOut word i hword hdecode hexecute =>
      obtain ⟨hpassed, hreport⟩ :=
        report_of_execute_ok policy passed hword hdecode hexecute
      rw [cycle_eq_of_execute_ok hword hdecode hexecute, hpassed, hreport]
      simp [hdispatcher]

/-! ## Lines -/

/-- The lines of a report, with their texts written out. -/
theorem map_line_report :
    (e.report policy passed).map Entry.line = e.linesOf policy passed := by
  rw [report, linesOf]
  cases e.word with
  | error fault => rfl
  | ok word =>
      dsimp only
      cases Instruction.decode word with
      | none =>
          simp only [List.map_append, List.map_singleton, Entry.line_skipped,
            Policy.warnings]
          split
          · rw [List.map_singleton, Entry.line_unknown]
          · rfl
      | some i =>
          cases e.cycle.error with
          | none => simp only [List.map_singleton, Entry.line_executed]
          | some fault => simp only [List.map_singleton, Entry.line_halted]

/-! ## What a chronicle holds of each level -/

theorem countP_report :
    (e.report policy passed).countP (·.level = "TRACE") =
      [e].countP (·.cycle.error = none) := by
  have hwarnings (word : UInt16) :
      (policy.warnings passed word).countP (·.level = "TRACE") = 0 := by
    unfold Policy.warnings
    split
    · rfl
    · rfl
  cases e.course with
  | noWord fault hword =>
      rw [(report_of_word_error policy passed hword).2]
      simp [cycle_of_word_error hword]
  | passedOver word hword hdecode =>
      rw [(report_of_decode_none policy passed hword hdecode).2,
        List.countP_append, hwarnings]
      simp [cycle_eq_of_decode_none hword hdecode, Entry.level]
  | wentWrong word i fault hword hdecode hexecute =>
      rw [(report_of_execute_error policy passed hword hdecode hexecute).2]
      simp [cycle_eq_of_execute_error hword hdecode hexecute, Entry.level]
  | carriedOut word i hword hdecode hexecute =>
      rw [(report_of_execute_ok policy passed hword hdecode hexecute).2]
      simp [cycle_eq_of_execute_ok hword hdecode hexecute, Entry.level]

theorem filter_report :
    (policy.noted (passed ++ e.passed?.toList)).map Entry.unknown =
      (policy.noted passed).map .unknown ++
        (e.report policy passed).filter (·.level = "WARN") := by
  have hwarnings (word : UInt16) :
      (policy.warnings passed word).filter (·.level = "WARN") =
        policy.warnings passed word := by
    unfold Policy.warnings
    split
    · rfl
    · rfl
  cases e.course with
  | noWord fault hword =>
      obtain ⟨hpassed, hreport⟩ := report_of_word_error policy passed hword
      simp [hpassed, hreport]
  | passedOver word hword hdecode =>
      obtain ⟨hpassed, hreport⟩ :=
        report_of_decode_none policy passed hword hdecode
      rw [hpassed, hreport, List.filter_append, hwarnings,
        Option.toList_some, Policy.noted_concat, List.map_append,
        Policy.warnings]
      simp [Entry.level, apply_ite]
  | wentWrong word i fault hword hdecode hexecute =>
      obtain ⟨hpassed, hreport⟩ :=
        report_of_execute_error policy passed hword hdecode hexecute
      simp [hpassed, hreport, Entry.level]
  | carriedOut word i hword hdecode hexecute =>
      obtain ⟨hpassed, hreport⟩ :=
        report_of_execute_ok policy passed hword hdecode hexecute
      simp [hpassed, hreport, Entry.level]

/-- Only a cycle that goes wrong reports an error. -/
theorem report_of_ok (hok : e.cycle.error = none) :
    ∀ entry ∈ e.report policy passed, entry.level ≠ "ERROR" := by
  cases e.course with
  | noWord fault hword =>
      rw [(report_of_word_error policy passed hword).2]
      exact List.forall_mem_nil _
  | passedOver word hword hdecode =>
      rw [(report_of_decode_none policy passed hword hdecode).2,
        Policy.warnings]
      split
      · simp [Entry.level]
      · simp [Entry.level]
  | wentWrong word i fault hword hdecode hexecute =>
      rw [cycle_eq_of_execute_error hword hdecode hexecute] at hok
      cases hok
  | carriedOut word i hword hdecode hexecute =>
      rw [(report_of_execute_ok policy passed hword hdecode hexecute).2]
      simp [Entry.level]

/-- In a report nothing comes after an error. -/
theorem pairwise_report :
    (e.report policy passed).Pairwise
      fun earlier _ => earlier.level ≠ "ERROR" := by
  cases e.course with
  | noWord fault hword =>
      rw [(report_of_word_error policy passed hword).2]
      exact .nil
  | passedOver word hword hdecode =>
      rw [(report_of_decode_none policy passed hword hdecode).2,
        Policy.warnings]
      split
      · simp [Entry.level]
      · simp
  | wentWrong word i fault hword hdecode hexecute =>
      rw [(report_of_execute_error policy passed hword hdecode hexecute).2]
      exact List.pairwise_singleton _ _
  | carriedOut word i hword hdecode hexecute =>
      rw [(report_of_execute_ok policy passed hword hdecode hexecute).2]
      exact List.pairwise_singleton _ _

end

section

variable (policy : Policy) (passed : List UInt16) (engines : List Engine)

theorem filterMap_passed?_cons (e : Engine) :
    passed ++ (e :: engines).filterMap passed? =
      (passed ++ e.passed?.toList) ++ engines.filterMap passed? := by
  cases hpassed : e.passed? with
  | none => simp [hpassed]
  | some word => simp [hpassed]

theorem chronicle_cons (e : Engine) :
    chronicle policy passed (e :: engines) =
      e.report policy passed ++
        chronicle policy (passed ++ e.passed?.toList) engines := rfl

theorem map_inTurn {α β : Type} (f : α → β)
    (add : List UInt16 → Engine → List α) :
    (inTurn add passed engines).map f =
      inTurn (fun passed e => (add passed e).map f) passed engines := by
  induction engines generalizing passed with
  | nil => rfl
  | cons e rest ih => rw [inTurn, List.map_append, ih, inTurn]

/-- The lines of a chronicle are the log of its cycles. -/
theorem map_line_chronicle :
    (chronicle policy [] engines).map Entry.line = logOf policy engines := by
  rw [chronicle, map_inTurn, logOf]
  congr 1
  funext passed e
  exact map_line_report policy passed

theorem chronicle_concat (e : Engine) :
    chronicle policy passed (engines ++ [e]) =
      chronicle policy passed engines ++
        e.report policy (passed ++ engines.filterMap passed?) := by
  induction engines generalizing passed with
  | nil => simp [chronicle, inTurn]
  | cons first rest ih =>
      rw [List.cons_append, chronicle_cons, chronicle_cons, ih,
        filterMap_passed?_cons, ← List.append_assoc]

/-- Each cycle that goes well has one line of its own. -/
theorem countP_chronicle :
    (chronicle policy passed engines).countP (·.level = "TRACE") =
      engines.countP (·.cycle.error = none) := by
  induction engines generalizing passed with
  | nil => rfl
  | cons first rest ih =>
      rw [chronicle_cons, List.countP_append, countP_report, ih,
        ← List.countP_append, List.singleton_append]

/-- The warnings tell the words noted down. -/
theorem filter_chronicle :
    (policy.noted (passed ++ engines.filterMap passed?)).map Entry.unknown =
      (policy.noted passed).map .unknown ++
        (chronicle policy passed engines).filter (·.level = "WARN") := by
  induction engines generalizing passed with
  | nil => simp [chronicle, inTurn]
  | cons first rest ih =>
      rw [filterMap_passed?_cons, ih, filter_report, chronicle_cons,
        List.filter_append, List.append_assoc]

/-- If no cycle comes after one that has gone wrong, nothing comes after an
error. -/
theorem pairwise_chronicle
    (h : engines.Pairwise fun earlier _ => earlier.cycle.error = none) :
    (chronicle policy passed engines).Pairwise
      fun earlier _ => earlier.level ≠ "ERROR" := by
  induction engines generalizing passed with
  | nil => exact .nil
  | cons first rest ih =>
      rw [List.pairwise_cons] at h
      rw [chronicle_cons, List.pairwise_append]
      refine ⟨pairwise_report policy passed, ih _ h.2, ?_⟩
      intro entry hentry later hlater
      cases rest with
      | nil => cases hlater
      | cons next rest =>
          have hok := h.1 next List.mem_cons_self
          exact report_of_ok policy passed hok entry hentry

end

end Engine

/-! ## Sessions -/

namespace Emulator

variable {rom : Program} {latch : Latch} {config : Config}
  {source : Tape Nat} {entropy : Entropy} {e : Emulator}

theorem cycles_of_fault {fault : Fault} (h : e.fault = some fault)
    (requests : List Request) : e.cycles requests = [] := by
  induction requests generalizing e with
  | nil => rfl
  | cons request rest ih =>
      have hidle : e.carriesOut request = false := by
        cases request with
        | step | poll => simp [carriesOut, h]
        | _ => rfl
      rw [cycles, hidle, ih (answer_fault_of_fault h request)]
      rfl

/-- A session carries out no word after one that has gone wrong. -/
theorem pairwise_cycles (hpaced : e.Paced) (requests : List Request) :
    (e.cycles requests).Pairwise
      fun earlier _ => earlier.cycle.error = none := by
  induction requests generalizing e with
  | nil => exact .nil
  | cons request rest ih =>
      have hrest := ih (answer_paced hpaced request)
      rw [cycles]
      split
      next hcarries =>
        rw [List.singleton_append, List.pairwise_cons]
        refine ⟨?_, hrest⟩
        intro later hlater
        cases herror : e.engine.cycle.error with
        | none => rfl
        | some fault =>
            have hfault := answer_fault hpaced request
            rw [if_pos hcarries, herror] at hfault
            rw [cycles_of_fault hfault] at hlater
            cases hlater
      next => exact hrest

/-- A session in which the host loads no other program notes down the words it
passes over, and adds its chronicle to the journal. -/
theorem run_chronicle (hpaced : e.Paced) {policy : Policy}
    (hdispatcher : e.engine.dispatcher = .ofPolicy policy)
    {requests : List Request} (hload : ∀ rom, .load rom ∉ requests) :
    let now := (e.run requests).1.engine
    now.dispatcher =
        ⟨policy, policy.noted ((e.cycles requests).filterMap Engine.passed?)⟩ ∧
      now.journal.toList =
        e.engine.journal.toList ++
          Engine.chronicle policy [] (e.cycles requests) := by
  let Told (done : List Engine) (engine : Engine) : Prop :=
    engine.dispatcher =
        ⟨policy, policy.noted (done.filterMap Engine.passed?)⟩ ∧
      engine.journal.toList =
        e.engine.journal.toList ++ Engine.chronicle policy [] done
  have hcycle (done : List Engine) (engine : Engine) (h : Told done engine) :
      Told (done ++ [engine]) engine.cycle.state := by
    obtain ⟨hnoted, hjournal⟩ := Engine.cycle_reports policy _ h.1
    constructor
    · rw [hnoted, List.filterMap_append, List.filterMap_cons]
      cases engine.passed? with
      | none => rfl
      | some word => rfl
    · rw [hjournal, h.2, Engine.chronicle_concat, List.nil_append,
        List.append_assoc]
  have hhost : ∀ request ∈ requests, request.isWork = false →
      ∀ done (now : Emulator), Told done now.engine →
        Told done (now.answer request).1.engine := by
    intro request hmem hwork done now h
    cases request with
    | step | poll | countDown => cases hwork
    | load rom => exact absurd hmem (hload rom)
    | refresh | setLatch | edit => exact h
  have hstart : Told [] e.engine := by
    constructor
    · rw [hdispatcher, List.filterMap_nil, Policy.noted_nil]
      rfl
    · exact (List.append_nil _).symm
  exact run_engine_history hcycle (fun _ _ h => h) hpaced hhost [] hstart

/-- The journal of a session in which the host loads no other program.  To what
was noted when the emulator was set up it adds the reports of the cycles, in
order, and their lines are the log of the cycles.  A fault can be told from what
its line says of it.  Nothing comes after an error; each cycle that goes well
has one line of its own; and the warnings tell the words noted down. -/
theorem journal_tells_cycles (rom : Program) (latch : Latch)
    (config : Config) (source : Tape Nat) (entropy : Entropy)
    (e : Emulator) (hboot : boot rom latch config source entropy = .ok e)
    (requests : List Request) (hload : ∀ rom, .load rom ∉ requests) :
    let now := (e.run requests).1
    let log := Engine.chronicle config.policy [] (e.cycles requests)
    now.engine.journal.toList = e.engine.journal.toList ++ log ∧
      log.map Entry.line =
        Engine.logOf config.policy (e.cycles requests) ∧
      (∀ fault other : Fault,
        fault.message = other.message → fault = other) ∧
      (log.Pairwise fun earlier _ => earlier.level ≠ "ERROR") ∧
      log.countP (·.level = "TRACE") =
        (e.cycles requests).countP (·.cycle.error = none) ∧
      log.filter (·.level = "WARN") = now.unknown.map .unknown ∧
      (log.filter (·.level = "WARN")).map Entry.line =
        now.unknown.map fun word =>
          "WARN ignoring unknown opcode " ++ String.ofList (Word.text word) := by
  intro now log
  have hpaced := boot_paced hboot
  obtain ⟨-, -, -, hdispatcher, -, -⟩ := boot_eq_ok hboot
  obtain ⟨hnow, hjournal⟩ := run_chronicle hpaced hdispatcher hload
  have hwarnings : log.filter (·.level = "WARN") = now.unknown.map .unknown := by
    have hfilter :=
      Engine.filter_chronicle config.policy [] (e.cycles requests)
    rw [List.nil_append, Policy.noted_nil, List.map_nil, List.nil_append]
      at hfilter
    rw [← hfilter, unknown, hnow]
  refine ⟨hjournal, Engine.map_line_chronicle _ _, ?_, ?_, ?_, hwarnings, ?_⟩
  · exact fun _ _ hmessage => Fault.message_injective hmessage
  · exact Engine.pairwise_chronicle _ _ _ (pairwise_cycles hpaced requests)
  · exact Engine.countP_chronicle _ _ _
  · rw [hwarnings, List.map_map]
    exact List.map_congr_left fun word _ => Entry.line_unknown word

/-- A word that stands for no instruction comes by twice and is warned about
once, and nothing is noted after the return that goes wrong. -/
theorem journal_tells_cycles_of_fault :
    let rom : Program := [0x01, 0x23, 0x60, 0x07, 0x01, 0x23, 0x00, 0xEE]
    let requests :=
      [Request.step, .countDown, .poll, .step, .refresh, .step, .step, .poll]
    let lines :=
      ["WARN ignoring unknown opcode 0123",
        "TRACE 0x200  0123  (skipped)",
        "TRACE 0x202  6007  LD V0, 0x07",
        "TRACE 0x204  0123  (skipped)",
        "ERROR halted at 0x206 executing 00EE: " ++
          "stack underflow returning from pc 0x0206"]
    ∃ e, boot rom (fun _ => none) { policy := .record }
        (.ofCells fun n => 2000000 * n) (fun _ => .ofCells fun _ => 0) = .ok e ∧
      (∀ rom, .load rom ∉ requests) ∧
      (e.run requests).1.engine.journal.toList.map Entry.line =
        e.engine.journal.toList.map Entry.line ++ lines ∧
      (e.cycles requests).countP (·.cycle.error = none) = 3 ∧
      (e.run requests).1.unknown.map Entry.unknown = [.unknown 0x0123] := by
  intro rom requests lines
  obtain ⟨e, hboot, htexts, hcount⟩ : ∃ e,
      boot rom (fun _ => none) { policy := .record }
        (.ofCells fun n => 2000000 * n) (fun _ => .ofCells fun _ => 0) = .ok e ∧
      Engine.logOf .record (e.cycles requests) = lines ∧
      Engine.chronicle .record [] (e.cycles requests) =
        [.unknown 0x0123, .skipped 0x200 0x0123,
          .executed 0x202 0x6007 (.setByte 0 7), .skipped 0x204 0x0123,
          .halted 0x206 0x00EE (.stackUnderflow 0x206)] :=
    ⟨_, rfl, by decide +kernel, by decide +kernel⟩
  have hload : ∀ rom, .load rom ∉ requests := by simp [requests]
  obtain ⟨hjournal, hlines, -, -, htraces, hwarnings, -⟩ :=
    journal_tells_cycles rom _ _ _ _ e hboot requests hload
  refine ⟨e, hboot, hload, ?_, ?_, ?_⟩
  · rw [hjournal, List.map_append, hlines, htexts]
  · rw [← htraces, hcount]
    decide
  · rw [← hwarnings, hcount]
    decide

end Emulator

end Chip8
