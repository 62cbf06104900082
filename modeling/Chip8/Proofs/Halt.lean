import Chip8.Proofs.Boot

/-!
# Halted emulators

The fault of an emulator is the first one that it has reported.  From then on
requests that carry something out only report it again, whatever the host does
to the machine in between, so that not even the clock is read any more.
-/

namespace Chip8

/-- The fault that a reply reports. -/
def Reply.fault? : Reply → Option Fault
  | .halted fault => some fault
  | _ => none

namespace Emulator

variable {e : Emulator} {fault : Fault}

theorem unlessHalted_fault (e : Emulator)
    (act : Emulator → Outcome Fault Emulator) :
    (e.unlessHalted act).state.fault = (e.unlessHalted act).error := by
  cases hfault : e.fault with
  | some fault => simp [unlessHalted, hfault]
  | none => simp [unlessHalted, hfault]

theorem replyTo_fault? (outcome : Outcome Fault Emulator) :
    (replyTo outcome).2.fault? = outcome.error := by
  cases herror : outcome.error with
  | some fault => simp [replyTo, herror, Reply.fault?]
  | none => simp [replyTo, herror, Reply.fault?]

/-- A request that may go wrong leaves the fault that it reports, and any other
request reports none and leaves the old one. -/
theorem answer_fault_cases (e : Emulator) (request : Request) :
    (e.answer request).1.fault = (e.answer request).2.fault? ∨
      (e.answer request).2.fault? = none ∧
        (e.answer request).1.fault = e.fault := by
  cases request with
  | step | poll =>
      left
      simp only [answer]
      rw [replyTo_fault?]
      exact e.unlessHalted_fault _
  | load rom =>
      right
      simp only [answer, loadProgram]
      cases (e.machine.loadProgram rom).error with
      | some reason => exact ⟨rfl, rfl⟩
      | none => exact ⟨rfl, rfl⟩
  | _ => exact Or.inr ⟨rfl, rfl⟩

theorem answer_fault_of_reports {request : Request}
    (h : (e.answer request).2 = .halted fault) :
    (e.answer request).1.fault = some fault := by
  have hreply : (e.answer request).2.fault? = some fault := by
    rw [h]
    rfl
  rcases e.answer_fault_cases request with hreported | ⟨hnone, -⟩
  · rw [hreported, hreply]
  · rw [hnone] at hreply
    cases hreply

theorem answer_step_of_fault (h : e.fault = some fault) :
    e.answer .step = (e, .halted fault) := by
  rw [answer, step_of_fault h]
  rfl

theorem answer_poll_of_fault (h : e.fault = some fault) :
    e.answer .poll = (e, .halted fault) := by
  rw [answer, poll_of_fault h]
  rfl

/-- No request lifts a fault. -/
theorem answer_fault_of_fault (h : e.fault = some fault) (request : Request) :
    (e.answer request).1.fault = some fault := by
  cases request with
  | step => rwa [answer_step_of_fault h]
  | poll => rwa [answer_poll_of_fault h]
  | load rom =>
      simp only [answer, loadProgram]
      cases (e.machine.loadProgram rom).error with
      | some reason => exact h
      | none => exact h
  | _ => exact h

theorem run_fault_of_fault (h : e.fault = some fault)
    (requests : List Request) : (e.run requests).1.fault = some fault := by
  induction requests generalizing e with
  | nil => exact h
  | cons request rest ih => exact ih (answer_fault_of_fault h request)

/-- The fault of a session that starts without one is the first one that a
reply has reported. -/
theorem run_fault_of_running (h : e.fault = none) (requests : List Request) :
    (e.run requests).1.fault =
      (e.run requests).2.findSome? Reply.fault? := by
  induction requests generalizing e with
  | nil => exact h
  | cons request rest ih =>
      rw [run, List.findSome?_cons]
      cases hreply : (e.answer request).2.fault? with
      | some fault =>
          -- The rest of the session cannot lift the fault just reported.
          apply run_fault_of_fault
          rcases e.answer_fault_cases request with hreported | ⟨hnone, -⟩
          · rw [hreported, hreply]
          · rw [hreply] at hnone
            cases hnone
      | none =>
          apply ih
          rcases e.answer_fault_cases request with hreported | ⟨-, hkept⟩
          · rw [hreported, hreply]
          · rw [hkept, h]

/-- The first fault halts an emulator for good.  Once a request has reported a
fault, it stays the fault of the emulator whatever is asked of it; a step or a
poll then reports it again and changes nothing at all, the clock and the
journal included.  And a booted emulator has no fault but the first one that it
has reported. -/
theorem first_fault_halts :
    (∀ (e : Emulator) (before : List Request) (request : Request)
        (fault : Fault),
      ((e.run before).1.answer request).2 = .halted fault →
      ∀ later : List Request,
        let now := (e.run (before ++ request :: later)).1
        now.fault = some fault ∧
        now.answer .step = (now, .halted fault) ∧
        now.answer .poll = (now, .halted fault)) ∧
    (∀ (rom : Program) (latch : Latch) (config : Config) (source : Tape Nat)
        (entropy : Entropy) (e : Emulator),
      boot rom latch config source entropy = .ok e →
      ∀ requests : List Request,
        (e.run requests).1.fault =
          (e.run requests).2.findSome? Reply.fault?) := by
  constructor
  · intro e before request fault hreports later now
    have hfault : now.fault = some fault := by
      have hnow : now =
          (((e.run before).1.answer request).1.run later).1 :=
        e.run_append before (request :: later)
      rw [hnow]
      exact run_fault_of_fault (answer_fault_of_reports hreports) later
    exact ⟨hfault, answer_step_of_fault hfault, answer_poll_of_fault hfault⟩
  · intro rom latch config source entropy e hboot requests
    obtain ⟨-, -, -, -, -, hrunning⟩ := boot_eq_ok hboot
    exact run_fault_of_running hrunning requests

/-- A return that has gone wrong stays so when the host gives it a slot. -/
theorem first_fault_halts_after_edit :
    let requests := [.step, .edit fun m => { m with sp := 1 }]
    ∃ e, boot [0x00, 0xEE] (fun _ => none) {}
        (.ofCells fun n => n) (fun _ => .ofCells fun _ => 0) = .ok e ∧
      ((e.run []).1.answer .step).2 = .halted (.stackUnderflow 0x200) ∧
      let now := (e.run requests).1
      now.machine.sp = 1 ∧
        now.fault = some (.stackUnderflow 0x200) ∧
        now.answer .poll = (now, .halted (.stackUnderflow 0x200)) := by
  intro requests
  obtain ⟨e, hboot, hreports, hsp, hfirst⟩ : ∃ e,
      boot [0x00, 0xEE] (fun _ => none) {}
        (.ofCells fun n => n) (fun _ => .ofCells fun _ => 0) = .ok e ∧
      ((e.run []).1.answer .step).2 = .halted (.stackUnderflow 0x200) ∧
      (e.run requests).1.machine.sp = 1 ∧
      (e.run requests).2.findSome? Reply.fault? =
        some (.stackUnderflow 0x200) :=
    ⟨_, rfl, by decide +kernel, by decide +kernel, by decide +kernel⟩
  obtain ⟨-, -, hpoll⟩ := first_fault_halts.1 e [] .step _ hreports
    [.edit fun m => { m with sp := 1 }]
  have hfault := first_fault_halts.2 _ _ _ _ _ e hboot requests
  exact ⟨e, hboot, hreports, hsp, hfault.trans hfirst, hpoll⟩

end Emulator

end Chip8
