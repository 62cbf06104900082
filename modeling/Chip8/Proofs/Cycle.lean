import Chip8.Engine
import Chip8.Proofs.Access

/-!
# The cycle of an engine

A cycle can go in four ways: there is no word at the counter, the word stands
for no instruction, its instruction goes wrong, or it is carried out.  For each
of them this module says what the cycle leaves and reports, so that nothing
else has to look into fetching and dispatching.
-/

namespace Chip8

namespace Engine

/-- The word that the counter points at. -/
def word (e : Engine) : Except Fault UInt16 :=
  e.console.machine.memory.readWord e.console.machine.pc.toNat

/-- The instruction that the counter points at, if it points at one. -/
def instruction? (e : Engine) : Option Instruction :=
  match e.word with
  | .error _ => none
  | .ok word => Instruction.decode word

theorem word_of_inside {e : Engine} (h : e.console.machine.pc.toNat ≤ 0xFFE) :
    e.word =
      .ok (e.console.machine.memory.wordAt e.console.machine.pc.toNat) := by
  have hsize : Memory.size = 0x1000 := rfl
  rw [word, Memory.readWord_eq, if_pos (by omega)]

theorem word_of_outside {e : Engine}
    (h : 0xFFF ≤ e.console.machine.pc.toNat) :
    e.word = .error
      (.outsideMemory (max e.console.machine.pc.toNat 0x1000)) := by
  have hsize : Memory.size = 0x1000 := rfl
  rw [word, Memory.readWord_eq, if_neg (by omega), hsize]

theorem counter_le_of_word {e : Engine} {word : UInt16}
    (hword : e.word = .ok word) : e.console.machine.pc.toNat ≤ 0xFFE := by
  apply Nat.le_of_lt_succ
  apply Nat.lt_of_not_le
  intro hout
  rw [word_of_outside hout] at hword
  cases hword

theorem instruction?_of_word {e : Engine} {word : UInt16}
    (hword : e.word = .ok word) :
    e.instruction? = Instruction.decode word := by
  simp only [instruction?, hword]

theorem instruction?_eq_some_iff {e : Engine} {i : Instruction} :
    e.instruction? = some i ↔
      ∃ word, e.word = .ok word ∧ Instruction.decode word = some i := by
  cases hword : e.word with
  | error fault => simp [instruction?, hword]
  | ok word => simp [instruction?, hword]

theorem cycle_of_word_error {e : Engine} {fault : Fault}
    (hword : e.word = .error fault) : e.cycle = .fail e fault := by
  unfold word at hword
  simp only [cycle, hword]

section

variable {e : Engine} {word : UInt16} {i : Instruction} {fault : Fault}

theorem cycle_eq_of_decode_none (hword : e.word = .ok word)
    (hdecode : Instruction.decode word = none) :
    e.cycle = .ok
      { console := e.console.withMachine e.console.machine.advance
        dispatcher := (e.dispatcher.passOver word).1
        journal := (e.journal ++ (e.dispatcher.passOver word).2).push
          (.skipped e.console.machine.pc word) } := by
  unfold Engine.word at hword
  simp [cycle, hword, Dispatcher.dispatch, hdecode, afterDispatch, withMachine,
    note]

theorem cycle_eq_of_execute_error (hword : e.word = .ok word)
    (hdecode : Instruction.decode word = some i)
    (hexecute : (e.console.execute i).error = some fault) :
    e.cycle = .fail
      { console := (e.console.execute i).state
        dispatcher := e.dispatcher
        journal := e.journal.push
          (.halted e.console.machine.pc word fault) } fault := by
  unfold Engine.word at hword
  simp [cycle, hword, Dispatcher.dispatch, hdecode, hexecute, afterDispatch,
    note]

theorem cycle_eq_of_execute_ok (hword : e.word = .ok word)
    (hdecode : Instruction.decode word = some i)
    (hexecute : (e.console.execute i).error = none) :
    e.cycle = .ok
      { console := (e.console.execute i).state.withMachine
          (e.console.execute i).state.machine.advance
        dispatcher := e.dispatcher
        journal := e.journal.push
          (.executed e.console.machine.pc word i) } := by
  unfold Engine.word at hword
  simp [cycle, hword, Dispatcher.dispatch, hdecode, hexecute, afterDispatch,
    note, withMachine]

theorem cycle_of_decode_none (hword : e.word = .ok word)
    (hdecode : Instruction.decode word = none) :
    e.cycle.error = none ∧
      e.cycle.state.console =
        e.console.withMachine e.console.machine.advance := by
  rw [cycle_eq_of_decode_none hword hdecode]
  exact ⟨rfl, rfl⟩

theorem cycle_of_execute_error (hahead : e.instruction? = some i)
    (hexecute : (e.console.execute i).error = some fault) :
    e.cycle.error = some fault ∧
      e.cycle.state.console = (e.console.execute i).state := by
  obtain ⟨word, hword, hdecode⟩ := instruction?_eq_some_iff.mp hahead
  rw [cycle_eq_of_execute_error hword hdecode hexecute]
  exact ⟨rfl, rfl⟩

/-- A cycle carries out the instruction ahead and moves past its word. -/
theorem cycle_of_execute_ok (hahead : e.instruction? = some i)
    (hexecute : (e.console.execute i).error = none) :
    e.cycle.error = none ∧
      e.cycle.state.console = (e.console.execute i).state.withMachine
        (e.console.execute i).state.machine.advance := by
  obtain ⟨word, hword, hdecode⟩ := instruction?_eq_some_iff.mp hahead
  rw [cycle_eq_of_execute_ok hword hdecode hexecute]
  exact ⟨rfl, rfl⟩

end

/-- The ways in which a cycle can go. -/
inductive Course (e : Engine) : Prop
  | noWord (fault : Fault) (hword : e.word = .error fault)
  | passedOver (word : UInt16) (hword : e.word = .ok word)
      (hdecode : Instruction.decode word = none)
  | wentWrong (word : UInt16) (i : Instruction) (fault : Fault)
      (hword : e.word = .ok word)
      (hdecode : Instruction.decode word = some i)
      (hexecute : (e.console.execute i).error = some fault)
  | carriedOut (word : UInt16) (i : Instruction)
      (hword : e.word = .ok word)
      (hdecode : Instruction.decode word = some i)
      (hexecute : (e.console.execute i).error = none)

theorem course (e : Engine) : e.Course := by
  cases hword : e.word with
  | error fault => exact .noWord fault hword
  | ok word =>
      cases hdecode : Instruction.decode word with
      | none => exact .passedOver word hword hdecode
      | some i =>
          cases hexecute : (e.console.execute i).error with
          | some fault => exact .wentWrong word i fault hword hdecode hexecute
          | none => exact .carriedOut word i hword hdecode hexecute

/-- A cycle that goes wrong either finds no word, and leaves everything as it
was, or leaves what the instruction of its word has left and a note of it. -/
theorem cycle_of_error {e : Engine} {fault : Fault}
    (h : e.cycle.error = some fault) :
    (e.word = .error fault ∧ e.cycle.state = e) ∨
      ∃ word i, e.word = .ok word ∧ Instruction.decode word = some i ∧
        (e.console.execute i).error = some fault ∧
        e.cycle.state =
          { console := (e.console.execute i).state
            dispatcher := e.dispatcher
            journal := e.journal.push
              (.halted e.console.machine.pc word fault) } := by
  cases e.course with
  | noWord found hword =>
      rw [cycle_of_word_error hword] at h ⊢
      cases h
      exact Or.inl ⟨hword, rfl⟩
  | passedOver word hword hdecode =>
      rw [cycle_eq_of_decode_none hword hdecode] at h
      cases h
  | wentWrong word i found hword hdecode hexecute =>
      rw [cycle_eq_of_execute_error hword hdecode hexecute] at h ⊢
      cases h
      exact Or.inr ⟨word, i, hword, hdecode, hexecute, rfl⟩
  | carriedOut word i hword hdecode hexecute =>
      rw [cycle_eq_of_execute_ok hword hdecode hexecute] at h
      cases h

/-- A cycle that goes well either passes over its word or carries out the
instruction of it, and moves past it. -/
theorem cycle_of_ok {e : Engine} (h : e.cycle.error = none) :
    ∃ word, e.word = .ok word ∧
      ((Instruction.decode word = none ∧ e.cycle.state.console =
          e.console.withMachine e.console.machine.advance) ∨
        ∃ i, Instruction.decode word = some i ∧
          (e.console.execute i).error = none ∧
          e.cycle.state.console = (e.console.execute i).state.withMachine
            (e.console.execute i).state.machine.advance) := by
  cases e.course with
  | noWord fault hword =>
      rw [cycle_of_word_error hword] at h
      cases h
  | passedOver word hword hdecode =>
      rw [cycle_eq_of_decode_none hword hdecode]
      exact ⟨word, hword, Or.inl ⟨hdecode, rfl⟩⟩
  | wentWrong word i fault hword hdecode hexecute =>
      rw [cycle_eq_of_execute_error hword hdecode hexecute] at h
      cases h
  | carriedOut word i hword hdecode hexecute =>
      rw [cycle_eq_of_execute_ok hword hdecode hexecute]
      exact ⟨word, hword, Or.inr ⟨i, hdecode, hexecute, rfl⟩⟩

end Engine

end Chip8
