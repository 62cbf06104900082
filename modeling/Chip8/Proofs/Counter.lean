import Chip8.Proofs.Cycle
import Chip8.Proofs.Effect
import Mathlib.Logic.Basic

/-!
# Where the counter goes

A cycle that goes well leaves the counter two past the word it has carried out,
unless the instruction of the word is there to move the counter.  Such an
instruction moves it so that the two added afterwards make up for it, also
where the counter wraps around.
-/

namespace Chip8

/-- Whether an instruction is there to move the counter. -/
def Instruction.movesCounter : Instruction → Bool
  | .ret | .jump _ | .call _ | .skip _ | .jumpOffset _ | .waitKey _ => true
  | _ => false

/-- The skip on the opposite condition. -/
def Condition.opposite : Condition → Condition
  | .isByte x byte => .isNotByte x byte
  | .isNotByte x byte => .isByte x byte
  | .same x y => .differ x y
  | .differ x y => .same x y
  | .keyDown x => .keyUp x
  | .keyUp x => .keyDown x

/-- A byte names a key that is wired and held down. -/
def Latch.Presses (latch : Latch) (byte : UInt8) : Prop :=
  ∃ key : Key, key.val = byte.toNat ∧ latch key = some true

/-- What the condition of a skip says of registers and keys. -/
def Condition.Met (m : Machine) (latch : Latch) : Condition → Prop
  | .isByte x byte => m.reg x = byte
  | .isNotByte x byte => m.reg x ≠ byte
  | .same x y => m.reg x = m.reg y
  | .differ x y => m.reg x ≠ m.reg y
  | .keyDown x => latch.Presses (m.reg x)
  | .keyUp x => ¬latch.Presses (m.reg x)

/-- Where the counter may be after a cycle, by the instruction of its word. -/
def Console.GoesTo (c : Console) (next : UInt16) : Option Instruction → Prop
  | some (.jump target) | some (.call target) => next = target.toWord
  | some (.jumpOffset target) =>
    next = target.toWord + (c.machine.reg .first).toUInt16
  | some .ret =>
    ∃ call, c.machine.stack.get? c.machine.sp = some call ∧ next = call + 2
  | some (.skip condition) =>
    condition.Met c.machine c.latch ∧ next = c.machine.pc + 4 ∨
      ¬condition.Met c.machine c.latch ∧ next = c.machine.pc + 2
  | some (.waitKey _) =>
    (∃ key, c.latch key = some true) ∧ next = c.machine.pc + 2 ∨
      (∀ key, c.latch key ≠ some true) ∧ next = c.machine.pc
  | _ => next = c.machine.pc + 2

theorem Latch.isPressed_iff {latch : Latch} {key : Key} :
    latch.isPressed key = true ↔ latch key = some true := by
  rw [isPressed, beq_iff_eq]

theorem Latch.presses_iff {latch : Latch} {byte : UInt8} :
    (Key.ofByte? byte).any latch.isPressed = true ↔ latch.Presses byte := by
  by_cases hkey : byte.toNat < 16
  · rw [Key.ofByte?, dif_pos hkey, Option.any_some, isPressed_iff]
    constructor
    · intro hdown
      exact ⟨⟨byte.toNat, hkey⟩, rfl, hdown⟩
    · rintro ⟨key, hval, hdown⟩
      have hsame : key = ⟨byte.toNat, hkey⟩ := Fin.ext hval
      rwa [← hsame]
  · rw [Key.ofByte?, dif_neg hkey, Option.any_none]
    constructor
    · intro hdown
      cases hdown
    · rintro ⟨key, hval, -⟩
      exact absurd (hval ▸ key.isLt) hkey

theorem Latch.firstPressed?_eq_none_iff {latch : Latch} :
    latch.firstPressed? = none ↔ ∀ key, latch key ≠ some true := by
  rw [firstPressed?, List.find?_eq_none]
  constructor
  · intro hall key hdown
    exact hall key (List.mem_finRange key) (isPressed_iff.mpr hdown)
  · intro hall key _ hdown
    exact hall key (isPressed_iff.mp hdown)

namespace Condition

theorem holds_iff_met (m : Machine) (latch : Latch) (condition : Condition) :
    condition.holds m latch = true ↔ condition.Met m latch := by
  cases condition with
  | isByte x byte => exact beq_iff_eq
  | isNotByte x byte => exact bne_iff_ne
  | same x y => exact beq_iff_eq
  | differ x y => exact bne_iff_ne
  | keyDown x => exact Latch.presses_iff
  | keyUp x =>
      rw [holds, Met, Bool.not_eq_true', ← Bool.not_eq_true]
      exact not_congr Latch.presses_iff

theorem met_opposite_iff (m : Machine) (latch : Latch)
    (condition : Condition) :
    condition.opposite.Met m latch ↔ ¬condition.Met m latch := by
  cases condition with
  | isNotByte x byte | differ x y | keyUp x => exact not_not.symm
  | _ => exact Iff.rfl

theorem met_congr {m n : Machine} (h : m.v = n.v) (latch : Latch)
    (condition : Condition) :
    condition.Met m latch ↔ condition.Met n latch := by
  have hreg (x : Register) : m.reg x = n.reg x := by
    rw [Machine.reg, Machine.reg, h]
  cases condition with
  | _ => simp only [Met, hreg]

end Condition

namespace Machine

theorem skipIf_pc (m : Machine) (condition : Bool) :
    (m.skipIf condition).pc = if condition then m.pc + 2 else m.pc := by
  cases condition with
  | false => rfl
  | true => rfl

theorem combine_pc (m : Machine) (op : Combination) (x y : Register) :
    (m.combine op x y).pc = m.pc := by
  simp only [combine]
  split
  · rfl
  · rfl

theorem fillRegisters_pc (m : Machine) (x : Register) :
    (m.fillRegisters x).state.pc = m.pc := by
  simp only [fillRegisters]
  split
  · rfl
  · simp only [Outcome.state_ok, setRegs]

end Machine

namespace Console

theorem execute_pc {i : Instruction} (c : Console)
    (h : i.movesCounter = false) :
    (c.execute i).state.machine.pc = c.machine.pc := by
  cases i with
  | ret | jump | call | skip | jumpOffset | waitKey => cases h
  | combine op x y => exact c.machine.combine_pc op x y
  | fillRegisters x => exact c.machine.fillRegisters_pc x
  | draw x y rows =>
      rcases c.draw_machine x y rows with hsame | ⟨flag, hflag⟩
      · rw [execute, hsame]
      · rw [execute, hflag]
        rfl
  | _ => rfl

/-- Moving past its word takes the counter to where an instruction means it to
go. -/
theorem execute_goesTo {i : Instruction} {c : Console}
    (hok : (c.execute i).error = none) :
    c.GoesTo ((c.execute i).state.machine.pc + 2) (some i) := by
  cases hmoves : i.movesCounter with
  | false =>
      have hpc := c.execute_pc hmoves
      cases i with
      | ret | jump | call | skip | jumpOffset | waitKey => cases hmoves
      | _ => exact congrArg (· + 2) hpc
  | true =>
      cases i with
      | jump target => exact UInt16.sub_add_cancel _ _
      | jumpOffset target => exact UInt16.sub_add_cancel _ _
      | call target =>
          obtain ⟨-, hcall⟩ := Machine.call_eq_of_ok hok
          rw [execute, onMachine_machine, hcall]
          exact UInt16.sub_add_cancel _ _
      | ret =>
          obtain ⟨-, call, hslot, hret⟩ := Machine.ret_eq_of_ok hok
          refine ⟨call, hslot, ?_⟩
          rw [execute, onMachine_machine, hret]
          rfl
      | skip condition =>
          have hpc : (c.execute (.skip condition)).state.machine.pc =
              if condition.holds c.machine c.latch then c.machine.pc + 2
              else c.machine.pc := c.machine.skipIf_pc _
          rw [hpc]
          by_cases hmet : condition.Met c.machine c.latch
          · left
            rw [if_pos ((condition.holds_iff_met _ _).mpr hmet),
              UInt16.add_assoc]
            exact ⟨hmet, rfl⟩
          · right
            rw [if_neg (mt (condition.holds_iff_met _ _).mp hmet)]
            exact ⟨hmet, rfl⟩
      | waitKey x =>
          simp only [execute, waitKey, Outcome.state_ok]
          cases hfirst : c.latch.firstPressed? with
          | none =>
              right
              refine ⟨Latch.firstPressed?_eq_none_iff.mp hfirst, ?_⟩
              exact UInt16.sub_add_cancel _ _
          | some key =>
              left
              have hdown := List.find?_some hfirst
              exact ⟨⟨key, Latch.isPressed_iff.mp hdown⟩, rfl⟩
      | _ => cases hmoves

end Console

namespace Engine

theorem cycle_goesTo {e : Engine} (hok : e.cycle.error = none) :
    e.console.GoesTo e.cycle.state.console.machine.pc e.instruction? := by
  obtain ⟨word, hword, hgone⟩ := cycle_of_ok hok
  rw [instruction?_of_word hword]
  rcases hgone with ⟨hdecode, hconsole⟩ | ⟨i, hdecode, hexecute, hconsole⟩
  · rw [hdecode, hconsole]
    rfl
  · rw [hdecode, hconsole]
    exact Console.execute_goesTo hexecute

theorem cycle_skip_iff {e : Engine} {condition : Condition}
    (hahead : e.instruction? = some (.skip condition)) :
    e.cycle.state.console.machine.pc = e.console.machine.pc + 4 ↔
      condition.Met e.console.machine e.console.latch := by
  have hgoes := cycle_goesTo (cycle_of_execute_ok hahead rfl).1
  rw [hahead] at hgoes
  rcases hgoes with ⟨hmet, hpc⟩ | ⟨hmet, hpc⟩
  · exact iff_of_true hpc hmet
  · -- The counter cannot have come to the same place by wrapping around.
    refine iff_of_false ?_ hmet
    rw [hpc, UInt16.add_right_inj]
    decide

/-- A cycle that goes well takes the counter where the instruction of its word
says; a word that stands for no instruction is passed over.  And of two cycles
that carry out opposite skips with the same registers and keys, exactly one
leaves out the next word. -/
theorem cycle_moves_counter :
    (∀ (e : Engine) (word : UInt16),
      e.word = .ok word → e.cycle.error = none →
        e.console.GoesTo e.cycle.state.console.machine.pc
          (Instruction.decode word)) ∧
    (∀ (e d : Engine) (condition : Condition),
      e.instruction? = some (.skip condition) →
      d.instruction? = some (.skip condition.opposite) →
      d.console.machine.v = e.console.machine.v →
      d.console.latch = e.console.latch →
        (d.cycle.state.console.machine.pc = d.console.machine.pc + 4 ↔
          ¬e.cycle.state.console.machine.pc = e.console.machine.pc + 4)) := by
  constructor
  · intro e word hword hok
    rw [← instruction?_of_word hword]
    exact cycle_goesTo hok
  · intro e d condition hskip hopposite hregs hlatch
    rw [cycle_skip_iff hskip, cycle_skip_iff hopposite, hlatch,
      Condition.met_opposite_iff, Condition.met_congr hregs]

/-- A jump to the first cell wraps around on its way there.  A byte that names
no key is not pressed, so that of the two key skips the second one is taken. -/
theorem cycle_moves_counter_to_zero :
    let ahead (word : List UInt8) : Engine :=
      ⟨⟨{ Machine.blank.setReg 0 0x10 with
            memory := Memory.blank.put 0x200 word },
          .blank, fun _ => some true, .ofCells fun _ => 0⟩,
        .ofPolicy .ignore, #[]⟩
    let jump := ahead [0x10, 0x00]
    let down := ahead [0xE0, 0x9E]
    let up := ahead [0xE0, 0xA1]
    (∃ word, jump.word = .ok word ∧
      Instruction.decode word = some (.jump 0)) ∧
    jump.cycle.error = none ∧
    jump.cycle.state.console.machine.pc = Address.toWord 0 ∧
    down.instruction? = some (.skip (.keyDown 0)) ∧
    up.instruction? = some (.skip (.keyUp 0)) ∧
    ¬down.cycle.state.console.machine.pc = down.console.machine.pc + 4 ∧
    up.cycle.state.console.machine.pc = up.console.machine.pc + 4 := by
  intro ahead jump down up
  have hahead : jump.instruction? = some (.jump 0) := by decide +kernel
  obtain ⟨word, hword, hdecode⟩ := instruction?_eq_some_iff.mp hahead
  have hok : jump.cycle.error = none := by decide +kernel
  have hjump := cycle_moves_counter.1 jump word hword hok
  rw [hdecode] at hjump
  have hdown : down.instruction? = some (.skip (.keyDown 0)) := by
    decide +kernel
  have hup : up.instruction? = some (.skip (.keyUp 0)) := by decide +kernel
  have hkept : ¬down.cycle.state.console.machine.pc =
      down.console.machine.pc + 4 := by decide +kernel
  have hregs (word : List UInt8) :
      (ahead word).console.machine.v = (Machine.blank.setReg 0 0x10).v := rfl
  have hlatch (word : List UInt8) :
      (ahead word).console.latch = fun _ => some true := rfl
  have hskips := cycle_moves_counter.2 down up (.keyDown 0) hdown hup
    ((hregs _).trans (hregs _).symm) ((hlatch _).trans (hlatch _).symm)
  exact ⟨⟨word, hword, hdecode⟩, hok, hjump, hdown, hup, hkept,
    hskips.mpr hkept⟩

end Engine

end Chip8
