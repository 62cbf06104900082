import Chip8.Proofs.Cycle
import Chip8.Proofs.Effect

/-!
# Words of the system family

Family 0 is there to clear the screen, to return, and to call machine code, and
calls of machine code are passed over.  The low byte alone tells them apart.
So `00E0` and `00EE` are not the only words of the family that do something:
whatever the second nibble is, a word that ends in `E0` clears the screen and a
word that ends in `EE` returns.
-/

namespace Chip8

namespace Instruction

variable {w : UInt16}

theorem decode_of_family_zero (hfamily : Word.family w = 0) :
    decode w = ofSystem? (Word.byte w).toNat := by
  simp only [decode, hfamily]

theorem decode_eq_clear (hfamily : Word.family w = 0)
    (hbyte : Word.byte w = 0xE0) : decode w = some .clear := by
  rw [decode_of_family_zero hfamily, hbyte]
  rfl

theorem decode_eq_ret (hfamily : Word.family w = 0)
    (hbyte : Word.byte w = 0xEE) : decode w = some .ret := by
  rw [decode_of_family_zero hfamily, hbyte]
  rfl

theorem decode_eq_none_of_family_zero (hfamily : Word.family w = 0)
    (hclear : Word.byte w ≠ 0xE0) (hret : Word.byte w ≠ 0xEE) :
    decode w = none := by
  have hnotClear : (Word.byte w).toNat ≠ 0xE0 := fun h =>
    hclear (UInt8.toNat_inj.mp h)
  have hnotRet : (Word.byte w).toNat ≠ 0xEE := fun h =>
    hret (UInt8.toNat_inj.mp h)
  rw [decode_of_family_zero hfamily, ofSystem?, if_neg hnotClear,
    if_neg hnotRet]

end Instruction

namespace Engine

/-- The cycle of an engine goes well and moves the counter past one word, and
nothing else of its console changes. -/
structure OnlyAdvances (e : Engine) : Prop where
  error : e.cycle.error = none
  console : e.cycle.state.console =
    { e.console with
      machine := { e.console.machine with pc := e.console.machine.pc + 2 } }

variable {e : Engine} {w : UInt16}

theorem onlyAdvances_of_decode_none (hword : e.word = .ok w)
    (hdecode : Instruction.decode w = none) : e.OnlyAdvances := by
  obtain ⟨herror, hconsole⟩ := cycle_of_decode_none hword hdecode
  exact ⟨herror, hconsole⟩

/-- A cycle that clears the screen only advances if there is nothing to clear
and nobody has to be told. -/
theorem onlyAdvances_iff_of_clear (hahead : e.instruction? = some .clear) :
    e.OnlyAdvances ↔ e.console.screen = ⟨.blank, true⟩ := by
  obtain ⟨herror, hconsole⟩ := cycle_of_execute_ok hahead rfl
  have hcleared : e.cycle.state.console =
      { e.console with
        machine := { e.console.machine with pc := e.console.machine.pc + 2 }
        screen := ⟨.blank, true⟩ } := hconsole
  constructor
  · intro h
    have hscreen := congrArg Console.screen (h.console.symm.trans hcleared)
    exact hscreen
  · intro hscreen
    refine ⟨herror, hcleared.trans ?_⟩
    rw [← hscreen]

/-- A return that goes well gives up a slot, so it never only advances. -/
theorem not_onlyAdvances_of_ret (hahead : e.instruction? = some .ret) :
    ¬e.OnlyAdvances := by
  intro h
  cases hexecute : (e.console.execute .ret).error with
  | some fault =>
      have herror := (cycle_of_execute_error hahead hexecute).1
      rw [h.error] at herror
      cases herror
  | none =>
      obtain ⟨-, hconsole⟩ := cycle_of_execute_ok hahead hexecute
      have hkept : e.console.machine.ret.state.sp = e.console.machine.sp := by
        rw [h.console] at hconsole
        exact congrArg (fun c => c.machine.sp) hconsole.symm
      obtain ⟨-, call, -, hret⟩ := Machine.ret_eq_of_ok hexecute
      rw [hret] at hkept
      have hsub : e.console.machine.sp - 1 = e.console.machine.sp := hkept
      grind

/-- Any word can be the one that a counter points at, with a blank screen. -/
theorem exists_word (w : UInt16) :
    ∃ e : Engine, e.word = .ok w ∧ e.console.screen = .blank := by
  let memory := Memory.blank.put 0
    [UInt8.ofNat (w.toNat / 256), UInt8.ofNat w.toNat]
  let e : Engine :=
    ⟨⟨{ Machine.blank with memory := memory, pc := 0 },
        .blank, fun _ => none, .ofCells fun _ => 0⟩,
      .ofPolicy .ignore, #[]⟩
  have hword : memory.wordAt 0 = w :=
    Memory.wordAt_put _ w (by decide)
  exact ⟨e, (word_of_inside (Nat.zero_le _)).trans (congrArg _ hword), rfl⟩

/-- A word of the system family is passed over in every state if and only if
its low byte is neither `E0` nor `EE`.  In a single state a word that ends in
`E0` looks as if it were passed over when the screen is blank already and marked
as changed; one that ends in `EE` never does. -/
theorem system_words_passed_over (w : UInt16)
    (hfamily : Word.family w = 0) :
    (∀ e : Engine, e.word = .ok w →
      (e.OnlyAdvances ↔
        Word.byte w ≠ 0xEE ∧
          (Word.byte w = 0xE0 → e.console.screen = ⟨.blank, true⟩))) ∧
    ((∀ e : Engine, e.word = .ok w → e.OnlyAdvances) ↔
      Word.byte w ≠ 0xE0 ∧ Word.byte w ≠ 0xEE) := by
  have hstate : ∀ e : Engine, e.word = .ok w →
      (e.OnlyAdvances ↔
        Word.byte w ≠ 0xEE ∧
          (Word.byte w = 0xE0 → e.console.screen = ⟨.blank, true⟩)) := by
    intro e hword
    by_cases hret : Word.byte w = 0xEE
    · have hahead : e.instruction? = some .ret :=
        (instruction?_of_word hword).trans
          (Instruction.decode_eq_ret hfamily hret)
      exact iff_of_false (not_onlyAdvances_of_ret hahead)
        fun h => h.1 hret
    · by_cases hclear : Word.byte w = 0xE0
      · have hahead : e.instruction? = some .clear :=
          (instruction?_of_word hword).trans
            (Instruction.decode_eq_clear hfamily hclear)
        rw [onlyAdvances_iff_of_clear hahead]
        exact ⟨fun h => ⟨hret, fun _ => h⟩, fun h => h.2 hclear⟩
      · have hnone :=
          Instruction.decode_eq_none_of_family_zero hfamily hclear hret
        exact iff_of_true (onlyAdvances_of_decode_none hword hnone)
          ⟨hret, fun h => absurd h hclear⟩
  refine ⟨hstate, ?_, ?_⟩
  · intro hall
    obtain ⟨e, hword, hscreen⟩ := exists_word w
    obtain ⟨hret, hclear⟩ := (hstate e hword).mp (hall e hword)
    refine ⟨fun h => ?_, hret⟩
    rw [hscreen] at hclear
    cases congrArg Screen.dirty (hclear h)
  · rintro ⟨hclear, hret⟩ e hword
    exact (hstate e hword).mpr ⟨hret, fun h => absurd h hclear⟩

/-- The word `02E1`, between two words that clear the screen and one that
returns, is passed over with all return slots in use. -/
theorem system_words_passed_over_of_neighbour :
    let e : Engine :=
      ⟨⟨{ Machine.blank with
            memory := Memory.blank.put 0x200 [0x02, 0xE1]
            sp := 15 },
          (Screen.blank.plot 0 0 1).1, fun _ => some true,
          .ofCells fun _ => 0⟩,
        .ofPolicy .record, #[]⟩
    Word.family 0x02E1 = 0 ∧ e.word = .ok 0x02E1 ∧
      Word.byte 0x02E1 ≠ 0xE0 ∧ Word.byte 0x02E1 ≠ 0xEE ∧
      e.OnlyAdvances ∧ e.cycle.state.dispatcher.unknown = [0x02E1] := by
  intro e
  have hfamily : Word.family 0x02E1 = 0 := by decide
  have hword : e.word = .ok 0x02E1 :=
    (word_of_inside (by decide)).trans (congrArg _ (by decide +kernel))
  have hbyte : Word.byte 0x02E1 ≠ 0xE0 ∧ Word.byte 0x02E1 ≠ 0xEE := by decide
  have hpassed := (system_words_passed_over 0x02E1 hfamily).2.mpr hbyte
  exact ⟨hfamily, hword, hbyte.1, hbyte.2, hpassed e hword,
    by decide +kernel⟩

/-- Of two words of the system family other than `00E0` and `00EE` one clears a
screen that has a pixel on, and the other returns without a call. -/
theorem system_words_obeyed :
    let ahead (word : List UInt8) : Engine :=
      ⟨⟨{ Machine.blank with memory := Memory.blank.put 0x200 word },
          (Screen.blank.plot 0 0 1).1, fun _ => none, .ofCells fun _ => 0⟩,
        .ofPolicy .ignore, #[]⟩
    let clears := ahead [0x01, 0xE0]
    let returns := ahead [0x01, 0xEE]
    (clears.word = .ok 0x01E0 ∧ Word.family 0x01E0 = 0 ∧
      clears.console.screen.frame.pixel 0 0 = true ∧
      clears.cycle.state.console.screen.frame.pixel 0 0 = false) ∧
    (returns.word = .ok 0x01EE ∧ Word.family 0x01EE = 0 ∧
      returns.cycle.error = some (.stackUnderflow 0x200)) ∧
    ¬∀ (e : Engine) (w : UInt16), e.word = .ok w → Word.family w = 0 →
      w ≠ 0x00E0 → w ≠ 0x00EE → e.OnlyAdvances := by
  intro ahead clears returns
  have hword (word : List UInt8) :
      (ahead word).word =
        .ok ((Memory.blank.put 0x200 word).wordAt 0x200) :=
    word_of_inside (show Machine.blank.pc.toNat ≤ 0xFFE by decide)
  have hclears : clears.word = .ok 0x01E0 :=
    (hword _).trans (congrArg _ (by decide +kernel))
  have hreturns : returns.word = .ok 0x01EE :=
    (hword _).trans (congrArg _ (by decide +kernel))
  have herror : returns.cycle.error = some (.stackUnderflow 0x200) := by
    decide +kernel
  refine ⟨⟨hclears, by decide, by decide +kernel, by decide +kernel⟩,
    ⟨hreturns, by decide, herror⟩, ?_⟩
  intro hall
  have hadvances := hall returns 0x01EE hreturns (by decide) (by decide)
    (by decide)
  rw [hadvances.error] at herror
  cases herror

end Engine

end Chip8
