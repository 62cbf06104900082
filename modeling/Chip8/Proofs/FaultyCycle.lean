import Chip8.Proofs.Cycle
import Chip8.Proofs.Effect
import Chip8.Proofs.Sprite

/-!
# Cycles that go wrong

A cycle that goes wrong takes nothing back.  Everything is as before
nevertheless, because each instruction checks what it needs before it changes
anything.  The exception is a sprite that reaches beyond the end of memory: its
rows inside memory have been drawn by the time the first row outside is asked
for, and they stay on the screen.
-/

namespace Chip8

/-- How many rows of a sprite lie in memory. -/
def Machine.rowsInMemory (m : Machine) (rows : Nibble) : Nibble :=
  Nibble.ofNat (min rows.val (Memory.size - m.index.toNat))

theorem Machine.val_rowsInMemory (m : Machine) (rows : Nibble) :
    (m.rowsInMemory rows).val =
      min rows.val (Memory.size - m.index.toNat) := by
  have hsmall : min rows.val (Memory.size - m.index.toNat) < 16 :=
    Nat.lt_of_le_of_lt (Nat.min_le_left _ _) rows.isLt
  exact Nat.mod_eq_of_lt hsmall

namespace Console

variable (c : Console) (x y : Register) (rows : Nibble)

/-- What a draw leaves on the screen, whether it goes wrong or not. -/
theorem draw_screen :
    let bytes := c.machine.memory.block c.machine.index.toNat
      (min rows.val (Memory.size - c.machine.index.toNat))
    (c.draw x y rows).state.screen =
      ⟨c.screen.frame.xorBytes (c.machine.reg x).toNat
          (c.machine.reg y).toNat bytes,
        c.screen.dirty || bytes.any (· ≠ 0)⟩ := by
  intro bytes
  simp only [draw, Screen.drawSprite_eq]
  split
  · rfl
  · rfl

theorem draw_rowsInMemory :
    ∃ shown, c.draw x y (c.machine.rowsInMemory rows) = .ok shown ∧
      (c.draw x y rows).state.screen = shown.screen := by
  let inside := c.machine.rowsInMemory rows
  have hinside := c.machine.val_rowsInMemory rows
  have hfit : inside.val ≤ Memory.size - c.machine.index.toNat := by
    rw [hinside]
    exact Nat.min_le_right _ _
  have hbytes : min inside.val (Memory.size - c.machine.index.toNat) =
      min rows.val (Memory.size - c.machine.index.toNat) := by
    rw [Nat.min_eq_left hfit, hinside]
  have hshown := c.draw_of_fits x y hfit
  refine ⟨_, hshown, ?_⟩
  calc
    (c.draw x y rows).state.screen = (c.draw x y inside).state.screen := by
      rw [draw_screen, draw_screen, hbytes]
    _ = _ := by rw [hshown, Outcome.state_ok]

end Console

namespace Engine

variable {e : Engine} {fault : Fault}

theorem cycle_state_of_error (h : e.cycle.error = some fault) :
    e.cycle.state.console =
        { e.console with screen := e.cycle.state.console.screen } ∧
      e.cycle.state.dispatcher = e.dispatcher := by
  rcases cycle_of_error h with
    ⟨-, hstate⟩ | ⟨word, i, -, -, hexecute, hstate⟩
  · rw [hstate]
    exact ⟨rfl, rfl⟩
  · rw [hstate]
    exact ⟨Console.execute_state_of_error hexecute, rfl⟩

theorem cycle_screen_of_error (h : e.cycle.error = some fault)
    (hother : ∀ x y rows, e.instruction? ≠ some (.draw x y rows)) :
    e.cycle.state.console.screen = e.console.screen := by
  rcases cycle_of_error h with
    ⟨-, hstate⟩ | ⟨word, i, hword, hdecode, hexecute, hstate⟩
  · rw [hstate]
  · have hdraw : ∀ x y rows, i ≠ .draw x y rows := by
      rintro x y rows rfl
      exact hother x y rows ((instruction?_of_word hword).trans hdecode)
    rw [hstate, Console.execute_state_of_error_of_ne_draw hexecute hdraw]

theorem cycle_console_of_draw_error {x y : Register} {rows : Nibble}
    (h : e.cycle.error = some fault)
    (hahead : e.instruction? = some (.draw x y rows)) :
    e.cycle.state.console = (e.console.draw x y rows).state := by
  obtain ⟨word, hword, hdecode⟩ := instruction?_eq_some_iff.mp hahead
  rcases cycle_of_error h with
    ⟨hnone, -⟩ | ⟨word', i, hword', hdecode', -, hstate⟩
  · rw [hword] at hnone
    cases hnone
  · rw [hword] at hword'
    cases hword'
    rw [hdecode] at hdecode'
    cases hdecode'
    rw [hstate, Console.execute]

/-- A cycle that goes wrong leaves everything as it was, so that the counter
still points at the word that went wrong.  Only a draw leaves something on the
screen: what a draw of its rows inside memory would. -/
theorem cycle_error_changes_screen_only (e : Engine) (fault : Fault)
    (hfault : e.cycle.error = some fault) :
    let before := e.console
    let after := e.cycle.state.console
    after.machine = before.machine ∧
    e.cycle.state.word = e.word ∧
    after.random = before.random ∧
    after.latch = before.latch ∧
    e.cycle.state.dispatcher = e.dispatcher ∧
    ((∀ x y rows, e.instruction? ≠ some (.draw x y rows)) →
      after.screen = before.screen) ∧
    ∀ x y rows, e.instruction? = some (.draw x y rows) →
      ∃ (inside : Nibble) (shown : Console),
        (∀ k, k < inside.val ↔
          k < rows.val ∧ before.machine.index.toNat + k < Memory.size) ∧
        before.execute (.draw x y inside) = .ok shown ∧
        after.screen = shown.screen ∧
        after.screen.frame = before.screen.frame.xorBytes
          (before.machine.reg x).toNat (before.machine.reg y).toNat
          (before.machine.memory.block before.machine.index.toNat inside) := by
  intro before after
  obtain ⟨hconsole, hdispatcher⟩ := cycle_state_of_error hfault
  have hafter : after = { before with screen := after.screen } := hconsole
  have hmachine : after.machine = before.machine := by rw [hafter]
  refine ⟨hmachine, ?_, by rw [hafter], by rw [hafter], hdispatcher,
    cycle_screen_of_error hfault, ?_⟩
  · exact congrArg (fun m => m.memory.readWord m.pc.toNat) hmachine
  · intro x y rows hahead
    have hdrawn : after.screen = (before.draw x y rows).state.screen :=
      congrArg Console.screen (cycle_console_of_draw_error hfault hahead)
    have hinside := before.machine.val_rowsInMemory rows
    obtain ⟨shown, hshown, hscreen⟩ := before.draw_rowsInMemory x y rows
    refine ⟨before.machine.rowsInMemory rows, shown, ?_, hshown,
      hdrawn.trans hscreen, ?_⟩
    · intro k
      rw [hinside]
      omega
    · rw [hdrawn, Console.draw_screen, hinside]

/-- Of a sprite of five rows at the last two cells two rows are drawn, without
a collision in `VF`.  Of two registers filled from the last cell on, neither is,
though there is a byte for the first. -/
theorem cycle_error_drawing_past_end :
    let m (word : List UInt8) (index : UInt16) := { Machine.blank with
      memory := Memory.blank.put 0x200 word |>.put 0xFFE [0xFF, 0x81]
      index := index }
    let e (machine : Machine) : Engine :=
      ⟨⟨machine, .blank, fun _ => none, .ofCells fun _ => 0⟩,
        .ofPolicy .record, #[]⟩
    let drawing := m [0xD0, 0x05] 0xFFE
    let filling := m [0xF1, 0x65] 0xFFF
    let drawn := (e drawing).cycle
    let filled := (e filling).cycle
    (drawn.error = some (.outsideMemory 0x1000) ∧
      drawn.state.console.machine = drawing ∧
      drawn.state.console.screen.frame.get 0 = 0xFF00000000000000#64 ∧
      drawn.state.console.screen.frame.get 1 = 0x8100000000000000#64 ∧
      drawn.state.console.screen.frame.get 2 = 0#64) ∧
    filled.error = some (.outsideMemory 0x1000) ∧
      filled.state.console.machine = filling ∧
      filled.state.console.screen = .blank := by
  intro m e drawing filling drawn filled
  have hdrawn : drawn.error = some (.outsideMemory 0x1000) := by
    decide +kernel
  have hfilled : filled.error = some (.outsideMemory 0x1000) := by
    decide +kernel
  have hdraw : (e drawing).instruction? = some (.draw 0 0 5) := by
    decide +kernel
  have hfill : (e filling).instruction? = some (.fillRegisters 1) := by
    decide +kernel
  obtain ⟨hmachine, -, -, -, -, -, hrows⟩ :=
    cycle_error_changes_screen_only (e drawing) _ hdrawn
  obtain ⟨hkept, -, -, -, -, hscreen, -⟩ :=
    cycle_error_changes_screen_only (e filling) _ hfilled
  refine ⟨⟨hdrawn, hmachine, ?_⟩, hfilled, hkept, ?_⟩
  · obtain ⟨inside, -, hinside, -, -, hframe⟩ := hrows 0 0 5 hdraw
    have htwo : inside = 2 := by
      have hone := (hinside 1).mpr (by decide +kernel)
      have hnot : ¬2 < inside.val := fun h =>
        absurd ((hinside 2).mp h) (by decide +kernel)
      exact Fin.ext (Nat.le_antisymm (Nat.le_of_not_lt hnot) hone)
    rw [htwo] at hframe
    rw [hframe]
    decide +kernel
  · apply hscreen
    intro x y rows hahead
    rw [hfill] at hahead
    cases hahead

end Engine

end Chip8
