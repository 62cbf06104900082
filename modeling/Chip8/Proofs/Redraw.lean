import Chip8.Proofs.FaultyCycle
import Chip8.Proofs.Footprint
import Chip8.Proofs.Strokes

/-!
# When to draw the screen again

A host that draws the screen again only if it is handed a frame misses nothing.
The mark on the screen ties two frames of a session to each other: while it is
off, the screen is as it was when a frame was last handed out.  A cycle either
sets the mark or leaves the screen alone, and it sets the mark exactly if it
blanks the screen or if one of the pixels it plots reports a flip.
-/

namespace Chip8

/-- The rows of a sprite that a draw gets to, as far as their bytes lie in
memory. -/
def Console.lines (c : Console) (x y : Register) (rows : Nibble) :
    List Stroke :=
  let m := c.machine
  let bytes := m.memory.block m.index.toNat
    (min rows.val (Memory.size - m.index.toNat))
  bytes.mapIdx fun k byte =>
    .line (m.reg x).toNat ((m.reg y).toNat + k) (spritePixels byte)

/-- The single pixels that a draw plots. -/
def Console.dots (c : Console) (x y : Register) (rows : Nibble) :
    List Stroke :=
  (c.lines x y rows).flatMap Stroke.dots

/-- A cycle blanks the screen, or one of the pixels it plots reports a flip. -/
def Engine.MarksScreen (e : Engine) : Prop :=
  e.instruction? = some .clear ∨
    ∃ x y rows, e.instruction? = some (.draw x y rows) ∧
      true ∈ (e.console.screen.strikeAll (e.console.dots x y rows)).2

/-- What a host that is shown frames sees after a reply. -/
def Reply.showing (last : Frame) : Reply → Frame
  | .frame (some changed) => changed
  | _ => last

namespace Screen

/-- What an operation on a screen leaves and reports goes together: it reports a
flip and has set the mark, or it reports none and has done nothing. -/
def Tells (s : Screen) (after : Screen × Bool) : Prop :=
  after.2 = true ∧ after.1.dirty = true ∨ after.2 = false ∧ after.1 = s

variable (s : Screen)

theorem Tells.trans {s : Screen} {first others : Screen × Bool}
    (hfirst : s.Tells first) (hothers : first.1.Tells others) :
    s.Tells (others.1, first.2 || others.2) := by
  rcases hothers with ⟨hreport, hdirty⟩ | ⟨hreport, hsame⟩
  · left
    rw [hreport, Bool.or_true]
    exact ⟨rfl, hdirty⟩
  · rw [hreport, hsame, Bool.or_false]
    exact hfirst

theorem plot_tells (column row : Nat) (value : UInt8) :
    s.Tells (s.plot column row value) := by
  by_cases hrow : row < 32
  · have hplot := s.plot_eq column ⟨row, hrow⟩ value
    dsimp only at hplot
    rw [hplot]
    split
    · exact Or.inl ⟨rfl, rfl⟩
    · exact Or.inr ⟨rfl, rfl⟩
  · rw [s.plot_of_le column (Nat.not_lt.mp hrow)]
    exact Or.inr ⟨rfl, rfl⟩

theorem plotAll_tells (column row : Nat) (values : List UInt8) :
    s.Tells (s.plotAll column row values) := by
  induction values generalizing s column with
  | nil => exact Or.inr ⟨rfl, rfl⟩
  | cons value rest ih => exact (s.plot_tells column row value).trans (ih _ _)

theorem strike_tells (stroke : Stroke) : s.Tells (s.strike stroke) := by
  cases stroke with
  | dot column row value => exact s.plot_tells column row value
  | line column row values => exact s.plotAll_tells column (row % 32) values

theorem strikeAll_tells (strokes : List Stroke) :
    s.Tells ((s.strikeAll strokes).1, (s.strikeAll strokes).2.any id) := by
  induction strokes generalizing s with
  | nil => exact Or.inr ⟨rfl, rfl⟩
  | cons stroke rest ih => exact (s.strike_tells stroke).trans (ih _)

/-- Sprite bytes drawn one below another flip one row each. -/
theorem strikeAll_lines (column row : Nat) (bytes : List UInt8) :
    (s.strikeAll (bytes.mapIdx fun k byte =>
        .line column (row + k) (spritePixels byte))).1 =
      ⟨s.frame.xorBytes column row bytes,
        s.dirty || bytes.any (· ≠ 0)⟩ := by
  induction bytes generalizing s row with
  | nil => simp [strikeAll, Frame.xorBytes]
  | cons byte rest ih =>
      have hfirst : s.strike (.line column (row + 0) (spritePixels byte)) =
          s.drawByte column row byte := rfl
      have hrest : (rest.mapIdx fun k byte =>
            Stroke.line column (row + (k + 1)) (spritePixels byte)) =
          rest.mapIdx fun k byte =>
            .line column (row + 1 + k) (spritePixels byte) := by
        simp only [Nat.add_assoc, Nat.add_comm 1]
      rw [List.mapIdx_cons, strikeAll, hfirst, hrest, ih, drawByte_eq,
        List.any_cons, Bool.or_assoc]
      rfl

end Screen

namespace Console

/-- Whether it goes wrong or not, a draw leaves on the screen what the single
pixels leave that it plots. -/
theorem draw_screen_dots (c : Console) (x y : Register) (rows : Nibble) :
    (c.draw x y rows).state.screen =
      (c.screen.strikeAll (c.dots x y rows)).1 := by
  rw [draw_screen, dots, Screen.strikeAll_flatMap_dots]
  exact (c.screen.strikeAll_lines _ _ _).symm

end Console

namespace Engine

variable {e : Engine}

theorem cycle_screen_of_instruction {i : Instruction}
    (hahead : e.instruction? = some i) :
    e.cycle.state.console.screen = (e.console.execute i).state.screen := by
  cases hexecute : (e.console.execute i).error with
  | some fault => rw [(cycle_of_execute_error hahead hexecute).2]
  | none =>
      rw [(cycle_of_execute_ok hahead hexecute).2]
      rfl

theorem screen_notMem_footprint (hclear : e.instruction? ≠ some .clear)
    (hdraw : ∀ x y rows, e.instruction? ≠ some (.draw x y rows)) :
    .screen ∉ e.footprint := by
  cases hahead : e.instruction? with
  | none => simp [footprint, hahead]
  | some i =>
      rw [footprint_of_instruction? hahead]
      cases i with
      | clear => exact absurd hahead hclear
      | draw x y rows => exact absurd hahead (hdraw x y rows)
      | combine op => cases op with
        | _ => simp [Instruction.footprint]
      | _ => simp [Instruction.footprint]

/-- A cycle either sets the mark, if it is one that does, or leaves the screen
alone. -/
theorem cycle_screen (e : Engine) :
    e.MarksScreen ∧ e.cycle.state.console.screen.dirty = true ∨
      ¬e.MarksScreen ∧ e.cycle.state.console.screen = e.console.screen := by
  by_cases hclear : e.instruction? = some .clear
  · left
    refine ⟨Or.inl hclear, ?_⟩
    rw [cycle_screen_of_instruction hclear]
    rfl
  · by_cases hdraw : ∃ x y rows, e.instruction? = some (.draw x y rows)
    · obtain ⟨x, y, rows, hahead⟩ := hdraw
      let drawn := e.console.screen.strikeAll (e.console.dots x y rows)
      have hscreen : e.cycle.state.console.screen = drawn.1 := by
        rw [cycle_screen_of_instruction hahead]
        exact e.console.draw_screen_dots x y rows
      have hmarks : e.MarksScreen ↔ drawn.2.any id = true := by
        simp [MarksScreen, hahead, drawn]
      rw [hmarks, hscreen, Bool.not_eq_true]
      exact e.console.screen.strikeAll_tells (e.console.dots x y rows)
    · right
      constructor
      · rintro (hahead | ⟨x, y, rows, hahead, -⟩)
        · exact hclear hahead
        · exact hdraw ⟨x, y, rows, hahead⟩
      · apply e.cycle_changesOnly .screen
        apply screen_notMem_footprint hclear
        intro x y rows hahead
        exact hdraw ⟨x, y, rows, hahead⟩

end Engine

namespace Emulator

variable {rom : Program} {latch : Latch} {config : Config}
  {source : Tape Nat} {entropy : Entropy} {e : Emulator}

theorem answer_screen_of_host {request : Request}
    (hwork : request.isWork = false) (hrefresh : request ≠ .refresh) :
    (e.answer request).1.screen = e.screen := by
  cases request with
  | step | poll | countDown => cases hwork
  | refresh => exact absurd rfl hrefresh
  | setLatch | edit => rfl
  | load rom =>
      simp only [answer, loadProgram]
      cases (e.machine.loadProgram rom).error with
      | some reason => rfl
      | none => rfl

theorem afterWord_screen (e : Emulator) (request : Request) :
    (e.afterWord request).console.screen.dirty = true ∨
      (e.afterWord request).console.screen = e.screen := by
  unfold afterWord
  split
  · exact e.engine.cycle_screen.imp And.right And.right
  · exact Or.inr rfl

/-- A request either leaves the mark set or leaves the screen alone, unless it
asks for the frame. -/
theorem answer_screen (hpaced : e.Paced) {request : Request}
    (hrefresh : request ≠ .refresh) :
    (e.answer request).1.screen.dirty = true ∨
      (e.answer request).1.screen = e.screen := by
  cases hwork : request.isWork with
  | false => exact Or.inr (answer_screen_of_host hwork hrefresh)
  | true =>
      rcases answer_engine hpaced hwork with hengine | hengine
      · rw [screen, hengine]
        exact e.afterWord_screen request
      · rw [screen, hengine]
        exact e.afterWord_screen request

theorem replyTo_showing (outcome : Outcome Fault Emulator) (last : Frame) :
    (replyTo outcome).2.showing last = last := by
  simp only [replyTo]
  split
  · rfl
  · rfl

theorem answer_showing {request : Request} (hrefresh : request ≠ .refresh)
    (last : Frame) : (e.answer request).2.showing last = last := by
  cases request with
  | refresh => exact absurd rfl hrefresh
  | step | poll => exact replyTo_showing _ last
  | countDown | setLatch | edit => rfl
  | load rom =>
      simp only [answer]
      split
      · rfl
      · rfl

/-- A host that asks for the frame sees the screen as it is, given that the
screen is as the host saw it last while the mark is off. -/
theorem refresh_showing {last : Frame}
    (h : e.screen.dirty = false → e.screen.frame = last) :
    e.screen.frame = (e.answer .refresh).2.showing last := by
  change _ = Reply.showing last
    (.frame (if e.screen.dirty then some e.screen.frame else none))
  cases hdirty : e.screen.dirty with
  | false => exact h hdirty
  | true => rfl

theorem run_showing (hpaced : e.Paced) (requests : List Request)
    {last : Frame} (h : e.screen.dirty = false → e.screen.frame = last) :
    let now := e.run requests
    now.1.screen.dirty = false →
      now.1.screen.frame = now.2.foldl Reply.showing last := by
  induction requests generalizing e last with
  | nil => exact h
  | cons request rest ih =>
      apply ih (answer_paced hpaced request)
      by_cases hrefresh : request = .refresh
      · subst hrefresh
        intro _
        exact refresh_showing (e := e) h
      · rw [answer_showing hrefresh]
        intro hdirty
        rcases answer_screen hpaced hrefresh with hset | hsame
        · rw [hset] at hdirty
          cases hdirty
        · rw [hsame] at hdirty ⊢
          exact h hdirty

/-- In a session that starts with the mark off and does not take it off again,
the mark is set by the cycles that set it and by nothing else. -/
theorem run_dirty_iff (hpaced : e.Paced) (hfresh : e.screen.dirty = false)
    {requests : List Request} (hrefresh : .refresh ∉ requests) :
    (e.run requests).1.screen.dirty = true ↔
      ∃ engine ∈ e.cycles requests, engine.MarksScreen := by
  let Set (done : List Engine) (engine : Engine) : Prop :=
    engine.console.screen.dirty = true ↔ ∃ earlier ∈ done, earlier.MarksScreen
  have hcycle (done : List Engine) (engine : Engine) (h : Set done engine) :
      Set (done ++ [engine]) engine.cycle.state := by
    have hany : (∃ earlier ∈ done ++ [engine], earlier.MarksScreen) ↔
        (∃ earlier ∈ done, earlier.MarksScreen) ∨ engine.MarksScreen := by
      simp [or_and_right, exists_or]
    have hdone : engine.console.screen.dirty = true ↔
        ∃ earlier ∈ done, earlier.MarksScreen := h
    show _ ↔ _
    rw [hany, ← hdone]
    rcases engine.cycle_screen with ⟨hmarks, hset⟩ | ⟨hmarks, hsame⟩
    · exact iff_of_true hset (Or.inr hmarks)
    · rw [hsame, or_iff_left hmarks]
  have hhost : ∀ request ∈ requests, request.isWork = false →
      ∀ done (now : Emulator), Set done now.engine →
        Set done (now.answer request).1.engine := by
    intro request hmem hwork done now h
    have hne : request ≠ .refresh := by
      rintro rfl
      exact hrefresh hmem
    have hsame : (now.answer request).1.engine.console.screen =
        now.engine.console.screen := answer_screen_of_host hwork hne
    show _ ↔ _
    rw [hsame]
    exact h
  have hstart : Set [] e.engine := by
    have hoff : e.engine.console.screen.dirty = false := hfresh
    simp [Set, hoff]
  exact run_engine_history hcycle (fun _ _ h => h) hpaced hhost [] hstart

theorem refresh_eq (e : Emulator) :
    e.refresh.2 = if e.screen.dirty then some e.screen.frame else none := rfl

/-- The mark on the screen hides no change from a host that draws only the
frames it is handed. -/
theorem refresh_hides_no_change (rom : Program) (latch : Latch)
    (config : Config) (source : Tape Nat) (entropy : Entropy)
    (e : Emulator) (hboot : boot rom latch config source entropy = .ok e) :
    (∀ requests,
      let now := e.run requests
      (now.1.refresh.2 = none →
        now.1.screen.frame = now.2.foldl Reply.showing .blank) ∧
      ∀ changed, now.1.refresh.2 = some changed →
        changed = now.1.screen.frame) ∧
    (∀ before after,
      (before = [] ∨ ∃ earlier, before = earlier ++ [.refresh]) →
      .refresh ∉ after →
      ((e.run (before ++ after)).1.refresh.2.isSome = true ↔
        ∃ engine ∈ (e.run before).1.cycles after, engine.MarksScreen)) ∧
    ∀ (c : Console) x y rows,
      (c.draw x y rows).state.screen =
        (c.screen.strikeAll (c.dots x y rows)).1 := by
  have hpaced := boot_paced hboot
  have hblank := boot_screen hboot
  refine ⟨?_, ?_, ?_⟩
  · intro requests now
    have hstart : e.screen.dirty = false → e.screen.frame = .blank :=
      fun _ => congrArg Screen.frame hblank
    have hshowing := run_showing hpaced requests hstart
    rw [refresh_eq]
    split
    next =>
      refine ⟨nofun, ?_⟩
      rintro changed ⟨⟩
      rfl
    next hdirty =>
      rw [Bool.not_eq_true] at hdirty
      exact ⟨fun _ => hshowing hdirty, nofun⟩
  · intro before after hbefore hafter
    have hfresh : (e.run before).1.screen.dirty = false := by
      rcases hbefore with rfl | ⟨earlier, rfl⟩
      · exact congrArg Screen.dirty hblank
      · rw [run_append]
        rfl
    rw [← run_dirty_iff (run_paced hpaced before) hfresh hafter, run_append,
      refresh_eq]
    split
    next hdirty => simp [hdirty]
    next hdirty => simp [hdirty]
  · intro c x y rows
    exact c.draw_screen_dots x y rows

/-- A glyph drawn again and again.  Once it has been handed out, two more draws
take each other back, and yet the mark is set. -/
theorem refresh_hides_no_change_of_undone_draw :
    let rom : Program := [0xD0, 0x05, 0xD0, 0x05, 0xD0, 0x05]
    ∃ e, boot rom (fun _ => none) {} (.ofCells fun n => 2000000 * n)
        (fun _ => .ofCells fun _ => 0) = .ok e ∧
      let taken := e.run [.step, .refresh]
      let undone := e.run ([.step, .refresh] ++ [.step, .countDown, .step])
      taken.1.refresh.2 = none ∧
      taken.1.screen.frame = taken.2.foldl Reply.showing .blank ∧
      undone.1.screen.frame = taken.1.screen.frame ∧
      undone.1.refresh.2.isSome = true ∧
      ∃ engine ∈ taken.1.cycles [.step, .countDown, .step],
        engine.MarksScreen := by
  intro rom
  obtain ⟨e, hboot, hnone, hsame, hsome⟩ : ∃ e,
      boot rom (fun _ => none) {} (.ofCells fun n => 2000000 * n)
        (fun _ => .ofCells fun _ => 0) = .ok e ∧
      (e.run [.step, .refresh]).1.refresh.2 = none ∧
      (e.run ([.step, .refresh] ++ [.step, .countDown, .step])).1.screen.frame =
        (e.run [.step, .refresh]).1.screen.frame ∧
      (e.run ([.step, .refresh] ++
        [.step, .countDown, .step])).1.refresh.2.isSome = true :=
    ⟨_, rfl, by decide +kernel, by decide +kernel, by decide +kernel⟩
  obtain ⟨hshown, hmarked, -⟩ :=
    refresh_hides_no_change rom _ _ _ _ e hboot
  refine ⟨e, hboot, hnone, (hshown _).1 hnone, hsame, hsome, ?_⟩
  apply (hmarked _ _ ?_ ?_).mp hsome
  · exact Or.inr ⟨[.step], rfl⟩
  · simp

end Emulator

end Chip8
