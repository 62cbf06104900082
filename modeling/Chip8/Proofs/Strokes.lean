import Chip8.Proofs.Sprite
import Mathlib.Data.List.Perm.Basic

/-!
# The algebra of strokes

A host can plot single pixels or whole rows of them, and either only ever flips
pixels.  Flips of one pixel cancel each other out in pairs and do not ask for
their order.  All that strokes leave at a pixel is therefore whether the number
of odd values that were aimed at it is odd.
-/

namespace Chip8

/-- Values to flip pixels with. -/
inductive Stroke
  /-- One value at a column and a row. -/
  | dot (column row : Nat) (value : UInt8)
  /-- Values one beside another in a row, from a column on. -/
  | line (column row : Nat) (values : List UInt8)
  deriving DecidableEq, Repr

/-- A value and the pixel that it is aimed at. -/
structure Aim where
  column : Nat
  row : Nat
  value : UInt8
  deriving DecidableEq, Repr

namespace Aim

/-- Whether an odd value is aimed at a pixel. -/
def flips (column row : Nat) (aim : Aim) : Bool :=
  column = aim.column && row = aim.row && aim.value.toNat % 2 = 1

/-- Whether the number of odd values that are aimed at a pixel is odd. -/
def parity (aims : List Aim) (column row : Nat) : Bool :=
  aims.countP (flips column row) % 2 = 1

end Aim

namespace Stroke

/-- What a stroke aims its values at.  Columns are counted around the screen;
rows are for a line, but a dot below the screen is aimed at nothing. -/
def aims : Stroke → List Aim
  | .dot column row value =>
    if row < 32 then [⟨column % 64, row, value⟩] else []
  | .line column row values =>
    values.mapIdx fun k value => ⟨(column + k) % 64, row % 32, value⟩

/-- The single pixels that a stroke plots. -/
def dots : Stroke → List Stroke
  | .dot column row value => [.dot column row value]
  | .line column row values =>
    values.mapIdx fun k value => .dot (column + k) (row % 32) value

end Stroke

namespace Screen

/-- Make a stroke.  Says whether any pixel was flipped. -/
def strike (s : Screen) : Stroke → Screen × Bool
  | .dot column row value => s.plot column row value
  | .line column row values => s.drawRow column row values

/-- Make strokes one after another.  Says for each of them whether any pixel
was flipped. -/
def strikeAll (s : Screen) : List Stroke → Screen × List Bool
  | [] => (s, [])
  | stroke :: rest =>
    let first := s.strike stroke
    let others := first.1.strikeAll rest
    (others.1, first.2 :: others.2)

end Screen

theorem Frame.ext_pixel {f g : Frame}
    (h : ∀ column row, f.pixel column row = g.pixel column row) : f = g := by
  apply ext_get
  intro row
  apply BitVec.eq_of_getMsbD_eq
  intro column _
  simpa [pixel, Vector.get] using h column row

namespace Aim

variable (aims others : List Aim) (column row : Nat)

theorem parity_append :
    parity (aims ++ others) column row =
      (parity aims column row ^^ parity others column row) := by
  simp only [parity, List.countP_append]
  rw [Bool.eq_iff_iff]
  simp
  omega

theorem parity_singleton (aim : Aim) :
    parity [aim] column row = aim.flips column row := by
  cases hflips : aim.flips column row with
  | false => simp [parity, hflips]
  | true => simp [parity, hflips]

theorem parity_cons (aim : Aim) :
    parity (aim :: aims) column row =
      (aim.flips column row ^^ parity aims column row) := by
  rw [← List.singleton_append, parity_append, parity_singleton]

variable {aims others}

theorem parity_perm (h : others.Perm aims) :
    parity others column row = parity aims column row := by
  simp only [parity, h.countP_eq]

end Aim

namespace Screen

variable (s : Screen)

theorem plot_report {column row : Nat} {value : UInt8} :
    (s.plot column row value).2 = true ↔ value.toNat % 2 = 1 ∧ row < 32 := by
  by_cases hrow : row < 32
  · have hplot := s.plot_eq column ⟨row, hrow⟩ value
    dsimp only at hplot
    rw [hplot]
    split
    next hodd => simp [hodd, hrow]
    next heven => simp [heven]
  · rw [s.plot_of_le column (Nat.not_lt.mp hrow)]
    simp [hrow]

theorem drawRow_report {column row : Nat} {values : List UInt8} :
    (s.drawRow column row values).2 = true ↔
      ∃ value ∈ values, value.toNat % 2 = 1 := by
  have hrow := s.plotAll_eq column (Fin.ofNat 32 row) values
  change s.drawRow column row values = _ at hrow
  rw [hrow]
  simp [anyOdd]

theorem plot_pixel (column row : Nat) (value : UInt8) (c r : Nat) :
    (s.plot column row value).1.frame.pixel c r =
      (s.frame.pixel c r ^^
        Aim.parity (Stroke.dot column row value).aims c r) := by
  by_cases hrow : row < 32
  · have hplot := s.plot_eq column ⟨row, hrow⟩ value
    have hbit : (BitVec.twoPow 64 (63 - column % 64)).getMsbD c =
        decide (c = column % 64) := by
      rw [BitVec.getMsbD_twoPow, Bool.eq_iff_iff]
      simp only [Bool.and_eq_true, decide_eq_true_iff]
      omega
    dsimp only at hplot
    rw [Stroke.aims, if_pos hrow, Aim.parity_singleton, hplot]
    split
    next hodd => simp [hodd, Frame.pixel_xorRow, hbit, Aim.flips, Bool.and_comm]
    next heven => simp [heven, Aim.flips]
  · rw [Stroke.aims, if_neg hrow, s.plot_of_le column (Nat.not_lt.mp hrow)]
    simp [Aim.parity]

/-- In a row of the screen, each of the values plotted one beside another is
aimed at a pixel of its own. -/
theorem plotAll_pixel (column : Nat) {row : Nat} (hrow : row < 32)
    (values : List UInt8) (c r : Nat) :
    (s.plotAll column row values).1.frame.pixel c r =
      (s.frame.pixel c r ^^
        Aim.parity (values.mapIdx fun k value =>
          ⟨(column + k) % 64, row, value⟩) c r) := by
  induction values generalizing s column with
  | nil => simp [plotAll, Aim.parity]
  | cons value rest ih =>
      have hrest : (rest.mapIdx fun k value =>
            (⟨(column + (k + 1)) % 64, row, value⟩ : Aim)) =
          rest.mapIdx fun k value => ⟨(column + 1 + k) % 64, row, value⟩ := by
        simp only [Nat.add_assoc, Nat.add_comm 1]
      rw [plotAll, ih, plot_pixel, Stroke.aims, if_pos hrow,
        Aim.parity_singleton, List.mapIdx_cons, Aim.parity_cons, hrest,
        Bool.xor_assoc]
      rfl

theorem strike_pixel (stroke : Stroke) (c r : Nat) :
    (s.strike stroke).1.frame.pixel c r =
      (s.frame.pixel c r ^^ Aim.parity stroke.aims c r) := by
  cases stroke with
  | dot column row value => exact s.plot_pixel column row value c r
  | line column row values =>
      exact s.plotAll_pixel column (Nat.mod_lt row (by decide)) values c r

theorem strikeAll_pixel (strokes : List Stroke) (c r : Nat) :
    (s.strikeAll strokes).1.frame.pixel c r =
      (s.frame.pixel c r ^^
        Aim.parity (strokes.flatMap Stroke.aims) c r) := by
  induction strokes generalizing s with
  | nil => simp [strikeAll, Aim.parity]
  | cons stroke rest ih =>
      rw [strikeAll, ih, strike_pixel, List.flatMap_cons, Aim.parity_append,
        Bool.xor_assoc]

theorem strikeAll_append (strokes more : List Stroke) :
    s.strikeAll (strokes ++ more) =
      (((s.strikeAll strokes).1.strikeAll more).1,
        (s.strikeAll strokes).2 ++
          ((s.strikeAll strokes).1.strikeAll more).2) := by
  induction strokes generalizing s with
  | nil => rfl
  | cons stroke rest ih =>
      rw [List.cons_append, strikeAll, ih]
      rfl

/-- A stroke comes to the same as the single pixels that it plots. -/
theorem strikeAll_dots (stroke : Stroke) :
    (s.strikeAll stroke.dots).1 = (s.strike stroke).1 := by
  cases stroke with
  | dot column row value => rfl
  | line column row values =>
      simp only [Stroke.dots, strike, drawRow]
      generalize row % 32 = row
      induction values generalizing s column with
      | nil => rfl
      | cons value rest ih =>
          rw [List.mapIdx_cons, strikeAll, plotAll, ← ih]
          simp only [Nat.add_assoc, Nat.add_comm 1]
          rfl

theorem strikeAll_flatMap_dots (strokes : List Stroke) :
    (s.strikeAll (strokes.flatMap Stroke.dots)).1 =
      (s.strikeAll strokes).1 := by
  induction strokes generalizing s with
  | nil => rfl
  | cons stroke rest ih =>
      rw [List.flatMap_cons, strikeAll_append, strikeAll, ih, strikeAll_dots]

/-- The algebra of strokes.  They flip a pixel if the number of odd values that
they aim at it is odd.  Their order therefore does not matter, and the same
strokes made again in any order take them back.  A dot reports whether its value
is odd and its row on the screen, a line whether any of its values is odd. -/
theorem strikeAll_flips_by_parity (s : Screen) (strokes : List Stroke) :
    (∀ column row,
      (s.strikeAll strokes).1.frame.pixel column row =
        (s.frame.pixel column row ^^
          Aim.parity (strokes.flatMap Stroke.aims) column row)) ∧
    (∀ others : List Stroke, others.Perm strokes →
      (s.strikeAll others).1.frame = (s.strikeAll strokes).1.frame ∧
      ((s.strikeAll strokes).1.strikeAll others).1.frame = s.frame) ∧
    (∀ column row value, (s.plot column row value).2 = true ↔
      value.toNat % 2 = 1 ∧ row < 32) ∧
    ∀ column row values, (s.drawRow column row values).2 = true ↔
      ∃ value ∈ values, value.toNat % 2 = 1 := by
  refine ⟨s.strikeAll_pixel strokes, ?_, ?_, ?_⟩
  · intro others hperm
    have haims := hperm.flatMap_right Stroke.aims
    constructor
    · apply Frame.ext_pixel
      intro column row
      rw [strikeAll_pixel, strikeAll_pixel, Aim.parity_perm _ _ haims]
    · apply Frame.ext_pixel
      intro column row
      rw [strikeAll_pixel, strikeAll_pixel, Aim.parity_perm _ _ haims,
        Bool.xor_assoc, Bool.xor_self, Bool.xor_false]
  · intro column row value
    exact s.plot_report
  · intro column row values
    exact s.drawRow_report

/-- A line that wraps around both edges and two dots at one of its pixels, of
which the one below the screen is lost. -/
theorem strikeAll_flips_by_parity_across_edges :
    let strokes : List Stroke :=
      [.line 62 33 [1, 0, 3, 255], .dot 64 1 7, .dot 64 33 7]
    let others : List Stroke :=
      [.dot 64 33 7, .line 62 33 [1, 0, 3, 255], .dot 64 1 7]
    others.Perm strokes ∧
      (blank.strikeAll strokes).1.frame.pixel 62 1 = true ∧
      (blank.strikeAll strokes).1.frame.pixel 0 1 = false ∧
      (blank.strikeAll strokes).1.frame.pixel 1 1 = true ∧
      ((blank.strikeAll strokes).1.strikeAll others).1.frame = .blank := by
  intro strokes others
  have hperm : others.Perm strokes := by decide
  obtain ⟨hpixels, hreordered, -, -⟩ := blank.strikeAll_flips_by_parity strokes
  refine ⟨hperm, ?_, ?_, ?_, (hreordered others hperm).2⟩
  · rw [hpixels]
    decide
  · rw [hpixels]
    decide
  · rw [hpixels]
    decide

end Screen

end Chip8
