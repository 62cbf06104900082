/-!
# The screen

64 columns and 32 rows of pixels that are on or off.  A row is a 64-bit word
with column 0 as its most significant bit.  A value is plotted on a pixel by
exclusive or, so that drawing twice erases, and drawing reports whether it
changed any pixel.

Columns wrap around for every pixel.  Rows wrap around only for a whole sprite
row; a single pixel aimed below the screen is lost.
-/

namespace Chip8

/-- The rows of pixels, top row first. -/
abbrev Frame := Vector (BitVec 64) 32

namespace Frame

/-- Pixels in a row. -/
def width : Nat := 64

/-- Rows of pixels. -/
def height : Nat := 32

/-- A frame with every pixel off. -/
def blank : Frame := Vector.replicate 32 0

/-- Whether a pixel is on; there are none outside the frame. -/
def pixel (f : Frame) (column row : Nat) : Bool :=
  match f[row]? with
  | some word => word.getMsbD column
  | none => false

/-- The value of a pixel: 1 if it is on, and else 0. -/
def value (f : Frame) (column row : Nat) : UInt8 := UInt8.ofNat (f.pixel column row).toNat

/-- Turn the pixel of a row at a column, counted around the frame, on or off. -/
def put (f : Frame) (column : Nat) (row : Fin 32) (on : Bool) : Frame :=
  let place := BitVec.twoPow 64 (63 - column % 64)
  f.set row (if on then f[row] ||| place else f[row] &&& ~~~place)

/-- How many pixels are on. -/
def lit (f : Frame) : Nat :=
  f.toList.foldl (fun count word => count + (List.range width).countP (word.getMsbD ·)) 0

end Frame

/-- A frame and a mark that says whether it may have changed since the last look at it. -/
structure Screen where
  frame : Frame
  dirty : Bool
  deriving DecidableEq, Repr

/-- The pixels of a sprite byte, most significant bit first, each 0 or 1. -/
def spritePixels (byte : UInt8) : List UInt8 :=
  [7, 6, 5, 4, 3, 2, 1, 0].map fun place => UInt8.ofNat (byte.toNat >>> place % 2)

namespace Screen

/-- A screen with every pixel off that nobody needs to look at. -/
def blank : Screen := ⟨.blank, false⟩

/-- Turn every pixel off. -/
def clear (_ : Screen) : Screen := ⟨.blank, true⟩

/-- Plot the lowest bit of a value on the pixel at a column, counted around the screen, and a
row, if there is such a row.  Says whether the pixel has changed. -/
def plot (s : Screen) (column row : Nat) (value : UInt8) : Screen × Bool :=
  if h : row < 32 then
    let old := s.frame.value (column % 64) row
    let new := (old ^^^ value) &&& 1
    let changed := new != old
    (⟨s.frame.put column ⟨row, h⟩ (new == 1), s.dirty || changed⟩, changed)
  else (s, false)

/-- Plot values one beside another in a row, starting at a column.
Says whether any pixel was flipped. -/
def plotAll (s : Screen) (column row : Nat) : List UInt8 → Screen × Bool
  | [] => (s, false)
  | value :: rest =>
    let first := s.plot column row value
    let others := first.1.plotAll (column + 1) row rest
    (others.1, first.2 || others.2)

/-- Draw a row of sprite pixels at a column and a row, both counted around the screen.
Says whether any pixel was flipped. -/
def drawRow (s : Screen) (column row : Nat) (pixels : List UInt8) : Screen × Bool :=
  s.plotAll column (row % 32) pixels

/-- Draw the pixels of a sprite byte. -/
def drawByte (s : Screen) (column row : Nat) (byte : UInt8) : Screen × Bool :=
  s.drawRow column row (spritePixels byte)

/-- Take the mark off the screen, and hand out its frame if the mark was set. -/
def refresh (s : Screen) : Screen × Option Frame :=
  ({ s with dirty := false }, if s.dirty then some s.frame else none)

end Screen

end Chip8
