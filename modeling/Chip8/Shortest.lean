/-!
# The shortest decimal of a binary fraction

A double stands for every real number that rounds to it.  Among those numbers
`Shortest.decimal` picks one with the fewest decimal digits and, of these, one
nearest to the double itself; of two that are equally near, the larger.
`Shortest.text` writes the decimal out in full, without an exponent.

All comparisons are made between natural numbers.  A positive double is a
fraction of natural numbers, and so are the two ends of the interval of reals
that round to it; the three share one denominator.
-/

namespace Chip8.Shortest

/-- A positive double as `value / unit`, with the reals from `low / unit` to `high / unit`
rounding to it. -/
structure Interval where
  value : Nat
  low : Nat
  high : Nat
  unit : Nat
  /-- Whether the two ends themselves round to the double. -/
  closed : Bool
  deriving DecidableEq, Repr

/-- The interval of the double `significand * 2 ^ exponent / 2 ^ 1074`.  It reaches halfway to
both neighbours; below a power of two the neighbour is only half as far away. -/
def Interval.of (significand exponent : Nat) : Interval :=
  let gap := 1 <<< exponent
  let below := if significand = 1 <<< 52 ∧ 0 < exponent then 1 else 2
  { value := 4 * significand * gap
    low := (4 * significand - below) * gap
    high := (4 * significand + 2) * gap
    unit := 4 <<< 1074
    closed := significand % 2 = 0 }

/-- Whether a numerator over the interval's denominator lies in the interval. -/
def Interval.contains (i : Interval) (numerator : Nat) : Bool :=
  if i.closed then i.low ≤ numerator && numerator ≤ i.high
  else i.low < numerator && numerator < i.high

/-- The interval with its numerators and its denominator multiplied by one number each. -/
def Interval.scale (i : Interval) (up down : Nat) : Interval where
  value := i.value * up
  low := i.low * up
  high := i.high * up
  unit := i.unit * down
  closed := i.closed

/-- The multiple of the denominator that lies in the interval and is nearest to the value; of
two equally near ones the larger.  Only the two multiples beside the value are looked at, for
if any other one lies in the interval then so does one of these. -/
def Interval.nearest? (i : Interval) : Option Nat :=
  let floor := i.value / i.unit
  let down := i.contains (floor * i.unit) && floor != 0
  let up := i.contains ((floor + 1) * i.unit)
  if up && (!down || i.unit ≤ 2 * (i.value % i.unit)) then some (floor + 1)
  else if down then some floor
  else none

/-- A decimal `digits * 10 ^ (places above 0) / 10 ^ (places below 0)`. -/
structure Decimal where
  digits : Nat
  places : Int
  deriving DecidableEq, Repr

/-- The first grid of decimals, from the coarsest on, that has a point in the interval.
The grid of `steps` has points `10 ^ (steps - 325)` apart; on the finest one every double has
a point. -/
def Interval.coarsest (i : Interval) : (steps : Nat) → Decimal
  | 0 => ⟨0, 0⟩
  | steps + 1 =>
    let places : Int := (steps : Int) - 324
    match (i.scale (10 ^ (-places).toNat) (10 ^ places.toNat)).nearest? with
    | some digits => ⟨digits, places⟩
    | none => i.coarsest steps

/-- The shortest decimal that rounds to the double `significand * 2 ^ exponent / 2 ^ 1074`. -/
def decimal (significand exponent : Nat) : Decimal :=
  (Interval.of significand exponent).coarsest 634

/-- A decimal written out in full: zeros fill the places up to the point. -/
def Decimal.text (d : Decimal) : List Char :=
  let digits := d.digits.repr.toList
  if 0 ≤ d.places then digits ++ List.replicate d.places.toNat '0'
  else
    let fraction := (-d.places).toNat
    let padded := List.replicate (fraction + 1 - digits.length) '0' ++ digits
    padded.take (padded.length - fraction) ++ '.' :: padded.drop (padded.length - fraction)

/-- The text of a positive double's significand and exponent fields. -/
def magnitude (fraction exponent : Nat) : List Char :=
  if exponent = 0 then
    if fraction = 0 then ['0'] else (decimal fraction 0).text
  else (decimal (1 <<< 52 + fraction) (exponent - 1)).text

/-- The text of a double: its shortest decimal in full, or the name of what is not a number. -/
def text (x : Float) : String :=
  let bits := x.toBits.toNat
  let fraction := bits % 1 <<< 52
  let exponent := bits >>> 52 % 2048
  let sign := if bits >>> 63 = 0 then [] else ['-']
  if exponent = 2047 then
    if fraction = 0 then String.ofList (sign ++ ['i', 'n', 'f']) else "NaN"
  else String.ofList (sign ++ magnitude fraction exponent)

end Chip8.Shortest
