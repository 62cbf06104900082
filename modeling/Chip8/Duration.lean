/-!
# Durations in words

A duration is told in the largest unit that it fills, as a decimal number
without zeros at its end.
-/

namespace Chip8.Duration

/-- The lowest `places` decimal digits of `n`, without the zeros at their end. -/
def fraction : (places : Nat) → (n : Nat) → List Char
  | 0, _ => []
  | places + 1, n =>
    if n % 10 = 0 then fraction places (n / 10)
    else digits places (n / 10) ++ [Nat.digitChar (n % 10)]
where
  /-- The lowest `places` decimal digits of `n`. -/
  digits : (places : Nat) → (n : Nat) → List Char
    | 0, _ => []
    | places + 1, n => digits places (n / 10) ++ [Nat.digitChar (n % 10)]

/-- A number of nanoseconds in units of `10 ^ places` of them. -/
def inUnits (places : Nat) (unit : String) (nanoseconds : Nat) : String :=
  let point := match fraction places nanoseconds with
    | [] => ""
    | tail => "." ++ String.ofList tail
  (nanoseconds / Nat.pow 10 places).repr ++ point ++ unit

/-- A number of nanoseconds in words. -/
def text (nanoseconds : Nat) : String :=
  if 1000000000 ≤ nanoseconds then inUnits 9 "s" nanoseconds
  else if 1000000 ≤ nanoseconds then inUnits 6 "ms" nanoseconds
  else if 1000 ≤ nanoseconds then inUnits 3 "µs" nanoseconds
  else inUnits 0 "ns" nanoseconds

example : text 16666000 = "16.666ms" := by decide +kernel

end Chip8.Duration
