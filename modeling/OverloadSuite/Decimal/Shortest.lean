import OverloadSuite.Decimal.Double

/-!
The shortest decimal text of a floating-point number. Long division leads from one decimal grid to
the next finer one, so the search over the grids is exact: the coarsest grid with a point that
rounds to the magnitude wins, of two such points the nearer, and of two equally near ones the
larger. The text is positional throughout, and always has a fraction.
-/
namespace OverloadSuite.Double

/-- The exponent of the spacing of a magnitude, as a power of two. -/
def exponent (units : Nat) : Nat := units.log2 - 52

/-- The multiple of its spacing that a magnitude is. -/
def mantissa (units : Nat) : Nat := units / Nat.pow 2 (exponent units)

/-- A magnitude on a decimal grid: it lies `rest` past the point `low`, where `step` leads to the
next point of the grid and `spacing` to the next representable magnitude. -/
structure GridPlace where
  low : Nat
  rest : Nat
  step : Nat
  spacing : Nat
deriving DecidableEq, Repr

namespace GridPlace

/-- A magnitude on the grid of step 10^(n - 1074). The spacing is 2^(exponent - 1074), and the scale
is chosen so that spacing and step are whole. -/
def ofUnits (units n : Nat) : GridPlace :=
  let step := Nat.pow 2 (1074 - exponent units) * Nat.pow 10 (n - 1074)
  let spacing := Nat.pow 2 (exponent units - 1074) * Nat.pow 10 (1074 - n)
  let place := mantissa units * spacing
  { low := place / step, rest := place % step, step, spacing }

/-- The same magnitude on the grid whose points lie ten times as close. -/
def finer (p : GridPlace) : GridPlace :=
  { low := 10 * p.low + 10 * p.rest / p.step, rest := 10 * p.rest % p.step, step := p.step
    spacing := 10 * p.spacing }

/-- A point at this distance from a magnitude still rounds to it, where `reach` leads to the
midpoint between it and its neighbour; the midpoint counts only for an even mantissa. -/
def within (even : Bool) (reach distance : Nat) : Bool :=
  if even then distance ≤ reach else distance < reach

/-- The nearest point of the grid, if it rounds to the magnitude. The neighbour of a power of two
is nearer below. Distances are taken in quarters. -/
def point? (even nearBelow : Bool) (p : GridPlace) : Option Nat :=
  let lowFits := within even (if nearBelow then p.spacing else 2 * p.spacing) (4 * p.rest)
  let highFits := within even (2 * p.spacing) (4 * (p.step - p.rest))
  if highFits && (!lowFits || p.step ≤ 2 * p.rest) then some (p.low + 1)
  else if lowFits then some p.low
  else none

/-- The point on the coarsest grid, from step 10^(n - 1074) down, that rounds to the magnitude, and
`n`. The finest grid holds the magnitude itself. -/
def shortest (even nearBelow : Bool) (p : GridPlace) : Nat → Nat × Nat
  | 0 => (p.low, 0)
  | n + 1 =>
    match p.point? even nearBelow with
    | some c => (c, n + 1)
    | none => p.finer.shortest even nearBelow n

end GridPlace

/-- The shortest decimal `c` and `n`, meaning c · 10^(n - 1074), that rounds to a magnitude. The
search starts above the first digit, for 2^93 is less than 10^28 and 5^1074 less than 10^751. -/
def shortest (units : Nat) : Nat × Nat :=
  let n := units.log2 * 28 / 93 + 752
  (GridPlace.ofUnits units n).shortest (mantissa units % 2 == 0)
    (mantissa units == Nat.pow 2 52 && 0 < exponent units) n

/-- The fraction digits without the zeros at their end, but not without any digit. -/
def trimFraction (digits : List Char) : List Char :=
  match (digits.reverse.dropWhile (· == '0')).reverse with
  | [] => ['0']
  | kept => kept

/-- The positional text of c · 10^(n - 1074). -/
def positional (c n : Nat) : List Char :=
  if 1074 ≤ n then
    Nat.toDigits 10 c ++ List.replicate (if c = 0 then 0 else n - 1074) '0' ++ ['.', '0']
  else
    let places := 1074 - n
    let digits := Nat.toDigits 10 c
    let padded := List.replicate (places + 1 - digits.length) '0' ++ digits
    let whole := padded.length - places
    padded.take whole ++ '.' :: trimFraction (padded.drop whole)

/-- The text of a magnitude. -/
def magnitudeText (units : Nat) : List Char :=
  if units = 0 then ['0', '.', '0']
  else
    let (c, n) := shortest units
    positional c n

/-- The shortest text that reads back as the number, never with an exponent and always with a
fraction; infinities and NaN have their names. -/
def text : Double → String
  | nan => "NaN"
  | infinite negative => if negative then "-inf" else "inf"
  | finite negative units =>
    String.ofList (if negative then '-' :: magnitudeText units else magnitudeText units)

end OverloadSuite.Double
