/-!
Binary floating-point numbers of 64 bits, taken by value. Every finite one is a whole number of
units of 2^-1074, so a magnitude is a natural number, and each operation is exact arithmetic
followed by one rounding to the nearest representable number, a tie going to the even neighbour.
-/
namespace OverloadSuite

/-- A floating-point number. The magnitude of a finite one is counted in units of 2^-1074. -/
inductive Double where
  | nan
  | infinite (negative : Bool)
  | finite (negative : Bool) (units : Nat)
deriving DecidableEq, Repr

namespace Double

/-- The number of units in one. -/
def one : Nat := Nat.pow 2 1074

/-- The first magnitude that is too large to be finite. -/
def limit : Nat := Nat.pow 2 2098

/-- Representable magnitudes near `units` are this power of two apart: 53 binary digits are kept. -/
def spacing (units : Nat) : Nat := Nat.pow 2 (units.log2 - 52)

/-- A quotient rounded to the nearest whole number, a tie to the even one. -/
def roundHalfEven (num den : Nat) : Nat :=
  let low := num / den
  let rest := num % den
  if 2 * rest < den ∨ (2 * rest = den ∧ low % 2 = 0) then low else low + 1

/-- The representable number of units nearest to a quotient. -/
def nearest (num den : Nat) : Nat :=
  let step := spacing (num / den)
  roundHalfEven num (den * step) * step

/-- The product of two magnitudes. -/
def mul (a b : Nat) : Nat := nearest (a * b) one

/-- The sum of two magnitudes. -/
def add (a b : Nat) : Nat := nearest (a + b) 1

/-- The difference of a magnitude and one that is not larger. -/
def sub (a b : Nat) : Nat := nearest (a - b) 1

/-- The quotient of two magnitudes. -/
def div (a b : Nat) : Nat := nearest (a * one) b

/-- The largest representable magnitude below a positive one. -/
def before (units : Nat) : Nat :=
  let step := spacing (units - 1)
  (units - 1) / step * step

/-- A magnitude rounded to a whole number of ones, a tie upwards. -/
def roundHalfUp (units : Nat) : Nat := (2 * units + one) / (2 * one)

/-- The number nearest to a signed quotient; too large a magnitude becomes infinite. -/
def ofRatio (negative : Bool) (num den : Nat) : Double :=
  let units := nearest (num * one) den
  if units < limit then finite negative units else infinite negative

/-- The place on the number line, in units, with the infinities just past the finite numbers. -/
def place? : Double → Option Int
  | nan => none
  | infinite negative => some (if negative then -(limit : Int) else limit)
  | finite negative units => some (if negative then -(units : Int) else units)

/-- The order of two numbers; there is none with a NaN. -/
def order? (a b : Double) : Option Ordering := do
  return compare (← a.place?) (← b.place?)

end Double

end OverloadSuite
