import OverloadSuite.Decimal.Double

/-!
Reading numbers. A whole number is an optional sign and decimal digits. A floating-point number is
an optional sign and either the name of an infinity or NaN, in any case, or digits with at most one
point among or around them and an optional exponent; the nearest number to the exact decimal value
is read. Only ASCII digits count.
-/
namespace OverloadSuite.Decimal

/-- The value of a decimal digit. -/
def digitValue (c : Char) : Nat := c.toNat - '0'.toNat

/-- The value of digits that have been read: `high` groups of `scale`, and `low` besides. -/
structure Reading where
  high : Nat
  low : Nat
  scale : Nat
deriving DecidableEq, Repr

namespace Reading

/-- The value of a reading. -/
def value (r : Reading) : Nat := r.high * r.scale + r.low

/-- A reading with one more digit. A group is closed after eighteen digits, so that long texts are
read in few steps with large numbers. -/
def next (r : Reading) (c : Char) : Reading :=
  let low := 10 * r.low + digitValue c
  let scale := 10 * r.scale
  if scale < 1000000000000000000 then { r with low, scale }
  else { high := r.high * scale + low, low := 0, scale := 1 }

theorem value_next (r : Reading) (c : Char) : (r.next c).value = 10 * r.value + digitValue c := by
  simp only [next]
  split <;> simp [value, Nat.mul_add, Nat.mul_left_comm, Nat.add_assoc]

end Reading

/-- The value of decimal digits, first digit first. -/
def digitsValue (digits : List Char) : Nat := (digits.foldl Reading.next ⟨0, 0, 1⟩).value

theorem value_foldl_next (digits : List Char) (r : Reading) :
    (digits.foldl Reading.next r).value =
      digits.foldl (fun n c => 10 * n + digitValue c) r.value := by
  induction digits generalizing r with
  | nil => rfl
  | cons c cs ih => rw [List.foldl_cons, List.foldl_cons, ih, Reading.value_next]

theorem digitsValue_eq_foldl (digits : List Char) :
    digitsValue digits = digits.foldl (fun n c => 10 * n + digitValue c) 0 :=
  value_foldl_next digits ⟨0, 0, 1⟩

/-- A leading sign, true for minus, and what follows it. -/
def splitSign : List Char → Bool × List Char
  | '-' :: cs => (true, cs)
  | '+' :: cs => (false, cs)
  | cs => (false, cs)

/-- A non-empty text of digits only. -/
def isDigits (cs : List Char) : Bool := !cs.isEmpty && cs.all Char.isDigit

/-- A natural number without a minus sign, below `bound`. -/
def readNat? (bound : Nat) (s : String) : Option Nat :=
  let (negative, digits) := splitSign s.toList
  if !negative && isDigits digits && digitsValue digits < bound then some (digitsValue digits)
  else none

/-- A whole number from -2^127 to 2^127 - 1. -/
def readInt? (s : String) : Option Int :=
  let (negative, digits) := splitSign s.toList
  let n := digitsValue digits
  if !isDigits digits then none
  else if negative then (if n ≤ Nat.pow 2 127 then some (-(n : Int)) else none)
  else if n < Nat.pow 2 127 then some n
  else none

/-- The exponent after the digits: nothing, or the letter e in either case, an optional sign and
digits. -/
def readExponent? : List Char → Option Int
  | [] => some 0
  | c :: cs =>
    let (negative, digits) := splitSign cs
    if (c == 'e' || c == 'E') && isDigits digits then
      some (if negative then -(digitsValue digits : Int) else digitsValue digits)
    else none

/-- The number nearest to digits · 10^exponent. Values far outside the range of finite numbers are
settled by the place of their first digit. -/
def ofScientific (negative : Bool) (digits : List Char) (exponent : Int) : Double :=
  let digits := digits.dropWhile (· == '0')
  let top := exponent + digits.length
  if digits.isEmpty || top < -400 then .finite negative 0
  else if 400 < top then .infinite negative
  else
    .ofRatio negative (digitsValue digits * Nat.pow 10 exponent.toNat)
      (Nat.pow 10 (-exponent).toNat)

/-- A number written with digits. -/
def readDigits? (negative : Bool) (cs : List Char) : Option Double :=
  let whole := cs.takeWhile Char.isDigit
  let rest := cs.dropWhile Char.isDigit
  let afterPoint := match rest with
    | '.' :: more => more
    | _ => []
  let fraction := afterPoint.takeWhile Char.isDigit
  let rest := match rest with
    | '.' :: more => more.dropWhile Char.isDigit
    | _ => rest
  if whole.isEmpty && fraction.isEmpty then none
  else do
    let exponent ← readExponent? rest
    return ofScientific negative (whole ++ fraction) (exponent - fraction.length)

/-- An infinity or NaN by its name, in any case. -/
def readName? (negative : Bool) (cs : List Char) : Option Double :=
  let name := String.ofList (cs.map Char.toLower)
  if name == "inf" || name == "infinity" then some (.infinite negative)
  else if name == "nan" then some .nan
  else none

/-- A floating-point number. -/
def readDouble? (s : String) : Option Double :=
  let (negative, cs) := splitSign s.toList
  readDigits? negative cs <|> readName? negative cs

end OverloadSuite.Decimal
