import OverloadSuite.Decimal.Read
import OverloadSuite.Decimal.Shortest

/-!
Static references. The expected result of a call is computed from the literals of its inputs, lane
by lane: an argument with one literal serves every lane. Literals are compared as numbers.
-/
namespace OverloadSuite

/-- A function whose result is known from the literals of its inputs. -/
inductive Reference where
  | identity
  | min
  | max
  | clamp
deriving DecidableEq, Repr

/-- The numerical order of two literals. Whole numbers are compared exactly, all others as
floating-point numbers; what is no number is neither smaller nor larger than anything. -/
def literalOrder (a b : String) : Ordering :=
  match Decimal.readInt? a, Decimal.readInt? b with
  | some x, some y => compare x y
  | _, _ =>
    ((Decimal.readDouble? a).getD .nan).order? ((Decimal.readDouble? b).getD .nan) |>.getD .eq

/-- A literal in its emitted form: a floating-point number is written anew, all else is kept. -/
def normalLiteral (s : String) : String :=
  match Decimal.readInt? s, Decimal.readDouble? s with
  | none, some x => x.text
  | _, _ => s

/-- The smaller of two literals, the first one if neither is smaller. -/
def smallerLiteral (a b : String) : String :=
  normalLiteral (if literalOrder a b = .gt then b else a)

/-- The larger of two literals, the first one if neither is larger. -/
def largerLiteral (a b : String) : String :=
  normalLiteral (if literalOrder a b = .lt then b else a)

/-- The literals of an argument over a number of lanes. A single one serves every lane; lanes past
the end of several get the empty literal. -/
def lanes (count : Nat) : List String → List String
  | [literal] => List.replicate count literal
  | literals => literals ++ List.replicate (count - literals.length) ""

/-- The number of lanes of some arguments: as many as the longest has literals. -/
def laneCount (args : List (List String)) : Nat :=
  (args.map List.length).foldl max 0

namespace Reference

/-- Every reference, in the order in which they are listed. -/
def all : List Reference := [identity, min, max, clamp]

/-- The name by which documents refer to a reference. -/
def name : Reference → String
  | identity => "identity"
  | min => "min"
  | max => "max"
  | clamp => "clamp"

/-- The reference with a name. -/
def ofName? (s : String) : Option Reference := all.find? (·.name == s)

/-- How many of the first arguments a reference reads. -/
def arity : Reference → Nat
  | identity => 1
  | min | max => 2
  | clamp => 3

/-- The literals of the result; there are none if arguments are missing. -/
def apply : Reference → List (List String) → List String
  | identity, a :: _ => a
  | min, a :: b :: _ =>
    let count := laneCount [a, b]
    (lanes count a).zipWith smallerLiteral (lanes count b)
  | max, a :: b :: _ =>
    let count := laneCount [a, b]
    (lanes count a).zipWith largerLiteral (lanes count b)
  | clamp, a :: low :: high :: _ =>
    let count := laneCount [a, low, high]
    ((lanes count a).zipWith largerLiteral (lanes count low)).zipWith smallerLiteral
      (lanes count high)
  | _, _ => []

end Reference

end OverloadSuite
