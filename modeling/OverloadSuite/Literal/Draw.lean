import OverloadSuite.Catalog.Entry
import OverloadSuite.Decimal.Shortest
import OverloadSuite.Literal.Basic
import OverloadSuite.Random.WordSource

/-!
Drawing literals from a source of words. Whole numbers are equally likely within the range of their
class, floating-point numbers lie between 0.1 and 0.9 and have at most ten places, and Booleans are
always true and take no word. Arguments are drawn in order, one literal for each element.
-/
namespace OverloadSuite

/-- Computations that take words from a source and may stop with a fault; the words that were taken
before a fault stay taken. -/
abbrev Draw (σ α : Type) := ExceptT Fault (StateM σ) α

namespace Literal

variable {σ : Type} [WordSource σ]

/-- The next word of 32 bits. -/
def word32 : StateM σ UInt32 := modifyGet WordSource.next32

/-- The next word of 64 bits. -/
def word64 : StateM σ UInt64 := modifyGet WordSource.next64

/-- The index below `count` that a word selects: the high half of their product. -/
def selected (count w : UInt64) : Nat := w.toNat * count.toNat / UInt64.size

/-- A word whose selection counts. For a power of two as `count` every index is selected by equally
many words with a low half of the product below 2^63. -/
def fair (count w : UInt64) : Bool := w * count < 0x8000000000000000

/-- How many unfair words in a row are passed over before a word is taken as it is. The bound is
the model's own and makes drawing total: sampling as such goes on until a word is fair, and the two
agree wherever it ends within the bound. -/
def patience : Nat := Nat.pow 2 62

/-- The index below `count` that the next fair word selects, after at most `tries` unfair
ones. Where all of them are unfair, the word after them is taken, fair or not, and
drawing comes to an end. -/
def drawIndex (count : UInt64) : (tries : Nat) → StateM σ Nat
  | 0 => do
    let w ← word64
    return selected count w
  | tries + 1 => do
    let w ← word64
    if fair count w then return selected count w else drawIndex count tries

/-- A whole number among `count` numbers from `low` on. -/
def drawWhole (low : Int) (count : UInt64) : StateM σ String := do
  let index ← drawIndex count patience
  return toString (low + index)

/-- The magnitudes between which floating-point inputs lie, 0.1 and 0.9. -/
def floatLow : Nat := Double.nearest Double.one 10

/-- The upper bound of floating-point inputs. -/
def floatHigh : Nat := Double.nearest (9 * Double.one) 10

/-- How many evenly spaced fractions there are from zero to below one. -/
def fractions : Nat := Nat.pow 2 52

/-- The largest of the fractions. -/
def lastFraction : Nat := Double.nearest ((fractions - 1) * Double.one) fractions

/-- The largest scale, from `scale` down and by at most `steps` steps, that keeps the last fraction
within the upper bound. -/
def scaleWithin (scale : Nat) : (steps : Nat) → Nat
  | 0 => scale
  | steps + 1 =>
    if floatHigh < Double.add (Double.mul scale lastFraction) floatLow then
      scaleWithin (Double.before scale) steps
    else scale

/-- The factor that stretches fractions over the range of floating-point inputs. -/
def floatScale : Nat := scaleWithin (Double.div (Double.sub floatHigh floatLow) lastFraction) 64

/-- Ten decimal places. -/
def tenPlaces : Nat := Nat.pow 10 10

/-- The magnitude that a word stands for: its high 52 bits as a fraction, stretched over the range
and rounded to ten places. -/
def floatOf (w : UInt64) : Nat :=
  let stretched := Double.nearest ((w >>> 12).toNat * floatScale) fractions
  let x := Double.add stretched floatLow
  let places := Double.roundHalfUp (Double.nearest (x * tenPlaces) 1)
  Double.nearest (places * Double.one) tenPlaces

/-- A literal of a class. -/
def draw : LiteralClass → StateM σ String
  | .bool => return "true"
  | .float => do
    let w ← word64
    return Double.text (.finite false (floatOf w))
  | .char => drawWhole 0 128
  | .i8 => drawWhole (-128) 256
  | .u8 => drawWhole 0 256
  | .i16 => drawWhole (-32768) 65536
  | .u16 => drawWhole 0 65536
  | .i32 => do
    let w ← word32
    return toString w.toInt32.toInt
  | .u32 => do
    let w ← word32
    return toString w.toNat
  | .i64 => do
    let w ← word64
    return toString w.toInt64.toInt
  | .u64 => do
    let w ← word64
    return toString w.toNat

/-- A number of literals of an element type. -/
def drawMany (base : String) (count : Nat) : Draw σ (List String) :=
  match LiteralClass.ofBase? base with
  | some cls => (List.replicate count cls).mapM fun cls => ExceptT.lift (draw cls)
  | none => throw (.unsupportedBaseType base)

/-- The literals of arguments of the given types, as many for each as it has elements. -/
def drawArguments (types : List TypeEntry) : Draw σ (List (List String)) :=
  types.mapM fun t => drawMany t.base t.dim.toNat

end Literal

end OverloadSuite
