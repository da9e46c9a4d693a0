import OverloadSuite.Literal.Draw
import OverloadSuite.TestCase.Basic

/-!
Suites of test cases. The cases of a list of overloads are made in order, each drawing its inputs
from the same source of words, and are numbered without gaps; the number after the last one must
still be a number of 64 bits.
-/
namespace OverloadSuite

namespace TestCase

/-- The result that a static reference gives for the inputs of an overload. It must have as many
literals as the return type has elements. -/
def knownResult (o : Overload) (inputs : List (List String)) :
    Except Fault (Option (List String)) :=
  match o.template.reference with
  | none => .ok none
  | some reference => do
    o.template.checkReference
    let result := reference.apply inputs
    if result.length = o.returnType.dim.toNat then return some result
    else throw (.staticReferenceShape o.text reference.name o.returnType.dim.toNat result.length)

/-- The pointer argument of an overload, if the variant exists for it. -/
def checkedPointer (o : Overload) (v : Variant) : Except Fault (Option Nat) := do
  let pointer ← o.template.pointerIndex
  match v.flaw? pointer.isSome with
  | some flaw => throw (.invalidVariant o.template.qualifiedName flaw)
  | none => return pointer

variable {σ : Type} [WordSource σ]

/-- The case of an overload in a variant, with inputs drawn once the variant is found to exist. -/
def draw (id : UInt64) (o : Overload) (v : Variant) : Draw σ TestCase := do
  let pointer ← liftExcept (checkedPointer o v)
  let inputs ← Literal.drawArguments o.argTypes
  let known ←
    if v.check = .verified ∧ pointer.isNone then liftExcept (knownResult o inputs) else pure none
  return { id, overload := o, variant := v, pointer, inputs, known }

end TestCase

/-- A suite is its cases, in order. -/
abbrev Suite := List TestCase

namespace Suite

variable {σ : Type} [WordSource σ]

/-- The number after `id`; a suite that started at `start` must not need it past 64 bits. -/
def nextId (start id : UInt64) : Except Fault UInt64 :=
  if id.toNat + 1 < UInt64.size then .ok (id + 1) else .error (.idOverflow start)

/-- The cases of planned overloads and variants, numbered from `id` on, in a suite that started at
`start`. -/
def drawFrom (start id : UInt64) : List (Overload × Variant) → Draw σ Suite
  | [] => return []
  | (o, v) :: plan => do
    let c ← TestCase.draw id o v
    let id ← liftExcept (nextId start id)
    return c :: (← drawFrom start id plan)

/-- The overloads with all their variants, in order. -/
def plan (check : Checking) (os : List Overload) : List (Overload × Variant) :=
  os.flatMap fun o => (Variant.ofOverload check o).map (o, ·)

/-- The suite of a list of overloads, numbered from `start` on. -/
def draw (start : UInt64) (check : Checking) (os : List Overload) : Draw σ Suite :=
  drawFrom start start (plan check os)

/-- The source text of a suite: that of its cases, one after the other. -/
def source (suite : Suite) : String := String.join (suite.map TestCase.source)

end Suite

end OverloadSuite
