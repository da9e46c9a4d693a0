import OverloadSuite.Catalog.Entry

/-!
Mutations. A mutation names two type keys of a signature and a rule for how the types bound to them
may differ from each other.
-/
namespace OverloadSuite

/-- How two types bound together may differ: only in the number of elements, in the element type,
or in the element type but not in its size. -/
inductive PairRule where
  | sameBase
  | sameShape
  | sameShapeAndSize
deriving DecidableEq, Repr

/-- Two type keys of a signature, and the name of the rule between them as it is written. -/
structure Mutation where
  base : String
  derived : String
  rule : String
deriving DecidableEq, Repr

/-- Two type keys of a signature and the rule between them. -/
structure Constraint where
  base : String
  derived : String
  rule : PairRule
deriving DecidableEq, Repr

/-- Element types of equal size, class by class. -/
def sizeClasses : List (List String) := [
  ["char", "signed char", "unsigned char"],
  ["short", "unsigned short"],
  ["int", "unsigned"],
  ["long", "unsigned long"],
  ["long long", "unsigned long long"],
  ["int8_t", "uint8_t"],
  ["int16_t", "uint16_t", "sycl::half"],
  ["int32_t", "uint32_t", "float"],
  ["int64_t", "uint64_t", "double"]]

/-- Two element types have the same size if some class holds both. -/
def sameSize (a b : String) : Bool :=
  sizeClasses.any fun members => members.contains a && members.contains b

namespace PairRule

/-- The name of a rule. -/
def name : PairRule → String
  | sameBase => "dim"
  | sameShape => "base_type"
  | sameShapeAndSize => "base_type_but_same_sizeof"

/-- The rule with a name; blanks around the name do not count. -/
def ofName? (s : String) : Option PairRule :=
  [sameBase, sameShape, sameShapeAndSize].find? (·.name == Text.trim s)

/-- The rule with a name that a function mentions. -/
def ofName (function s : String) : Except Fault PairRule :=
  match ofName? s with
  | some rule => .ok rule
  | none => .error (.unknownMutationRule function s)

/-- Two types may be bound together under a rule. -/
def permits (rule : PairRule) (a b : TypeEntry) : Bool :=
  match rule with
  | sameBase => a.base == b.base
  | sameShape => a.varType == b.varType && a.dim == b.dim
  | sameShapeAndSize => a.varType == b.varType && a.dim == b.dim && sameSize a.base b.base

end PairRule

end OverloadSuite
