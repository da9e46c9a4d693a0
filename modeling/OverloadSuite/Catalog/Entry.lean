import OverloadSuite.Fault

/-!
Entries of a type catalog. A leaf is a concrete type with an element type and a number of elements;
a generic is a placeholder for the types that its children lead to.
-/
namespace OverloadSuite

/-- An entry of a type catalog. The key identifies it, the name is how emitted code spells it; its
number of elements is zero for a generic. -/
structure TypeEntry where
  key : String
  name : String
  varType : String
  baseType : Option String
  dim : UInt32
  children : List String
deriving DecidableEq, Repr

namespace TypeEntry

/-- A leaf with an element type. -/
def leaf (key name varType baseType : String) (dim : UInt32) : TypeEntry :=
  { key, name, varType, baseType := some baseType, dim, children := [] }

/-- A generic with its children; its name is its key. -/
def generic (key varType : String) (children : List String) : TypeEntry :=
  { key, name := key, varType, baseType := none, dim := 0, children }

/-- An entry with elements is a leaf. -/
def isLeaf (e : TypeEntry) : Bool := 0 < e.dim

/-- The element type; a generic has none, which counts as the empty text. -/
def base (e : TypeEntry) : String := e.baseType.getD ""

/-- What is wrong with the shape of an entry. A leaf has an element type and no children, a generic
has children and no element type. -/
def malformation? (e : TypeEntry) : Option Malformation :=
  if e.isLeaf then
    if !e.children.isEmpty then some .leafWithChildren
    else if e.baseType.isNone then some .leafWithoutBase
    else none
  else if e.children.isEmpty then some .genericWithoutChildren
  else if e.baseType.isSome then some .genericWithBase
  else none

end TypeEntry

end OverloadSuite
