import OverloadSuite.Catalog.Basic
import OverloadSuite.SortedSet

/-!
Selections of leaves. A selection names the kinds, the element types and the numbers of elements
that a run covers.
-/
namespace OverloadSuite

/-- The leaves that a run covers, by three sets of their properties. -/
structure Selection where
  varTypes : SortedSet String
  baseTypes : SortedSet String
  dimensions : SortedSet UInt32
deriving DecidableEq, Repr

namespace Selection

/-- A leaf whose three properties are all selected. -/
def covers (s : Selection) (e : TypeEntry) : Bool :=
  e.varType ∈ s.varTypes && e.base ∈ s.baseTypes && e.dim ∈ s.dimensions

/-- The selection that covers every leaf of a catalog. -/
def allOf (c : Catalog) : Selection where
  varTypes := .ofList (c.leaves.map (·.varType))
  baseTypes := .ofList (c.leaves.map TypeEntry.base)
  dimensions := .ofList (c.leaves.map (·.dim))

end Selection

end OverloadSuite
