import OverloadSuite.Catalog.Resolution
import OverloadSuite.Signature.Overload

/-!
Expanding signatures to overloads. Every distinct key of a signature ranges over its leaves, equal
keys together; with two or more keys that do not have exactly one leaf, the mutations decide which
combinations remain. A signature without overloads is worth a warning. Main statement:
the overloads, which are made of rows of types without looking keys up, are those of
the bindings that remain.
-/
namespace OverloadSuite

/-- The type that each key of a signature is bound to. -/
abbrev Binding := List (String × TypeEntry)

namespace Binding

/-- Every way of binding keys to their leaves, the last key varying fastest. A key without leaves
ends the search at once. -/
def all : List (String × List TypeEntry) → List Binding
  | [] => [[]]
  | (_, []) :: _ => []
  | (key, leaf :: leaves) :: slots =>
    let rest := all slots
    (leaf :: leaves).flatMap fun leaf => rest.map ((key, leaf) :: ·)

theorem all_cons (key : String) (leaves : List TypeEntry)
    (slots : List (String × List TypeEntry)) :
    all ((key, leaves) :: slots) =
      leaves.flatMap fun leaf => (all slots).map ((key, leaf) :: ·) := by
  cases leaves <;> rfl

/-- The keys of a binding. -/
def keys (b : Binding) : List String := b.map (·.1)

/-- The types of a binding, as a row. -/
def types (b : Binding) : Array TypeEntry := (b.map (·.2)).toArray

theorem keys_of_mem_all {slots : List (String × List TypeEntry)} {b : Binding}
    (h : b ∈ all slots) : b.keys = slots.map (·.1) := by
  induction slots generalizing b with
  | nil => simp_all [all, keys]
  | cons slot slots ih =>
    obtain ⟨leaf, _, hb⟩ := List.mem_flatMap.mp (all_cons slot.1 slot.2 slots ▸ h)
    obtain ⟨rest, hrest, rfl⟩ := List.mem_map.mp hb
    exact congrArg (slot.1 :: ·) (ih hrest)

theorem getElem?_types_idxOf (b : Binding) (key : String) :
    b.types[b.keys.idxOf key]? = b.lookup key := by
  rw [types, keys, List.getElem?_toArray]
  induction b with
  | nil => rfl
  | cons slot b ih =>
    rw [List.map_cons, List.map_cons, List.idxOf_cons, List.lookup_cons, BEq.comm]
    cases key == slot.1 <;> simp [ih]

/-- A binding under which the types of a constraint's two keys may go together. -/
def satisfies (b : Binding) (c : Constraint) : Bool :=
  match b.lookup c.base, b.lookup c.derived with
  | some base, some derived => c.rule.permits base derived
  | _, _ => false

/-- The overload of a signature under a binding of all its keys. -/
def overload? (s : Signature) (b : Binding) : Option Overload := do
  return { template := s, returnType := ← b.lookup s.returnKey,
           argTypes := ← s.argKeys.mapM fun key => b.lookup key }

/-- The bindings that remain. Constraints only count when at least two keys are free, that is, do
not have exactly one leaf. -/
def remaining (slots : List (String × List TypeEntry)) (constraints : List Constraint) :
    List Binding :=
  if 2 ≤ slots.countP (·.2.length != 1) then
    (all slots).filter fun b => constraints.all b.satisfies
  else all slots

theorem mem_all_of_mem_remaining {slots : List (String × List TypeEntry)}
    {constraints : List Constraint} {b : Binding} (h : b ∈ remaining slots constraints) :
    b ∈ all slots := by
  unfold remaining at h
  split at h
  · exact (List.mem_filter.mp h).1
  · exact h

end Binding

/-- Two places of a row and the rule between the types that stand there. -/
structure PlacedConstraint where
  base : Nat
  derived : Nat
  rule : PairRule
deriving DecidableEq, Repr

namespace PlacedConstraint

/-- A constraint on rows that hold the types of the given keys. -/
def ofKeys (keys : List String) (c : Constraint) : PlacedConstraint where
  base := keys.idxOf c.base
  derived := keys.idxOf c.derived
  rule := c.rule

/-- The types at the two places of a row may go together. -/
def permits (c : PlacedConstraint) (row : Array TypeEntry) : Bool :=
  match row[c.base]?, row[c.derived]? with
  | some base, some derived => c.rule.permits base derived
  | _, _ => false

theorem permits_types (b : Binding) (c : Constraint) :
    (ofKeys b.keys c).permits b.types = b.satisfies c := by
  simp only [permits, ofKeys, Binding.getElem?_types_idxOf, Binding.satisfies]

end PlacedConstraint

/-- The overloads of signatures, and what is to be said about those without any. -/
structure Expansion where
  overloads : List Overload
  diagnostics : List Diagnostic
deriving DecidableEq, Repr

namespace Expansion

/-- The message about a signature without overloads. -/
def emptyMessage (s : Signature) : String :=
  "no matching for " ++ s.qualifiedName ++ "(" ++ String.intercalate ", " s.argKeys ++ ") => " ++
    s.returnKey

/-- The leaves of a signature's distinct keys, in the order of their first mention. -/
def slots (r : Resolution) (s : Signature) : Except Fault (List (String × List TypeEntry)) :=
  s.keys.eraseDups.mapM fun key =>
    match r.get? key with
    | some leaves => .ok (key, leaves)
    | none => .error (.unknownType key (.signature s.qualifiedName))

/-- The types of the bindings that remain, as rows. -/
def rows (slots : List (String × List TypeEntry)) (constraints : List Constraint) :
    List (Array TypeEntry) :=
  if 2 ≤ slots.countP (·.2.length != 1) then
    let placed := constraints.map (PlacedConstraint.ofKeys (slots.map (·.1)))
    (Binding.all slots).filterMap fun b =>
      Option.guard (fun row => placed.all (·.permits row)) b.types
  else (Binding.all slots).map Binding.types

/-- The overload of a signature whose return type and argument types stand at places of a row. -/
def overload? (s : Signature) (returnPlace : Nat) (argPlaces : List Nat) (row : Array TypeEntry) :
    Option Overload := do
  return { template := s, returnType := ← row[returnPlace]?,
           argTypes := ← argPlaces.mapM fun place => row[place]? }

/-- The overloads of a signature under the bindings that remain. -/
def overloadsOf (s : Signature) (slots : List (String × List TypeEntry))
    (constraints : List Constraint) : List Overload :=
  let keys := slots.map (·.1)
  let returnPlace := keys.idxOf s.returnKey
  let argPlaces := s.argKeys.map keys.idxOf
  (rows slots constraints).filterMap (overload? s returnPlace argPlaces)

theorem rows_eq_map_remaining (slots : List (String × List TypeEntry))
    (constraints : List Constraint) :
    rows slots constraints = (Binding.remaining slots constraints).map Binding.types := by
  simp only [rows, Binding.remaining]
  split
  · rw [← Function.comp_def, ← List.filterMap_map, List.filterMap_eq_filter, List.filter_map]
    congr 1
    refine List.filter_congr fun b hb => ?_
    simp [← Binding.keys_of_mem_all hb, PlacedConstraint.permits_types, Function.comp_def]
  · rfl

theorem overload?_types (s : Signature) (b : Binding) :
    overload? s (b.keys.idxOf s.returnKey) (s.argKeys.map b.keys.idxOf) b.types =
      b.overload? s := by
  simp only [overload?, Binding.getElem?_types_idxOf, List.mapM_map, Function.comp_def,
    Binding.overload?]

theorem overloadsOf_eq_filterMap_remaining (s : Signature) (slots : List (String × List TypeEntry))
    (constraints : List Constraint) :
    overloadsOf s slots constraints =
      (Binding.remaining slots constraints).filterMap (Binding.overload? s) := by
  have h : (rows slots constraints).map (overload? s ((slots.map (·.1)).idxOf s.returnKey)
      (s.argKeys.map (slots.map (·.1)).idxOf)) =
      (Binding.remaining slots constraints).map (Binding.overload? s) := by
    rw [rows_eq_map_remaining, List.map_map]
    refine List.map_congr_left fun b hb => ?_
    rw [← Binding.keys_of_mem_all (Binding.mem_all_of_mem_remaining hb), Function.comp_apply,
      overload?_types]
  simpa [overloadsOf, List.filterMap_map] using congrArg (List.filterMap id) h

/-- The expansion of one signature, once it is found valid: pointers first, then the static
reference, the mutations and the keys. -/
def ofSignature (r : Resolution) (s : Signature) : Except Fault Expansion := do
  let _ ← s.pointerIndex
  s.checkReference
  let constraints ← s.constraints
  match overloadsOf s (← slots r s) constraints with
  | [] => return ⟨[], [.ofCode .emptyExpansion (emptyMessage s)]⟩
  | overloads => return ⟨overloads, []⟩

/-- The expansion of signatures in order. Of overloads that are the same, the first one stays. -/
def ofSignatures (r : Resolution) (signatures : List Signature) : Except Fault Expansion := do
  let expansions ← signatures.mapM (ofSignature r)
  return { overloads := Overload.distinct (expansions.flatMap (·.overloads))
           diagnostics := expansions.flatMap (·.diagnostics) }

end Expansion

end OverloadSuite
