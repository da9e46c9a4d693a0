import OverloadSuite.Proofs.FirstOccurrences
import OverloadSuite.Proofs.Requirement
import OverloadSuite.Signature.Expansion

/-!
# What signatures must satisfy, in order

The checks of a signature ask for the requirements of its pointers, of its static reference, of its
mutations one after the other, and of its keys. Each check is shown to enforce its part, and so
their sequence enforces all of them in this order.
-/

namespace OverloadSuite

open Requirement

theorem PairRule.exists_ofName? {s : String} : (∃ rule, ofName? s = some rule) ↔
    Text.trim s ∈ ["dim", "base_type", "base_type_but_same_sizeof"] := by
  rw [← Option.isSome_iff_exists, ofName?, List.find?_isSome]
  simp [name, eq_comm (b := Text.trim s)]

theorem PairRule.ofName_enforces (function s : String) :
    Enforced [⟨Text.trim s ∈ ["dim", "base_type", "base_type_but_same_sizeof"],
      .unknownMutationRule function s⟩] (ofName function s) := by
  intro fault
  rw [firstBroken_cons, ofName, ← exists_ofName?]
  cases ofName? s with
  | none => simp [not_firstBroken_nil, eq_comm]
  | some rule => simp [not_firstBroken_nil]

namespace Signature

variable {r : Resolution} {f : Signature}

/-- There is at most one pointer, and it is an argument. -/
def pointerRequirements (f : Signature) : List Requirement :=
  ⟨f.pointers.length ≤ 1, .tooManyPointerArgs f.qualifiedName f.pointers.length⟩ ::
    f.pointers.map fun index => ⟨1 ≤ index.toNat ∧ index.toNat ≤ f.argKeys.length,
      .pointerIndexOutOfRange f.qualifiedName index f.argKeys.length⟩

/-- A static reference reads no more arguments than there are. -/
def referenceRequirements (f : Signature) : List Requirement :=
  f.reference.toList.map fun reference => ⟨reference.arity ≤ f.argKeys.length,
    .staticReferenceArity f.qualifiedName reference.name reference.arity f.argKeys.length⟩

/-- A mutation has a known rule, blanks around it aside, and relates keys of the signature. -/
def mutationRequirements (f : Signature) (m : Mutation) : List Requirement :=
  [⟨Text.trim m.rule ∈ ["dim", "base_type", "base_type_but_same_sizeof"],
      .unknownMutationRule f.qualifiedName m.rule⟩,
    ⟨m.base ∈ f.keys, .mutationTypeNotInSignature f.qualifiedName m.base⟩,
    ⟨m.derived ∈ f.keys, .mutationTypeNotInSignature f.qualifiedName m.derived⟩]

/-- A key is resolved. -/
def keyRequirement (f : Signature) (r : Resolution) (key : String) : Requirement :=
  ⟨∃ leaves, r.get? key = some leaves, .unknownType key (.signature f.qualifiedName)⟩

/-- What a signature must satisfy, in the order in which it is looked at. -/
def requirements (f : Signature) (r : Resolution) : List Requirement :=
  f.pointerRequirements ++ (f.referenceRequirements ++
    (f.mutations.flatMap f.mutationRequirements ++ f.keys.map (f.keyRequirement r)))

theorem pointerIndex_enforces (f : Signature) : Enforced f.pointerRequirements f.pointerIndex := by
  intro fault
  rw [pointerRequirements, firstBroken_cons, pointerIndex]
  cases f.pointers with
  | nil => simp [not_firstBroken_nil]
  | cons index indices =>
    cases indices with
    | nil =>
      by_cases hrange : 1 ≤ index.toNat ∧ index.toNat ≤ f.argKeys.length
      · simp [firstBroken_cons, not_firstBroken_nil, hrange]
      · simp [firstBroken_cons, not_firstBroken_nil, hrange, eq_comm]
    | cons index' indices => simp [eq_comm]

theorem checkReference_enforces (f : Signature) :
    Enforced f.referenceRequirements f.checkReference := by
  intro fault
  rw [referenceRequirements, checkReference]
  cases f.reference with
  | none => simp [not_firstBroken_nil]
  | some reference =>
    by_cases hfew : f.argKeys.length < reference.arity
    · simp [firstBroken_cons, not_firstBroken_nil, hfew, Nat.not_le.mpr hfew, eq_comm]
    · simp [firstBroken_cons, not_firstBroken_nil, hfew, Nat.not_lt.mp hfew]

theorem constraint_enforces (f : Signature) (m : Mutation) :
    Enforced (f.mutationRequirements m) (f.constraint m) :=
  (PairRule.ofName_enforces f.qualifiedName m.rule).bind fun _ _ =>
    (enforced_ite () _).bind fun _ _ => (enforced_ite () _).bind fun _ _ => enforced_ok _

theorem constraints_enforces (f : Signature) :
    Enforced (f.mutations.flatMap f.mutationRequirements) f.constraints :=
  Enforced.mapM f.constraint_enforces f.mutations

end Signature

namespace Expansion

open FirstOccurrences

variable {r : Resolution} {f : Signature}

/-- The first unknown key is also the first one among the distinct keys. -/
theorem firstBroken_eraseDups {require : String → Requirement} {keys : List String}
    {fault : Fault} :
    FirstBroken (keys.eraseDups.map require) fault ↔ FirstBroken (keys.map require) fault := by
  induction keys using parts_induction with
  | nil => exact Iff.rfl
  | cons key keys ih =>
    rw [List.eraseDups_cons, List.map_cons, List.map_cons, firstBroken_cons, firstBroken_cons, ih]
    refine or_congr_right (and_congr_right fun hkey => ?_)
    -- what is dropped from the rest repeats a key that is known
    refine firstBroken_map_filter fun key' _ hsame => ?_
    obtain rfl : key' = key := by simpa using hsame
    exact hkey

theorem slots_enforces (r : Resolution) (f : Signature) :
    Enforced (f.keys.map (f.keyRequirement r)) (slots r f) := by
  intro fault
  rw [← firstBroken_eraseDups, List.map_eq_flatMap]
  refine Enforced.mapM (fun key => ?_) f.keys.eraseDups fault
  intro fault
  rw [firstBroken_cons, Signature.keyRequirement]
  cases r.get? key with
  | none => simp [not_firstBroken_nil, eq_comm]
  | some leaves => simp [not_firstBroken_nil]

/-- The expansion of a signature enforces its requirements in order. -/
theorem ofSignature_enforces (r : Resolution) (f : Signature) :
    Enforced (f.requirements r) (ofSignature r f) := by
  refine f.pointerIndex_enforces.bind fun _ _ => f.checkReference_enforces.bind fun _ _ =>
    f.constraints_enforces.bind fun ds _ => ?_
  rw [← List.append_nil (f.keys.map (f.keyRequirement r))]
  refine (slots_enforces r f).bind fun slots _ => ?_
  cases overloadsOf f slots ds with
  | nil => exact enforced_ok _
  | cons o os => exact enforced_ok _

end Expansion

end OverloadSuite
