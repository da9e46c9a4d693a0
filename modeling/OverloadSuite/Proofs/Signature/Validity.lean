import OverloadSuite.Proofs.Signature.Requirements

/-!
# Valid signatures

A signature expands exactly if it is valid: what its checks require, said without them. The checks
run in an order, which only decides the fault of a signature that is wrong in several ways.
-/

namespace OverloadSuite

open Outcome Requirement

namespace Signature

variable {f : Signature} {fault : Fault}

/-- A signature whose keys are known, with at most one pointer among its arguments, enough arguments
for its static reference, and mutations with known rules between its own keys. -/
structure Valid (f : Signature) (known : String → Prop) : Prop where
  pointers : f.pointers = [] ∨
    ∃ index, f.pointers = [index] ∧ 1 ≤ index.toNat ∧ index.toNat ≤ f.argKeys.length
  reference : ∀ reference, f.reference = some reference → reference.arity ≤ f.argKeys.length
  mutations : ∀ m ∈ f.mutations,
    (∃ rule, PairRule.ofName? m.rule = some rule) ∧ m.base ∈ f.keys ∧ m.derived ∈ f.keys
  keys : ∀ key ∈ f.keys, known key

/-! ## The checks one by one -/

theorem exists_pointerIndex_eq_ok : (∃ pointer, f.pointerIndex = .ok pointer) ↔
    f.pointers = [] ∨
      ∃ index, f.pointers = [index] ∧ 1 ≤ index.toNat ∧ index.toNat ≤ f.argKeys.length := by
  rw [f.pointerIndex_enforces.exists_eq_ok, pointerRequirements]
  cases f.pointers with
  | nil => simp
  | cons index indices => cases indices <;> simp

/-- Exactly the signatures with pointers have a pointer argument. -/
theorem isSome_of_pointerIndex {pointer : Option Nat} (h : f.pointerIndex = .ok pointer) :
    pointer.isSome = !f.pointers.isEmpty := by
  rw [pointerIndex] at h
  split at h
  · rename_i hnil
    cases h
    simp [hnil]
  · rename_i index hone
    split at h
    · cases h
      simp [hone]
    · cases h
  · cases h

theorem pointerIndex_eq_error (h : f.pointerIndex = .error fault) :
    (∃ index, fault = .pointerIndexOutOfRange f.qualifiedName index f.argKeys.length) ∨
      fault = .tooManyPointerArgs f.qualifiedName f.pointers.length := by
  obtain ⟨q, hq, -, rfl⟩ := f.pointerIndex_enforces.exists_broken h
  rcases List.mem_cons.mp hq with rfl | hq
  · exact .inr rfl
  · obtain ⟨index, -, rfl⟩ := List.mem_map.mp hq
    exact .inl ⟨index, rfl⟩

theorem checkReference_eq_ok : f.checkReference = .ok () ↔
    ∀ reference, f.reference = some reference → reference.arity ≤ f.argKeys.length := by
  have h := f.checkReference_enforces.exists_eq_ok
  rw [Unique.exists_iff] at h
  exact h.trans (by simp [referenceRequirements])

theorem checkReference_eq_error (h : f.checkReference = .error fault) :
    ∃ reference, f.reference = some reference ∧ f.argKeys.length < reference.arity ∧
      fault = .staticReferenceArity f.qualifiedName reference.name reference.arity
        f.argKeys.length := by
  obtain ⟨q, hq, hfew, rfl⟩ := f.checkReference_enforces.exists_broken h
  obtain ⟨reference, hreference, rfl⟩ := List.mem_map.mp hq
  exact ⟨reference, Option.mem_toList.mp hreference, Nat.not_le.mp hfew, rfl⟩

theorem checkKey_eq_ok {key : String} : f.checkKey key = .ok () ↔ key ∈ f.keys := by
  rw [checkKey]
  split <;> simp [*]

/-- A mutation with a known rule between keys of the signature demands just that. -/
theorem constraint_eq_ok {m : Mutation} {d : Constraint} : f.constraint m = .ok d ↔
    PairRule.ofName? m.rule = some d.rule ∧ d.base = m.base ∧ d.derived = m.derived ∧
      m.base ∈ f.keys ∧ m.derived ∈ f.keys := by
  rw [constraint, PairRule.ofName]
  constructor
  · intro h
    obtain ⟨rule, hrule, h⟩ := bind_eq_ok.mp h
    obtain ⟨_, hbase, h⟩ := bind_eq_ok.mp h
    obtain ⟨_, hderived, h⟩ := bind_eq_ok.mp h
    cases h
    split at hrule
    · rename_i rule' hname
      cases hrule
      exact ⟨hname, rfl, rfl, checkKey_eq_ok.mp hbase, checkKey_eq_ok.mp hderived⟩
    · cases hrule
  · intro h
    obtain ⟨hname, hb, hd, hbase, hderived⟩ := h
    rw [hname, checkKey_eq_ok.mpr hbase, checkKey_eq_ok.mpr hderived, ← hb, ← hd]
    rfl

theorem constraints_eq_ok {ds : List Constraint} : f.constraints = .ok ds ↔
    List.Forall₂ (fun m d => f.constraint m = .ok d) f.mutations ds := mapM_eq_ok

theorem exists_constraints_eq_ok : (∃ ds, f.constraints = .ok ds) ↔ ∀ m ∈ f.mutations,
    (∃ rule, PairRule.ofName? m.rule = some rule) ∧ m.base ∈ f.keys ∧ m.derived ∈ f.keys := by
  rw [f.constraints_enforces.exists_eq_ok, List.forall_mem_flatMap]
  simp [mutationRequirements, PairRule.exists_ofName?]

end Signature

/-! ## The expansion of a signature -/

namespace Expansion

variable {r : Resolution} {f : Signature} {fault : Fault} {e : Expansion}
  {slots : List (String × List TypeEntry)}

/-- The slots of a signature are its distinct keys with the leaves that they resolve to. -/
theorem slots_eq_ok : Expansion.slots r f = .ok slots ↔
    List.Forall₂ (fun key slot => slot.1 = key ∧ r.get? key = some slot.2)
      f.keys.eraseDups slots := by
  rw [Expansion.slots, mapM_eq_ok]
  constructor
  · refine List.Forall₂.imp fun key slot h => ?_
    split at h
    · rename_i leaves hleaves
      cases h
      exact ⟨rfl, hleaves⟩
    · cases h
  · refine List.Forall₂.imp ?_
    rintro key ⟨_, leaves⟩ ⟨rfl, hleaves⟩
    simp [hleaves]

theorem exists_slots_eq_ok : (∃ slots, Expansion.slots r f = .ok slots) ↔
    ∀ key ∈ f.keys, ∃ leaves, r.get? key = some leaves := by
  rw [(slots_enforces r f).exists_eq_ok]
  simp [Signature.keyRequirement]

/-- What is said about a signature with these overloads: one warning if there are none. -/
def remarks (f : Signature) (overloads : List Overload) : List Diagnostic :=
  if overloads = [] then [.ofCode .emptyExpansion (emptyMessage f)] else []

theorem code_of_mem_remarks {overloads : List Overload} {d : Diagnostic}
    (h : d ∈ remarks f overloads) : d.code = .emptyExpansion ∧ d.code.number = "MG0200" := by
  rw [remarks] at h
  split at h
  · rw [List.mem_singleton.mp h, Diagnostic.code_ofCode]
    exact ⟨rfl, rfl⟩
  · cases h

theorem ofSignature_eq_ok : ofSignature r f = .ok e ↔
    ∃ pointer ds slots, f.pointerIndex = .ok pointer ∧ f.checkReference = .ok () ∧
      f.constraints = .ok ds ∧ Expansion.slots r f = .ok slots ∧
      e = ⟨overloadsOf f slots ds, remarks f (overloadsOf f slots ds)⟩ := by
  constructor
  · intro h
    obtain ⟨pointer, hpointer, h⟩ := bind_eq_ok.mp h
    obtain ⟨_, hreference, h⟩ := bind_eq_ok.mp h
    obtain ⟨ds, hds, h⟩ := bind_eq_ok.mp h
    obtain ⟨slots, hslots, h⟩ := bind_eq_ok.mp h
    refine ⟨pointer, ds, slots, hpointer, hreference, hds, hslots, ?_⟩
    -- one remark or none, in step with the last match of the definition
    generalize overloadsOf f slots ds = overloads at h ⊢
    cases overloads with
    | nil => exact (Except.ok.inj h).symm
    | cons o overloads => exact (Except.ok.inj h).symm
  · intro h
    obtain ⟨pointer, ds, slots, hpointer, hreference, hds, hslots, rfl⟩ := h
    refine bind_eq_ok.mpr ⟨pointer, hpointer, bind_eq_ok.mpr ⟨(), hreference, ?_⟩⟩
    refine bind_eq_ok.mpr ⟨ds, hds, bind_eq_ok.mpr ⟨slots, hslots, ?_⟩⟩
    cases overloadsOf f slots ds with
    | nil => rfl
    | cons o overloads => rfl

/-- **A signature expands exactly if it is valid.** -/
theorem exists_ofSignature_eq_ok : (∃ e, ofSignature r f = .ok e) ↔
    f.Valid fun key => ∃ leaves, r.get? key = some leaves := by
  constructor
  · intro h
    obtain ⟨e, h⟩ := h
    obtain ⟨pointer, ds, slots, hpointer, hreference, hds, hslots, -⟩ := ofSignature_eq_ok.mp h
    exact ⟨Signature.exists_pointerIndex_eq_ok.mp ⟨pointer, hpointer⟩,
      Signature.checkReference_eq_ok.mp hreference,
      Signature.exists_constraints_eq_ok.mp ⟨ds, hds⟩, exists_slots_eq_ok.mp ⟨slots, hslots⟩⟩
  · intro h
    obtain ⟨pointer, hpointer⟩ := Signature.exists_pointerIndex_eq_ok.mpr h.pointers
    obtain ⟨ds, hds⟩ := Signature.exists_constraints_eq_ok.mpr h.mutations
    obtain ⟨slots, hslots⟩ := exists_slots_eq_ok.mpr h.keys
    exact ⟨_, ofSignature_eq_ok.mpr ⟨pointer, ds, slots, hpointer,
      Signature.checkReference_eq_ok.mpr h.reference, hds, hslots, rfl⟩⟩

/-- The codes of what can be wrong with a signature, other than a static reference that reads more
arguments than there are. -/
def signatureCodes : List Finding := [.tooManyPointerArgs, .pointerIndexOutOfRange,
  .unknownMutationRule, .mutationTypeNotInSignature, .unknownType]

theorem code_of_ofSignature (h : ofSignature r f = .error fault) :
    f.checkReference = .error fault ∨ fault.code ∈ signatureCodes := by
  have hpointers : ∀ q ∈ f.pointerRequirements, q.fault.code ∈ signatureCodes := by
    simp [Signature.pointerRequirements, Fault.code, signatureCodes]
  have hmutations : ∀ q ∈ f.mutations.flatMap f.mutationRequirements,
      q.fault.code ∈ signatureCodes := by
    rw [List.forall_mem_flatMap]
    simp [Signature.mutationRequirements, Fault.code, signatureCodes]
  have hkeys : ∀ q ∈ f.keys.map (f.keyRequirement r), q.fault.code ∈ signatureCodes := by
    simp [Signature.keyRequirement, Fault.code, signatureCodes]
  have hbroken := (ofSignature_enforces r f fault).mp h
  simp only [Signature.requirements, firstBroken_append] at hbroken
  rcases hbroken with h | ⟨-, h | ⟨-, h | ⟨-, h⟩⟩⟩
  · obtain ⟨q, hq, -, rfl⟩ := h.exists_mem
    exact .inr (hpointers q hq)
  · exact .inl ((f.checkReference_enforces fault).mpr h)
  · obtain ⟨q, hq, -, rfl⟩ := h.exists_mem
    exact .inr (hmutations q hq)
  · obtain ⟨q, hq, -, rfl⟩ := h.exists_mem
    exact .inr (hkeys q hq)

end Expansion

end OverloadSuite
