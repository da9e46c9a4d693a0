import OverloadSuite.Document.Functions
import OverloadSuite.Proofs.Signature.Expansions
import OverloadSuite.Proofs.TestCase.Success
import OverloadSuite.Run

/-!
# When a run succeeds

The checks of a run are spread over its stages, and some are made twice. What is left of them in the
end is a condition on the documents, the selection and the options; the source
of words has no say in it.
-/

namespace OverloadSuite

open Outcome

/-- A document is only read if its static references find enough arguments. -/
theorem FunctionRecord.checkReference_signature {entry : FunctionRecord} {f : Signature}
    (h : entry.signature = .ok f) : f.checkReference = .ok () := by
  obtain ⟨raw, -, h⟩ := bind_eq_ok.mp h
  obtain ⟨_, hreference, h⟩ := bind_eq_ok.mp h
  cases h
  exact hreference

namespace Run

variable {σ : Type} [WordSource σ] {w : σ} {c : Catalog} {signatures : List Signature}
  {s : Selection} {o : RunOptions} {x : Expansion} {fault : Fault}

/-! ## The expansion of a run -/

theorem exists_expansion_eq_ok : (∃ x, expansion c signatures s o = .ok x) ↔
    c.Acyclic ∧ ∀ f ∈ signatures.filter o.wants, f.Valid (· ∈ c.keys) := by
  rw [← Catalog.ofCatalog_eq_ok (s := s)]
  constructor
  · intro h
    obtain ⟨x, h⟩ := h
    obtain ⟨r, hr, hx⟩ := bind_eq_ok.mp h
    have hall := Expansion.exists_ofSignatures_eq_ok.mp ⟨x, hx⟩
    exact ⟨⟨r, hr⟩, fun f hf => (Expansion.exists_ofSignature_ofCatalog_eq_ok hr).mp (hall f hf)⟩
  · intro h
    obtain ⟨⟨r, hr⟩, hvalid⟩ := h
    obtain ⟨x, hx⟩ := Expansion.exists_ofSignatures_eq_ok.mpr fun f hf =>
      (Expansion.exists_ofSignature_ofCatalog_eq_ok hr).mpr (hvalid f hf)
    exact ⟨x, bind_eq_ok.mpr ⟨r, hr, hx⟩⟩

/-- What test cases rely on holds of every overload of a run. -/
theorem expanded_of_mem (h : expansion c signatures s o = .ok x) {overload : Overload}
    (hmem : overload ∈ x.overloads) : overload.Expanded := by
  obtain ⟨r, -, hx⟩ := bind_eq_ok.mp h
  obtain ⟨f, -, hvalid, p, hrealizes⟩ := Expansion.exists_realizes hx hmem
  obtain rfl := hrealizes.template
  exact ⟨Signature.exists_pointerIndex_eq_ok.mpr hvalid.pointers,
    Signature.checkReference_eq_ok.mpr hvalid.reference, hrealizes.argTypes.length_eq.symm⟩

/-! ## The whole run -/

/-- A run is made of an expansion and the suite of its overloads. -/
theorem draw_eq_ok {run : Run} : (draw c signatures s o : Draw σ Run).outcome w = .ok run ↔
    ∃ x suite, expansion c signatures s o = .ok x ∧
      (Suite.draw o.startId o.check x.overloads : Draw σ Suite).outcome w = .ok suite ∧
      run = { suite, diagnostics := x.diagnostics, overloadCount := x.overloads.length,
              startId := o.startId, nextId := o.startId + UInt64.ofNat suite.length } := by
  constructor
  · intro h
    obtain ⟨x, hx, h⟩ := Draw.bind_eq_ok.mp h
    obtain ⟨suite, hsuite, h⟩ := Draw.bind_eq_ok.mp h
    rw [Draw.outcome_liftExcept] at hx
    rw [Draw.rest_liftExcept] at hsuite
    exact ⟨x, suite, hx, hsuite, (Except.ok.inj h).symm⟩
  · rintro ⟨x, suite, hx, hsuite, rfl⟩
    refine Draw.bind_eq_ok.mpr ⟨x, by simp [hx], Draw.bind_eq_ok.mpr ⟨suite, ?_, rfl⟩⟩
    rwa [Draw.rest_liftExcept]

theorem exists_draw_eq_ok : (∃ run, (draw c signatures s o : Draw σ Run).outcome w = .ok run) ↔
    ∃ x, expansion c signatures s o = .ok x ∧
      (∀ overload ∈ x.overloads, overload.Testable o.check) ∧
      o.startId.toNat + Overload.caseCount x.overloads < UInt64.size := by
  constructor
  · rintro ⟨run, h⟩
    obtain ⟨x, suite, hx, hsuite, -⟩ := draw_eq_ok.mp h
    exact ⟨x, hx, (Suite.exists_draw_eq_ok fun _ => expanded_of_mem hx).mp ⟨suite, hsuite⟩⟩
  · rintro ⟨x, hx, htestable⟩
    obtain ⟨suite, hsuite⟩ :=
      (Suite.exists_draw_eq_ok (w := w) fun _ => expanded_of_mem hx).mpr htestable
    exact ⟨_, draw_eq_ok.mpr ⟨x, suite, hx, hsuite, rfl⟩⟩

/-- A run has as many cases as its overloads have. -/
theorem length_of_draw {run : Run} (hx : expansion c signatures s o = .ok x)
    (h : (draw c signatures s o : Draw σ Run).outcome w = .ok run) :
    run.suite.length = Overload.caseCount x.overloads := by
  obtain ⟨x', suite, hx', hsuite, rfl⟩ := draw_eq_ok.mp h
  obtain rfl := Except.ok.inj (hx.symm.trans hx')
  rw [← Suite.length_plan o.check]
  exact Suite.length_of_drawFrom hsuite

/-- The codes of the faults of a run, other than a static reference that reads more arguments than
there are. -/
def faultCodes : List Finding :=
  Expansion.signatureCodes ++ [.typeCycle, .unsupportedBaseType, .staticReferenceShape, .idOverflow]

theorem code_of_expansion (h : expansion c signatures s o = .error fault) :
    (∃ f ∈ signatures.filter o.wants, f.checkReference = .error fault) ∨
      fault.code ∈ faultCodes := by
  rcases bind_eq_error.mp h with h | ⟨r, -, h⟩
  · obtain ⟨k, -, rfl⟩ := Catalog.ofCatalog_eq_error h
    exact .inr (by simp [Fault.code, faultCodes])
  · obtain ⟨f, hf, h⟩ := Expansion.ofSignatures_eq_error h
    rcases Expansion.code_of_ofSignature h with h | hcode
    · exact .inl ⟨f, hf, h⟩
    · exact .inr (List.mem_append_left _ hcode)

/-- The checks that are made twice fail the first time: a run fails for its catalog or a signature,
for want of literals, for the shape of a result or for want of numbers. -/
theorem code_of_draw (h : (draw c signatures s o : Draw σ Run).outcome w = .error fault) :
    (∃ f ∈ signatures.filter o.wants, f.checkReference = .error fault) ∨
      fault.code ∈ faultCodes := by
  rcases Draw.bind_eq_error.mp h with h | ⟨x, hx, h⟩
  · rw [Draw.outcome_liftExcept] at h
    exact code_of_expansion h
  rw [Draw.outcome_liftExcept] at hx
  rcases Draw.bind_eq_error.mp h with h | ⟨suite, -, h⟩
  · have hplan : Suite.Planned o.check (Suite.plan o.check x.overloads) :=
      Suite.planned_plan fun _ => expanded_of_mem hx
    rcases Suite.fault_of_drawFrom hplan h with ⟨_, rfl⟩ | ⟨_, _, _, _, rfl⟩ | rfl
    · exact .inr (by simp [Fault.code, faultCodes])
    · exact .inr (by simp [Fault.code, faultCodes])
    · exact .inr (by simp [Fault.code, faultCodes])
  · cases h

/-- **A run succeeds exactly if** the catalog has no cycle, the wanted signatures are valid, each of
their overloads is testable, and the numbers last for the cases. A run never fails for a variant,
nor for the arguments of a static reference if the signatures come from documents. -/
theorem draw_succeeds_iff (c : Catalog) (signatures : List Signature) (s : Selection)
    (o : RunOptions) (w : σ) :
    ((∃ run, (draw c signatures s o : Draw σ Run).outcome w = .ok run) ↔
      c.Acyclic ∧ (∀ f ∈ signatures.filter o.wants, f.Valid (· ∈ c.keys)) ∧
        ∀ x, expansion c signatures s o = .ok x →
          (∀ overload ∈ x.overloads, overload.Testable o.check) ∧
            o.startId.toNat + Overload.caseCount x.overloads < UInt64.size) ∧
    (∀ x run, expansion c signatures s o = .ok x →
      (draw c signatures s o : Draw σ Run).outcome w = .ok run →
        run.suite.length = Overload.caseCount x.overloads) ∧
    (∀ function flaw,
      (draw c signatures s o : Draw σ Run).outcome w ≠ .error (.invalidVariant function flaw)) ∧
    ((∀ f ∈ signatures, ∃ entry : FunctionRecord, entry.signature = .ok f) →
      ∀ function name expected found, (draw c signatures s o : Draw σ Run).outcome w ≠
        .error (.staticReferenceArity function name expected found)) := by
  refine ⟨?_, fun _ _ => length_of_draw, ?_, ?_⟩
  · rw [exists_draw_eq_ok]
    constructor
    · intro h
      obtain ⟨x, hx, htestable⟩ := h
      obtain ⟨hacyclic, hvalid⟩ := exists_expansion_eq_ok.mp ⟨x, hx⟩
      refine ⟨hacyclic, hvalid, ?_⟩
      intro x' hx'
      -- there is one expansion only
      obtain rfl := Except.ok.inj (hx.symm.trans hx')
      exact htestable
    · intro h
      obtain ⟨hacyclic, hvalid, htestable⟩ := h
      obtain ⟨x, hx⟩ := exists_expansion_eq_ok.mpr ⟨hacyclic, hvalid⟩
      exact ⟨x, hx, htestable x hx⟩
  · intro function flaw h
    rcases code_of_draw h with ⟨f, -, h⟩ | hcode
    · -- the check of a static reference has a fault of its own
      obtain ⟨reference, -, -, heq⟩ := Signature.checkReference_eq_error h
      cases heq
    · simp [Fault.code, faultCodes, Expansion.signatureCodes] at hcode
  · intro hdocuments function name expected found h
    rcases code_of_draw h with ⟨f, hf, h⟩ | hcode
    · -- what the run would find, reading the document found
      obtain ⟨entry, hentry⟩ := hdocuments f (List.mem_of_mem_filter hf)
      rw [FunctionRecord.checkReference_signature hentry] at h
      cases h
    · simp [Fault.code, faultCodes, Expansion.signatureCodes] at hcode

/-! ## Two signatures over the diamond -/

theorem expansion_diamond (start : UInt64) (check : Checking) :
    expansion .diamond [Overload.sin.template, Overload.fract.template] (.allOf .diamond)
      ⟨start, check, []⟩ = .ok ⟨[.sin, .fract], []⟩ := by
  have hacyclic : Catalog.diamond.Acyclic := by decide +kernel
  obtain ⟨r, hr⟩ := (Catalog.ofCatalog_eq_ok (s := .allOf .diamond)).mpr hacyclic
  have hfloat : r.get? "float" = some [.leaf "float" "float" "scalar" "float" 1] :=
    Catalog.get?_of_visitWithin hr (by decide) (by decide +kernel)
  have hslots : ∀ f : Signature, f.keys.eraseDups = ["float"] →
      Expansion.slots r f = .ok [("float", [.leaf "float" "float" "scalar" "float" 1])] := by
    intro f hf
    rw [Expansion.slots_eq_ok, hf]
    exact .cons ⟨rfl, hfloat⟩ .nil
  have hsin : Expansion.ofSignature r Overload.sin.template = .ok ⟨[.sin], []⟩ :=
    Expansion.ofSignature_eq_ok.mpr
      ⟨none, [], _, rfl, rfl, rfl, hslots _ (by decide +kernel), by decide +kernel⟩
  have hfract : Expansion.ofSignature r Overload.fract.template = .ok ⟨[.fract], []⟩ :=
    Expansion.ofSignature_eq_ok.mpr
      ⟨some 1, [], _, rfl, rfl, rfl, hslots _ (by decide +kernel), by decide +kernel⟩
  have hparts := mapM_eq_ok.mpr (.cons hsin (.cons hfract .nil))
  exact bind_eq_ok.mpr ⟨r, hr, bind_eq_ok.mpr ⟨_, hparts, by decide +kernel⟩⟩

end Run

end OverloadSuite
