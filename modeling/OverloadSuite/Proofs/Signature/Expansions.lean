import OverloadSuite.Proofs.Signature.Distinct
import OverloadSuite.Proofs.Signature.Product

/-!
# Expanding several signatures

Signatures expand together exactly if each of them does. The overloads of the expansion come from
them one by one; dropping those that are the same as an earlier one adds none, and each overload
that stays belongs to the first signature that yields it.
-/

namespace OverloadSuite

open Outcome

namespace Expansion

variable {c : Catalog} {s : Selection} {r : Resolution} {f : Signature}
  {signatures : List Signature} {e : Expansion} {o : Overload} {fault : Fault}

/-! ## What each signature gives -/

/-- The overloads of a signature on its own. -/
def overloadsAlone (r : Resolution) (f : Signature) : List Overload :=
  match ofSignature r f with
  | .ok e => e.overloads
  | .error _ => []

theorem overloadsAlone_eq (h : ofSignature r f = .ok e) : overloadsAlone r f = e.overloads := by
  rw [overloadsAlone, h]

theorem exists_realizes_of_mem (ho : o ∈ overloadsAlone r f) : ∃ p, f.Realizes r p o := by
  unfold overloadsAlone at ho
  split at ho
  · rename_i e h
    obtain ⟨p, -, -, hrealizes⟩ := exists_of_forall₂_right (forall₂_realizes h) ho
    exact ⟨p, hrealizes⟩
  · cases ho

/-- Several signatures give what each of them gives, in order, without repetitions. -/
theorem ofSignatures_eq_ok : ofSignatures r signatures = .ok e ↔
    (∀ f ∈ signatures, ∃ e, ofSignature r f = .ok e) ∧
      e = ⟨Overload.distinct (signatures.flatMap (overloadsAlone r)),
        signatures.flatMap fun f => remarks f (overloadsAlone r f)⟩ := by
  have hparts : ∀ {es}, List.Forall₂ (fun f e => ofSignature r f = .ok e) signatures es →
      es.flatMap (·.overloads) = signatures.flatMap (overloadsAlone r) ∧
        es.flatMap (·.diagnostics) =
          signatures.flatMap fun f => remarks f (overloadsAlone r f) := by
    intro es hes
    induction hes with
    | nil => exact ⟨rfl, rfl⟩
    | cons hfe _ ih =>
      simp only [List.flatMap_cons, ih, overloadsAlone_eq hfe, diagnostics_eq hfe, and_self]
  rw [← exists_mapM_eq_ok]
  constructor
  · intro h
    obtain ⟨es, hes, h⟩ := bind_eq_ok.mp h
    obtain ⟨hoverloads, hdiagnostics⟩ := hparts (mapM_eq_ok.mp hes)
    rw [← hoverloads, ← hdiagnostics]
    exact ⟨⟨es, hes⟩, (Except.ok.inj h).symm⟩
  · rintro ⟨⟨es, hes⟩, rfl⟩
    obtain ⟨hoverloads, hdiagnostics⟩ := hparts (mapM_eq_ok.mp hes)
    rw [← hoverloads, ← hdiagnostics]
    exact bind_eq_ok.mpr ⟨es, hes, rfl⟩

theorem exists_ofSignatures_eq_ok : (∃ e, ofSignatures r signatures = .ok e) ↔
    ∀ f ∈ signatures, ∃ e, ofSignature r f = .ok e := by
  simp only [ofSignatures_eq_ok, exists_and_left, exists_eq, and_true]

/-- An overload of the expansion realizes a choice for one of the signatures. -/
theorem exists_realizes (h : ofSignatures r signatures = .ok e) (ho : o ∈ e.overloads) :
    ∃ f ∈ signatures, f.Valid (fun key => ∃ leaves, r.get? key = some leaves) ∧
      ∃ p, f.Realizes r p o := by
  obtain ⟨hall, rfl⟩ := ofSignatures_eq_ok.mp h
  obtain ⟨f, hf, ho⟩ := List.mem_flatMap.mp ((Overload.distinct_sublist _).subset ho)
  exact ⟨f, hf, exists_ofSignature_eq_ok.mp (hall f hf), exists_realizes_of_mem ho⟩

theorem ofSignatures_eq_error (h : ofSignatures r signatures = .error fault) :
    ∃ f ∈ signatures, ofSignature r f = .error fault := by
  rcases bind_eq_error.mp h with h | ⟨es, -, h⟩
  · exact exists_of_mapM_eq_error h
  · cases h

/-- More signatures at the end do not change what the earlier ones give. -/
theorem ofSignatures_append_eq_ok {more : List Signature}
    (h : ofSignatures r (signatures ++ more) = .ok e) :
    ∃ e', ofSignatures r signatures = .ok e' ∧ e'.overloads <+: e.overloads ∧
      e'.diagnostics <+: e.diagnostics := by
  obtain ⟨hall, rfl⟩ := ofSignatures_eq_ok.mp h
  have hearlier := fun f hf => hall f (List.mem_append_left more hf)
  refine ⟨_, ofSignatures_eq_ok.mpr ⟨hearlier, rfl⟩, ?_, ?_⟩ <;> simp only [List.flatMap_append]
  · exact Overload.distinct_prefix_append _ _
  · exact List.prefix_append _ _

/-! ## Which overloads stay -/

/-- What is found in parts that are laid end to end belongs to the first part that has any. -/
theorem find?_flatMap_owner {α β : Type} {p : β → Bool} {g : α → List β} (owner : β → α)
    (howner : ∀ a, ∀ b ∈ g a, owner b = a) {as : List α} {b : β}
    (h : (as.flatMap g).find? p = some b) : as.find? (fun a => (g a).any p) = some (owner b) := by
  induction as with
  | nil => cases h
  | cons a as ih =>
    rw [List.flatMap_cons, List.find?_append] at h
    rw [List.find?_cons]
    cases ha : (g a).find? p with
    | none =>
      have hnone : (g a).any p = false := by simpa using ha
      rw [ha, Option.none_or] at h
      rw [hnone]
      exact ih h
    | some b' =>
      have hsome : (g a).any p = true :=
        List.any_eq_true.mpr ⟨b', List.mem_of_find?_eq_some ha, List.find?_some ha⟩
      rw [ha, Option.some_or] at h
      cases h
      rw [hsome, howner a b (List.mem_of_find?_eq_some ha)]

/-- Parts that are laid end to end are filtered by what they belong to. -/
theorem flatMap_filter_owner {α β : Type} {g : α → List β} (owner : β → α)
    (howner : ∀ a, ∀ b ∈ g a, owner b = a) (p : α → Bool) (as : List α) :
    (as.filter p).flatMap g = (as.flatMap g).filter fun b => p (owner b) := by
  induction as with
  | nil => rfl
  | cons a as ih =>
    rw [List.flatMap_cons, List.filter_append, ← ih]
    by_cases ha : p a = true
    · have hall : (g a).filter (fun b => p (owner b)) = g a :=
        List.filter_eq_self.mpr fun b hb => (howner a b hb).symm ▸ ha
      rw [List.filter_cons_of_pos ha, List.flatMap_cons, hall]
    · have hnone : (g a).filter (fun b => p (owner b)) = [] :=
        List.filter_eq_nil_iff.mpr fun b hb => (howner a b hb).symm ▸ ha
      rw [List.filter_cons_of_neg ha, hnone, List.nil_append]

/-- For an overload of any signature exactly one that is alike stays: the earliest one, which is
made of the first signature that yields such an overload. -/
theorem exists_kept (ho : o ∈ signatures.flatMap (overloadsAlone r)) : ∃ kept,
    (Overload.distinct (signatures.flatMap (overloadsAlone r))).filter (fun a => a.Alike o) =
        [kept] ∧
      (signatures.flatMap (overloadsAlone r)).find? (fun a => a.Alike o) = some kept ∧
      signatures.find? (fun f => (overloadsAlone r f).any fun a => a.Alike o) =
        some kept.template := by
  have hsome : ((signatures.flatMap (overloadsAlone r)).find? fun a => a.Alike o).isSome := by
    rw [List.find?_isSome]
    exact ⟨o, ho, by simp [Overload.alike_iff]⟩
  obtain ⟨kept, hkept⟩ := Option.isSome_iff_exists.mp hsome
  -- every overload names the signature it is made of, so the first one found names the first owner
  refine ⟨kept, ?_, hkept, find?_flatMap_owner (fun o => o.template) ?_ hkept⟩
  · rw [Overload.filter_alike_distinct, hkept]
    rfl
  · intro f o ho
    obtain ⟨p, hrealizes⟩ := exists_realizes_of_mem ho
    exact hrealizes.template

/-- The remarks about several signatures: one warning for each without overloads, in order. -/
theorem flatMap_remarks (r : Resolution) (signatures : List Signature) :
    (signatures.flatMap fun f => remarks f (overloadsAlone r f)) =
      (signatures.filter fun f => (overloadsAlone r f).isEmpty).map fun f =>
        .ofCode .emptyExpansion (emptyMessage f) := by
  induction signatures with
  | nil => rfl
  | cons f signatures ih =>
    rw [List.flatMap_cons, ih, List.filter_cons, remarks]
    cases overloadsAlone r f <;> rfl

/-- Every overload names the signature it is made of, so signatures are filtered by filtering what
they give. -/
theorem flatMap_overloadsAlone_filter (r : Resolution) (p : Signature → Bool)
    (signatures : List Signature) :
    (signatures.filter p).flatMap (overloadsAlone r) =
      (signatures.flatMap (overloadsAlone r)).filter fun o => p o.template := by
  refine flatMap_filter_owner (fun o : Overload => o.template) (fun f o ho => ?_) p signatures
  obtain ⟨_, hrealizes⟩ := exists_realizes_of_mem ho
  exact hrealizes.template

/-- A filter that looks at the name of the function only may come before or after the expansion. It
never changes which of the overloads that are alike stays: they have one name, so it
keeps all of them or none. -/
theorem ofSignatures_filter {p : Signature → Bool}
    (hp : ∀ f g : Signature, f.scope = g.scope → f.name = g.name → p f = p g)
    (h : ofSignatures r signatures = .ok e) :
    ofSignatures r (signatures.filter p) =
      .ok ⟨e.overloads.filter fun o => p o.template,
        ((signatures.filter fun f => (overloadsAlone r f).isEmpty).filter p).map fun f =>
          .ofCode .emptyExpansion (emptyMessage f)⟩ := by
  obtain ⟨hall, rfl⟩ := ofSignatures_eq_ok.mp h
  refine ofSignatures_eq_ok.mpr ⟨fun f hf => hall f (List.mem_of_mem_filter hf), ?_⟩
  have hdistinct := Overload.distinct_filter (p := fun o => p o.template)
    (fun a b hab => hp _ _ hab.scope hab.name) (signatures.flatMap (overloadsAlone r))
  rw [flatMap_overloadsAlone_filter, hdistinct, flatMap_remarks r (signatures.filter p),
    List.filter_comm]

/-- **Of overloads that are alike, the first one stays.** Valid signatures expand, each to its own
overloads; laid end to end, these lose all that are like an earlier one, and only those. What stays
for an overload is the earliest one like it, with the accuracy, the comment and the reference of the
first signature that yields one. Dropping repetitions once more changes nothing, signatures in
another order give the same overloads but for what does not tell them apart, and each signature
without overloads of its own is warned of, in order and under one code. -/
theorem ofSignatures_keeps_first (r : Resolution) (signatures : List Signature)
    (hvalid : ∀ f ∈ signatures, f.Valid fun key => ∃ leaves, r.get? key = some leaves) :
    (∀ f ∈ signatures, ∃ e, ofSignature r f = .ok e ∧ e.overloads = overloadsAlone r f) ∧
    ∃ e, ofSignatures r signatures = .ok e ∧
      e.overloads.Sublist (signatures.flatMap (overloadsAlone r)) ∧
      e.overloads.Pairwise (fun a b => ¬a.Alike b) ∧
      (∀ o ∈ signatures.flatMap (overloadsAlone r), ∃ kept,
        e.overloads.filter (fun a => a.Alike o) = [kept] ∧
        (signatures.flatMap (overloadsAlone r)).find? (fun a => a.Alike o) = some kept ∧
        signatures.find? (fun f => (overloadsAlone r f).any fun a => a.Alike o) =
          some kept.template) ∧
      Overload.distinct e.overloads = e.overloads ∧
      (∀ signatures', signatures'.Perm signatures → ∃ e', ofSignatures r signatures' = .ok e' ∧
        ∀ o, (∃ a ∈ e'.overloads, a.Alike o) ↔ ∃ a ∈ e.overloads, a.Alike o) ∧
      e.diagnostics = ((signatures.filter fun f => (overloadsAlone r f).isEmpty).map fun f =>
        .ofCode .emptyExpansion (emptyMessage f)) ∧
      ∀ d ∈ e.diagnostics, d.code = .emptyExpansion ∧ d.code.number = "MG0200" := by
  have hall : ∀ f ∈ signatures, ∃ e, ofSignature r f = .ok e :=
    fun f hf => exists_ofSignature_eq_ok.mpr (hvalid f hf)
  refine ⟨fun f hf => ?_, _, ofSignatures_eq_ok.mpr ⟨hall, rfl⟩, Overload.distinct_sublist _,
    Overload.pairwise_distinct _, fun o ho => exists_kept ho, Overload.distinct_distinct _,
    fun signatures' hperm => ?_, flatMap_remarks r signatures, fun d hd => ?_⟩
  · obtain ⟨e, he⟩ := hall f hf
    exact ⟨e, he, (overloadsAlone_eq he).symm⟩
  · -- the order decides which overload stays, not whether one like it does
    have hall' := fun f hf => hall f (hperm.mem_iff.mp hf)
    refine ⟨_, ofSignatures_eq_ok.mpr ⟨hall', rfl⟩, fun o => ?_⟩
    simp only [Overload.exists_alike_distinct, List.mem_flatMap, hperm.mem_iff]
  · obtain ⟨f, -, hf⟩ := List.mem_flatMap.mp hd
    exact code_of_mem_remarks hf

/-- A resolution of a generic, one of its leaves, and a generic that has lost all of its leaves. -/
def floats : Resolution where
  bindings :=
    [("float", [.leaf "float" "float" "scalar" "float" 1]),
      ("genfloat", [.leaf "float" "float" "scalar" "float" 1,
        .leaf "double" "double" "scalar" "double" 1]),
      ("genhalf", [])]

/-- Three signatures of one function; the second one yields an overload of the first again. -/
def fabs : List Signature :=
  [{ Signature.ofKeys "sycl" "fabs" "float" ["float"] with accuracy := some "4" },
    .ofKeys "sycl" "fabs" "genfloat" ["genfloat"], .ofKeys "sycl" "fabs" "genhalf" ["genhalf"]]

/-- The overload that two signatures yield keeps the accuracy of the first one. -/
theorem ofSignatures_fabs :
    (∀ f ∈ fabs, f.Valid fun key => ∃ leaves, floats.get? key = some leaves) ∧
      ∃ e, ofSignatures floats fabs = .ok e ∧ e.overloads.Pairwise (fun a b => ¬a.Alike b) ∧
        e.overloads.map (fun o => (o.text, o.template.accuracy)) =
          [("float sycl::fabs(float)", some "4"), ("double sycl::fabs(double)", none)] ∧
        e.diagnostics.length = 1 := by
  have hplain : ∀ f ∈ fabs, f.pointers = [] ∧ f.reference = none ∧ f.mutations = [] ∧
      ∀ key ∈ f.keys, (floats.get? key).isSome := by decide +kernel
  have hvalid : ∀ f ∈ fabs, f.Valid fun key => ∃ leaves, floats.get? key = some leaves := by
    intro f hf
    obtain ⟨hpointers, hreference, hmutations, hkeys⟩ := hplain f hf
    exact ⟨.inl hpointers, by simp [hreference], by simp [hmutations],
      fun key hkey => Option.isSome_iff_exists.mp (hkeys key hkey)⟩
  obtain ⟨-, e, he, -, hpairwise, -⟩ := ofSignatures_keeps_first floats fabs hvalid
  have heval : (ofSignatures floats fabs).map (fun e =>
      (e.overloads.map (fun o => (o.text, o.template.accuracy)), e.diagnostics.length)) =
      .ok ([("float sycl::fabs(float)", some "4"), ("double sycl::fabs(double)", none)], 1) := by
    decide +kernel
  rw [he] at heval
  obtain ⟨hoverloads, hdiagnostics⟩ := Prod.mk.inj (Except.ok.inj heval)
  exact ⟨hvalid, e, he, hpairwise, hoverloads, hdiagnostics⟩

end Expansion

end OverloadSuite
