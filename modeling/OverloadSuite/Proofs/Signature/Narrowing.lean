import OverloadSuite.Proofs.Signature.Product

/-!
# Narrower selections

A selection that covers less shortens the leaves of every key, and the product of the shorter lists
is a part of the product of the longer ones. Which overloads remain is another matter: mutations
count only while two keys or more are free, and a key that is left with one leaf is free no longer.
-/

namespace OverloadSuite

open Outcome

/-! ## What a narrower selection covers -/

/-- Each of the three sets of the first selection is part of that of the second. -/
structure Selection.Within (s s' : Selection) : Prop where
  varTypes : ∀ v ∈ s.varTypes, v ∈ s'.varTypes
  baseTypes : ∀ v ∈ s.baseTypes, v ∈ s'.baseTypes
  dimensions : ∀ v ∈ s.dimensions, v ∈ s'.dimensions

theorem Selection.Within.covers {s s' : Selection} (h : s.Within s') {e : TypeEntry}
    (he : s.covers e = true) : s'.covers e = true := by
  simp only [Selection.covers, Bool.and_eq_true, decide_eq_true_eq] at he ⊢
  obtain ⟨⟨hvar, hbase⟩, hdim⟩ := he
  exact ⟨⟨h.varTypes _ hvar, h.baseTypes _ hbase⟩, h.dimensions _ hdim⟩

/-- The types of the arguments and then that of the result, in step with
the keys of the template. -/
def Overload.types (o : Overload) : List TypeEntry := o.argTypes ++ [o.returnType]

/-- All types of an overload are covered. -/
def Overload.coveredBy (s : Selection) (o : Overload) : Bool := o.types.all s.covers

/-- The type that an overload binds to a key of its template. -/
def Overload.boundType? (o : Overload) (key : String) : Option TypeEntry :=
  (o.template.keys.zip o.types).lookup key

/-- An overload violates no mutation of its template: the rules permit the types that it binds. -/
def Overload.obeysMutations (o : Overload) : Bool :=
  o.template.mutations.all fun m =>
    match PairRule.ofName? m.rule, o.boundType? m.base, o.boundType? m.derived with
    | some rule, some base, some derived => rule.permits base derived
    | _, _, _ => false

/-- Under a narrower selection every key resolves to those of its leaves that are covered. -/
theorem Resolution.leavesOf_narrower {c : Catalog} {s s' : Selection} {r r' : Resolution}
    (hr : Resolution.ofCatalog c s = .ok r) (hr' : Resolution.ofCatalog c s' = .ok r')
    (hwithin : s.Within s') (key : String) :
    r.leavesOf key = (r'.leavesOf key).filter s.covers := by
  by_cases hkey : key ∈ c.keys
  · have hacyclic : c.Acyclic := Catalog.ofCatalog_eq_ok.mp ⟨r, hr⟩
    obtain ⟨leaves, hleaves⟩ := (Catalog.exists_get?_ofCatalog hr).mpr hkey
    obtain ⟨wide, hwide, heq⟩ := Catalog.resolve_narrower hkey
      (Catalog.acyclic_iff.mp hacyclic key hkey) (fun e _ he => hwithin.covers he)
      ((Catalog.get?_ofCatalog hr).mp hleaves).2
    have hleaves' : r'.get? key = some wide := (Catalog.get?_ofCatalog hr').mpr ⟨hkey, hwide⟩
    simp [leavesOf, hleaves, hleaves', heq]
  · simp [leavesOf, (Catalog.get?_ofCatalog_eq_none hr).mpr hkey,
      (Catalog.get?_ofCatalog_eq_none hr').mpr hkey]

/-! ## Bindings of covered types -/

namespace Binding

variable {s : Selection} {slots : List (String × List TypeEntry)} {ds : List Constraint}
  {f : Signature} {b : Binding} {o : Overload}

/-- All types of a binding are covered. -/
def coveredBy (s : Selection) (b : Binding) : Bool := List.all b fun slot => s.covers slot.2

theorem coveredBy_cons (s : Selection) (key : String) (leaf : TypeEntry) (b : Binding) :
    coveredBy s ((key, leaf) :: b) = (s.covers leaf && coveredBy s b) := rfl

/-- The covered part of some slots. -/
def narrow (s : Selection) (slots : List (String × List TypeEntry)) :
    List (String × List TypeEntry) :=
  slots.map fun slot => (slot.1, slot.2.filter s.covers)

/-- The number of free slots: those that do not hold exactly one leaf. -/
def freeCount (slots : List (String × List TypeEntry)) : Nat := slots.countP (·.2.length != 1)

theorem narrow_cons (s : Selection) (key : String) (leaves : List TypeEntry)
    (slots : List (String × List TypeEntry)) :
    narrow s ((key, leaves) :: slots) = (key, leaves.filter s.covers) :: narrow s slots := rfl

theorem freeCount_cons (key : String) (leaves : List TypeEntry)
    (slots : List (String × List TypeEntry)) :
    freeCount ((key, leaves) :: slots) = freeCount slots + if leaves.length = 1 then 0 else 1 := by
  rw [freeCount, List.countP_cons]
  by_cases hone : leaves.length = 1 <;> simp [hone, freeCount]

theorem all_narrow (s : Selection) (slots : List (String × List TypeEntry)) :
    all (narrow s slots) = (all slots).filter (coveredBy s) := by
  induction slots with
  | nil => rfl
  | cons slot slots ih =>
    obtain ⟨key, leaves⟩ := slot
    have hrest : ∀ leaf : TypeEntry, ((all slots).map ((key, leaf) :: ·)).filter (coveredBy s) =
        if s.covers leaf then (all (narrow s slots)).map ((key, leaf) :: ·) else [] := by
      intro leaf
      rw [ih, List.filter_map]
      by_cases hleaf : s.covers leaf
      · simp [coveredBy_cons, Function.comp_def, hleaf]
      · simp [coveredBy_cons, Function.comp_def, hleaf]
    rw [narrow_cons, all_cons, all_cons, List.filter_flatMap]
    simp only [hrest]
    induction leaves with
    | nil => rfl
    | cons leaf leaves ihl => by_cases hleaf : s.covers leaf <;> simp [hleaf, ihl]

/-- A slot that becomes free has lost its only leaf, and then nothing can be bound. -/
theorem all_eq_nil_of_freeCount_lt (h : freeCount slots < freeCount (narrow s slots)) :
    all (narrow s slots) = [] := by
  induction slots with
  | nil => exact absurd h (Nat.lt_irrefl _)
  | cons slot slots ih =>
    obtain ⟨key, leaves⟩ := slot
    rw [narrow_cons, freeCount_cons, freeCount_cons] at h
    rw [narrow_cons, all_cons]
    by_cases hrest : freeCount slots < freeCount (narrow s slots)
    · simp [ih hrest]
    · -- the first slot is the one that becomes free
      have hle := List.length_filter_le s.covers leaves
      have hnil : leaves.filter s.covers = [] := by
        apply List.length_eq_zero_iff.mp
        split at h <;> split at h <;> omega
      simp [hnil]

/-- The bindings that remain are the covered ones among those that remained, if the mutations count
under both selections or under neither. -/
theorem remaining_narrow (h : 2 ≤ freeCount (narrow s slots) ∨ freeCount slots ≤ 1) :
    remaining (narrow s slots) ds = (remaining slots ds).filter (coveredBy s) := by
  show (if 2 ≤ freeCount (narrow s slots) then _ else _) = (if 2 ≤ freeCount slots then _ else _ :
    List Binding).filter _
  by_cases hwide : 2 ≤ freeCount slots
  · have hnarrow : 2 ≤ freeCount (narrow s slots) := by omega
    rw [if_pos hnarrow, if_pos hwide, all_narrow, List.filter_comm]
  · rw [if_neg hwide, ← all_narrow]
    by_cases hnarrow : 2 ≤ freeCount (narrow s slots)
    · rw [all_eq_nil_of_freeCount_lt (by omega)]
      simp
    · rw [if_neg hnarrow]

/-- If the mutations cease to count, the bindings that satisfy them are those that remained. -/
theorem filter_remaining_narrow (h : freeCount (narrow s slots) ≤ 1) (h' : 2 ≤ freeCount slots) :
    (remaining (narrow s slots) ds).filter (fun b => ds.all b.satisfies) =
      (remaining slots ds).filter (coveredBy s) := by
  have hnarrow : ¬2 ≤ freeCount (narrow s slots) := by omega
  show (if 2 ≤ freeCount (narrow s slots) then _ else _ : List Binding).filter _ =
    (if 2 ≤ freeCount slots then _ else _ : List Binding).filter _
  rw [if_neg hnarrow, if_pos h', all_narrow, List.filter_comm]

/-! ## From bindings to overloads -/

/-- What a binding says of a key, the types that it gives to a list of keys say as well. -/
theorem lookup_zip {keys : List String} {types : List TypeEntry} {key : String}
    (h : List.Forall₂ (fun key t => b.lookup key = some t) keys types) (hkey : key ∈ keys) :
    (keys.zip types).lookup key = b.lookup key := by
  induction h with
  | nil => cases hkey
  | @cons key' t keys types ht _ ih =>
    rw [List.zip_cons_cons, List.lookup_cons]
    by_cases heq : key = key'
    · simp [heq, ht]
    · simpa [beq_eq_false_iff_ne.mpr heq] using ih ((List.mem_cons.mp hkey).resolve_left heq)

/-- Every type of a binding is bound to a key of its own. -/
theorem coveredBy_iff (hnodup : b.keys.Nodup) :
    b.coveredBy s = true ↔ ∀ key t, b.lookup key = some t → s.covers t = true := by
  induction b with
  | nil => simp [coveredBy]
  | cons slot b ih =>
    obtain ⟨key, leaf⟩ := slot
    obtain ⟨hnew, hrest⟩ := List.nodup_cons.mp hnodup
    rw [coveredBy_cons, Bool.and_eq_true, ih hrest]
    constructor
    · intro h key' t ht
      rw [List.lookup_cons] at ht
      by_cases heq : key' = key
      · simp_all
      · exact h.2 key' t (by simpa [beq_eq_false_iff_ne.mpr heq] using ht)
    · intro h
      refine ⟨h key leaf (by simp), fun key' t ht => h key' t ?_⟩
      have heq : key' ≠ key := by
        rintro rfl
        obtain ⟨_, _, hsplit, -⟩ := List.lookup_eq_some_iff.mp ht
        exact hnew (by simp [hsplit])
      simpa [List.lookup_cons, beq_eq_false_iff_ne.mpr heq] using ht

end Binding

namespace Signature

variable {r : Resolution} {f : Signature} {p : List Nat} {b : Binding} {o : Overload}
  {s : Selection} {ds : List Constraint}

theorem Realizes.lookup_types (ho : f.Realizes r p o)
    (h : Binding.Picks r.leavesOf f.distinctKeys p b) :
    List.Forall₂ (fun key t => b.lookup key = some t) f.keys o.types := by
  refine List.rel_append (ho.argTypes.imp fun key t ht => ?_) (.cons ?_ .nil)
  · exact (chosen?_eq_lookup h key).symm.trans ht
  · exact (chosen?_eq_lookup h f.returnKey).symm.trans ho.returnType

theorem keys_of_picks (h : Binding.Picks r.leavesOf f.distinctKeys p b) :
    b.keys = f.distinctKeys := by
  generalize f.distinctKeys = keys at h
  induction h with
  | nil => rfl
  | cons _ _ ih => exact congrArg _ ih

/-- An overload is covered exactly if the binding is: each key that is bound is one of its own. -/
theorem Realizes.coveredBy_eq (ho : f.Realizes r p o)
    (h : Binding.Picks r.leavesOf f.distinctKeys p b) : o.coveredBy s = b.coveredBy s := by
  have hkeys := keys_of_picks h
  have htypes := ho.lookup_types h
  rw [Bool.eq_iff_iff, Binding.coveredBy_iff (hkeys ▸ nodup_distinctKeys), Overload.coveredBy,
    List.all_eq_true]
  constructor
  · intro hall key t ht
    have hkey : key ∈ f.keys := by
      obtain ⟨_, _, hsplit, -⟩ := List.lookup_eq_some_iff.mp ht
      rw [← mem_distinctKeys, ← hkeys]
      simp [Binding.keys, hsplit]
    obtain ⟨t', ht', hlookup⟩ := exists_of_forall₂ htypes hkey
    obtain rfl : t = t' := by simpa [ht] using hlookup
    exact hall t ht'
  · intro hall t ht
    obtain ⟨key, -, hlookup⟩ := exists_of_forall₂_right htypes ht
    exact hall key t hlookup

/-- An overload obeys the mutations exactly if the binding satisfies what they demand. -/
theorem Realizes.obeysMutations_eq (ho : f.Realizes r p o)
    (h : Binding.Picks r.leavesOf f.distinctKeys p b) (hds : f.constraints = .ok ds) :
    o.obeysMutations = ds.all b.satisfies := by
  rw [Bool.eq_iff_iff, ← forall_respects_iff h hds, Overload.obeysMutations, List.all_eq_true,
    ho.template]
  refine forall₂_congr fun m hm => ?_
  obtain ⟨-, hbase, hderived⟩ := exists_constraints_eq_ok.mp ⟨ds, hds⟩ m hm
  have hbound : ∀ key ∈ f.keys, o.boundType? key = f.chosen? r p key := by
    intro key hkey
    rw [Overload.boundType?, ho.template, Binding.lookup_zip (ho.lookup_types h) hkey,
      chosen?_eq_lookup h]
  rewrite [respects, hbound _ hbase, hbound _ hderived]
  rfl

end Signature

namespace Expansion

variable {c : Catalog} {s s' : Selection} {r r' : Resolution} {f : Signature} {e e' : Expansion}
  {ds : List Constraint}

/-- The slots of a signature over a resolution. -/
def slotsOf (r : Resolution) (f : Signature) : List (String × List TypeEntry) :=
  f.distinctKeys.map fun key => (key, r.leavesOf key)

theorem overloads_eq (h : ofSignature r f = .ok e) (hds : f.constraints = .ok ds) :
    e.overloads = (Binding.remaining (slotsOf r f) ds).filterMap (Binding.overload? f) := by
  obtain ⟨_, ds', slots, -, -, hds', hslots, rfl⟩ := ofSignature_eq_ok.mp h
  obtain rfl := Except.ok.inj (hds.symm.trans hds')
  rw [slots_eq_map hslots, overloadsOf_eq_filterMap_remaining]
  rfl

/-- What holds of overloads as it holds of the bindings that they come from, filters both alike. -/
theorem filter_overloads {bs : List Binding} {p : Overload → Bool} {q : Binding → Bool}
    (h : ∀ b ∈ bs, ∃ o, b.overload? f = some o ∧ p o = q b) :
    (bs.filterMap (Binding.overload? f)).filter p =
      (bs.filter q).filterMap (Binding.overload? f) := by
  induction bs with
  | nil => rfl
  | cons b bs ih =>
    obtain ⟨⟨o, ho, hpq⟩, hbs⟩ := List.forall_mem_cons.mp h
    rw [List.filterMap_cons_some ho, List.filter_cons, List.filter_cons, ih hbs, hpq]
    by_cases hq : q b
    · simp [hq, ho]
    · simp [hq]

/-- Each binding that remains gives an overload that is covered, and obeys
the mutations, like it. -/
theorem overload_of_remaining (hds : f.constraints = .ok ds) {b : Binding}
    (hb : b ∈ Binding.remaining (slotsOf r f) ds) :
    ∃ o, b.overload? f = some o ∧ (∀ s, o.coveredBy s = b.coveredBy s) ∧
      o.obeysMutations = ds.all b.satisfies := by
  obtain ⟨p, -, hpicks⟩ := exists_of_forall₂_right (Signature.forall₂_remaining hds) hb
  obtain ⟨o, ho, hrealizes⟩ := Signature.exists_realizes hpicks
  exact ⟨o, ho, fun s => hrealizes.coveredBy_eq hpicks, hrealizes.obeysMutations_eq hpicks hds⟩

theorem freeCount_slotsOf (r : Resolution) (f : Signature) :
    Binding.freeCount (slotsOf r f) = (f.freeKeys r).length := by
  rw [Binding.freeCount, slotsOf, List.countP_map, List.countP_eq_length_filter]
  rfl

theorem slotsOf_narrower (hr : Resolution.ofCatalog c s = .ok r)
    (hr' : Resolution.ofCatalog c s' = .ok r') (hwithin : s.Within s') :
    slotsOf r f = Binding.narrow s (slotsOf r' f) := by
  simp [slotsOf, Binding.narrow, Resolution.leavesOf_narrower hr hr' hwithin]

/-- **A narrower selection filters the overloads, as long as the mutations count alike.** A key is
free if it does not have exactly one leaf. If the narrower selection leaves two keys free, or the
wider one at most one, the overloads under the narrower selection are those under the wider one
whose types it covers. If the mutations count under the wider selection only, these are the
overloads under the narrower one that violate no mutation. None is ever lost. -/
theorem ofSignature_narrower (hacyclic : c.Acyclic) (hwithin : s.Within s')
    (hf : f.Valid (· ∈ c.keys)) :
    ∃ r r' e e', Resolution.ofCatalog c s = .ok r ∧ Resolution.ofCatalog c s' = .ok r' ∧
      ofSignature r f = .ok e ∧ ofSignature r' f = .ok e' ∧
      (2 ≤ (f.freeKeys r).length ∨ (f.freeKeys r').length ≤ 1 →
        e.overloads = e'.overloads.filter (·.coveredBy s)) ∧
      ((f.freeKeys r).length ≤ 1 → 2 ≤ (f.freeKeys r').length →
        e.overloads.filter (·.obeysMutations) = e'.overloads.filter (·.coveredBy s)) ∧
      (e'.overloads.filter (·.coveredBy s)).Sublist e.overloads := by
  obtain ⟨r, hr⟩ := (Catalog.ofCatalog_eq_ok (s := s)).mpr hacyclic
  obtain ⟨r', hr'⟩ := (Catalog.ofCatalog_eq_ok (s := s')).mpr hacyclic
  obtain ⟨e, he⟩ := (exists_ofSignature_ofCatalog_eq_ok hr).mpr hf
  obtain ⟨e', he'⟩ := (exists_ofSignature_ofCatalog_eq_ok hr').mpr hf
  obtain ⟨ds, hds⟩ := Signature.exists_constraints_eq_ok.mpr hf.mutations
  have hnarrow : slotsOf r f = Binding.narrow s (slotsOf r' f) := slotsOf_narrower hr hr' hwithin
  -- the covered overloads come from the covered bindings
  have hcovered : e'.overloads.filter (·.coveredBy s) =
      ((Binding.remaining (slotsOf r' f) ds).filter (Binding.coveredBy s)).filterMap
        (Binding.overload? f) := by
    rw [overloads_eq he' hds]
    refine filter_overloads fun b hb => ?_
    obtain ⟨o, ho, hcovers, -⟩ := overload_of_remaining hds hb
    exact ⟨o, ho, hcovers s⟩
  have hobeying : e.overloads.filter (·.obeysMutations) =
      ((Binding.remaining (slotsOf r f) ds).filter fun b => ds.all b.satisfies).filterMap
        (Binding.overload? f) := by
    rw [overloads_eq he hds]
    refine filter_overloads fun b hb => ?_
    obtain ⟨o, ho, -, hobeys⟩ := overload_of_remaining hds hb
    exact ⟨o, ho, hobeys⟩
  have halike : 2 ≤ (f.freeKeys r).length ∨ (f.freeKeys r').length ≤ 1 →
      e.overloads = e'.overloads.filter (·.coveredBy s) := by
    intro h
    rw [← freeCount_slotsOf, ← freeCount_slotsOf, hnarrow] at h
    rw [hcovered, ← Binding.remaining_narrow h, ← hnarrow, overloads_eq he hds]
  have hceased : (f.freeKeys r).length ≤ 1 → 2 ≤ (f.freeKeys r').length →
      e.overloads.filter (·.obeysMutations) = e'.overloads.filter (·.coveredBy s) := by
    intro h h'
    rw [← freeCount_slotsOf, hnarrow] at h
    rw [← freeCount_slotsOf] at h'
    rw [hcovered, hobeying, hnarrow, Binding.filter_remaining_narrow h h']
  refine ⟨r, r', e, e', hr, hr', he, he', halike, hceased, ?_⟩
  by_cases h : 2 ≤ (f.freeKeys r).length ∨ (f.freeKeys r').length ≤ 1
  · rw [halike h]
  · rw [← hceased (by omega) (by omega)]
    exact List.filter_sublist

/-! ## A mutation that ceases to count -/

/-- Scalars, and vectors of four. -/
def quads : Selection := ⟨.ofList ["scalar", "vector"], .ofList ["float"], .ofList [1, 4]⟩

theorem quads_within : quads.Within (.allOf .diamond) := by
  have hlists : ∀ {α : Type} [LT α] [DecidableEq α] {a b : SortedSet α},
      (a.toList.all fun v => decide (v ∈ b)) = true → ∀ v ∈ a, v ∈ b := by
    intro α _ _ a b h v hv
    simpa using List.all_eq_true.mp h v hv
  exact ⟨hlists (by decide +kernel), hlists (by decide +kernel), hlists (by decide +kernel)⟩

theorem valid_mix : mix.Valid (· ∈ Catalog.diamond.keys) := by
  refine ⟨.inl rfl, nofun, fun m hm => ?_, by decide⟩
  obtain rfl := List.mem_singleton.mp hm
  exact ⟨⟨.sameShape, by decide +kernel⟩, by decide, by decide⟩

/-- The overloads of `mix` for given leaves of its two keys. -/
theorem overloads_mix {wide narrow : List TypeEntry} (hwide : r.get? "wide" = some wide)
    (hnarrow : r.get? "narrow" = some narrow) (he : ofSignature r mix = .ok e) :
    e.overloads =
      overloadsOf mix [("wide", wide), ("narrow", narrow)] [⟨"wide", "narrow", .sameShape⟩] := by
  have hslots : Expansion.slots r mix = .ok [("wide", wide), ("narrow", narrow)] :=
    slots_eq_ok.mpr (.cons ⟨rfl, hwide⟩ (.cons ⟨rfl, hnarrow⟩ .nil))
  have heval : ofSignature r mix = .ok _ := ofSignature_eq_ok.mpr ⟨none,
    [⟨"wide", "narrow", .sameShape⟩], _, rfl, rfl, by decide +kernel, hslots, rfl⟩
  rw [he] at heval
  cases heval
  rfl

theorem freeKeys_mix {wide narrow : List TypeEntry} (hwide : r.get? "wide" = some wide)
    (hnarrow : r.get? "narrow" = some narrow) : mix.freeKeys r =
      ([("wide", wide), ("narrow", narrow)].filter (·.2.length != 1)).map (·.1) := by
  have hkeys : mix.distinctKeys = ["wide", "narrow"] := by decide
  rw [Signature.freeKeys, hkeys]
  by_cases hw : wide.length = 1 <;> by_cases hn : narrow.length = 1 <;>
    simp [Resolution.leavesOf, hwide, hnarrow, hw, hn]

/-- With one leaf for each key, `mix` has an overload that the wider selection rejects. -/
theorem mix_quads (hr : Resolution.ofCatalog .diamond quads = .ok r)
    (he : ofSignature r mix = .ok e) : mix.freeKeys r = [] ∧
      e.overloads.map Overload.text = ["sycl::float4 sycl::mix(sycl::float4, float)"] ∧
      e.overloads.filter (·.obeysMutations) = [] := by
  have hwide : r.get? "wide" = some [.leaf "float4" "sycl::float4" "vector" "float" 4] :=
    Catalog.get?_of_visitWithin hr (by decide) (by decide +kernel)
  have hnarrow : r.get? "narrow" = some [.leaf "float" "float" "scalar" "float" 1] :=
    Catalog.get?_of_visitWithin hr (by decide) (by decide +kernel)
  rw [freeKeys_mix hwide hnarrow, overloads_mix hwide hnarrow he]
  exact ⟨rfl, by decide +kernel, by decide +kernel⟩

theorem mix_allOf (hr : Resolution.ofCatalog .diamond (.allOf .diamond) = .ok r)
    (he : ofSignature r mix = .ok e) : mix.freeKeys r = ["wide", "narrow"] ∧
      e.overloads.map Overload.text = ["sycl::float2 sycl::mix(sycl::float2, sycl::float2)"] ∧
      e.overloads.filter (·.coveredBy quads) = [] := by
  have hwide : r.get? "wide" = some [.leaf "float4" "sycl::float4" "vector" "float" 4,
      .leaf "float2" "sycl::float2" "vector" "float" 2] :=
    Catalog.get?_of_visitWithin hr (by decide) (by decide +kernel)
  have hnarrow : r.get? "narrow" = some [.leaf "float" "float" "scalar" "float" 1,
      .leaf "float2" "sycl::float2" "vector" "float" 2] :=
    Catalog.get?_of_visitWithin hr (by decide) (by decide +kernel)
  rw [freeKeys_mix hwide hnarrow, overloads_mix hwide hnarrow he]
  exact ⟨rfl, by decide +kernel, by decide +kernel⟩

/-- `mix` loses its overload of `float2` with the selection of `quads`, and the one that is left
violates the mutation. -/
theorem ofSignature_narrower_mix :
    Catalog.diamond.Acyclic ∧ quads.Within (.allOf .diamond) ∧
      mix.Valid (· ∈ Catalog.diamond.keys) ∧ ∃ r r' e e',
        Resolution.ofCatalog .diamond quads = .ok r ∧
        Resolution.ofCatalog .diamond (.allOf .diamond) = .ok r' ∧
        ofSignature r mix = .ok e ∧ ofSignature r' mix = .ok e' ∧
        (mix.freeKeys r).length ≤ 1 ∧ 2 ≤ (mix.freeKeys r').length ∧
        e.overloads.filter (·.obeysMutations) = e'.overloads.filter (·.coveredBy quads) := by
  have hacyclic : Catalog.diamond.Acyclic := by decide +kernel
  obtain ⟨r, r', e, e', hr, hr', he, he', -, hceased, -⟩ :=
    ofSignature_narrower hacyclic quads_within valid_mix
  have hfew : (mix.freeKeys r).length ≤ 1 := by simp [(mix_quads hr he).1]
  have htwo : 2 ≤ (mix.freeKeys r').length := by simp [(mix_allOf hr' he').1]
  exact ⟨hacyclic, quads_within, valid_mix, r, r', e, e', hr, hr', he, he', hfew, htwo,
    hceased hfew htwo⟩

/-- A narrower selection does not always filter: under `quads` there is an overload of `mix` that
the selection of all leaves rejects for its mutation. -/
theorem not_forall_overloads_eq_filter : ¬∀ (c : Catalog) (s s' : Selection) (f : Signature)
    (r r' : Resolution) (e e' : Expansion), c.Acyclic → s.Within s' → f.Valid (· ∈ c.keys) →
      Resolution.ofCatalog c s = .ok r → Resolution.ofCatalog c s' = .ok r' →
      ofSignature r f = .ok e → ofSignature r' f = .ok e' →
      e.overloads = e'.overloads.filter (·.coveredBy s) := by
  intro h
  have hacyclic : Catalog.diamond.Acyclic := by decide +kernel
  obtain ⟨r, hr⟩ := (Catalog.ofCatalog_eq_ok (s := quads)).mpr hacyclic
  obtain ⟨r', hr'⟩ := (Catalog.ofCatalog_eq_ok (s := .allOf .diamond)).mpr hacyclic
  obtain ⟨e, he⟩ := (exists_ofSignature_ofCatalog_eq_ok hr).mpr valid_mix
  obtain ⟨e', he'⟩ := (exists_ofSignature_ofCatalog_eq_ok hr').mpr valid_mix
  have hsame := h _ _ _ _ _ _ _ _ hacyclic quads_within valid_mix hr hr' he he'
  have htexts := (mix_quads hr he).2.1
  rw [hsame, (mix_allOf hr' he').2.2] at htexts
  cases htexts

end Expansion

end OverloadSuite
