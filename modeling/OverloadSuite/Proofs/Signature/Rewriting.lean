import OverloadSuite.Proofs.Signature.Narrowing

/-!
# How mutations are written

A rule relates two types whatever their order, and no element type is in two size classes, so that a
mutation means the same with its keys exchanged, and several mutations mean the same in
any order and however often each is written. The expansion of a signature depends on
what its mutations mean only.
-/

namespace OverloadSuite

open Outcome

/-! ## The relations between types -/

theorem sameSize_iff {a b : String} : sameSize a b = true ↔
    ∃ members ∈ sizeClasses, a ∈ members ∧ b ∈ members := by
  simp [sameSize]

/-- No element type is a member of two size classes. -/
theorem sizeClass_unique : ∀ members ∈ sizeClasses, ∀ members' ∈ sizeClasses,
    ∀ a ∈ members, a ∈ members' → members = members' := by
  decide +kernel

theorem sameSize_comm (a b : String) : sameSize a b = sameSize b a := by
  simp only [sameSize, Bool.and_comm]

/-- The class of the element type in the middle holds all three. -/
theorem sameSize_trans {a b c : String} (h : sameSize a b = true) (h' : sameSize b c = true) :
    sameSize a c = true := by
  obtain ⟨members, hmembers, ha, hb⟩ := sameSize_iff.mp h
  obtain ⟨members', hmembers', hb', hc⟩ := sameSize_iff.mp h'
  obtain rfl := sizeClass_unique members hmembers members' hmembers' b hb hb'
  exact sameSize_iff.mpr ⟨members, hmembers, ha, hc⟩

namespace PairRule

variable {rule : PairRule} {a b c : TypeEntry}

theorem permits_comm (rule : PairRule) (a b : TypeEntry) : rule.permits a b = rule.permits b a := by
  cases rule with
  | sameBase => exact BEq.comm
  | sameShape => simp only [permits, BEq.comm (a := a.varType), BEq.comm (a := a.dim)]
  | sameShapeAndSize =>
    simp only [permits, BEq.comm (a := a.varType), BEq.comm (a := a.dim), sameSize_comm a.base]

theorem permits_trans (h : rule.permits a b = true) (h' : rule.permits b c = true) :
    rule.permits a c = true := by
  cases rule with
  | sameBase =>
    simp only [permits, beq_iff_eq] at h h' ⊢
    exact h.trans h'
  | sameShape =>
    simp only [permits, Bool.and_eq_true, beq_iff_eq] at h h' ⊢
    exact ⟨h.1.trans h'.1, h.2.trans h'.2⟩
  | sameShapeAndSize =>
    simp only [permits, Bool.and_eq_true, beq_iff_eq] at h h' ⊢
    exact ⟨⟨h.1.1.trans h'.1.1, h.1.2.trans h'.1.2⟩, sameSize_trans h.2 h'.2⟩

theorem permits_sameShape (h : sameShapeAndSize.permits a b = true) :
    sameShape.permits a b = true := by
  simp only [permits, Bool.and_eq_true] at h ⊢
  exact h.1

end PairRule

/-! ## Lists of mutations -/

namespace Mutation

variable {m : Mutation} {ms ms' before after : List Mutation}

/-- The mutation with its two keys exchanged. -/
def exchange (m : Mutation) : Mutation := { m with base := m.derived, derived := m.base }

/-- One list of mutations is written as another one: in some other order, with some of them
repeated, or with the keys of some of them exchanged. -/
inductive Rewritten : List Mutation → List Mutation → Prop
  | permuted {ms ms' : List Mutation} : ms.Perm ms' → Rewritten ms ms'
  | repeated {ms : List Mutation} {m : Mutation} : m ∈ ms → Rewritten ms (m :: ms)
  | exchanged {before after : List Mutation} {m : Mutation} :
    Rewritten (before ++ m :: after) (before ++ m.exchange :: after)
  | symm {ms ms' : List Mutation} : Rewritten ms ms' → Rewritten ms' ms
  | trans {ms ms' ms'' : List Mutation} : Rewritten ms ms' → Rewritten ms' ms'' → Rewritten ms ms''

/-- A list of mutations holds a mutation or the exchanged one. -/
def Holds (ms : List Mutation) (m : Mutation) : Prop := m ∈ ms ∨ m.exchange ∈ ms

@[simp] theorem exchange_exchange (m : Mutation) : m.exchange.exchange = m := rfl

theorem exchange_eq_comm {m m' : Mutation} : m.exchange = m' ↔ m = m'.exchange :=
  ⟨fun h => h ▸ rfl, fun h => h ▸ rfl⟩

/-- However mutations are written, the same ones are held. -/
theorem Rewritten.holds_iff (h : Rewritten ms ms') (m : Mutation) : Holds ms m ↔ Holds ms' m := by
  induction h with
  | permuted h => simp [Holds, h.mem_iff]
  | @repeated ms m' hmem =>
    simp only [Holds, List.mem_cons, exchange_eq_comm]
    constructor
    · exact fun h => h.imp .inr .inr
    · rintro ((rfl | h) | (rfl | h))
      · exact .inl hmem
      · exact .inl h
      · exact .inr hmem
      · exact .inr h
  | @exchanged before after m' =>
    simp only [Holds, List.mem_append, List.mem_cons, exchange_eq_comm, exchange_exchange]
    tauto
  | symm _ ih => exact ih.symm
  | trans _ _ ih ih' => exact ih.trans ih'

end Mutation

/-! ## What constraints demand -/

namespace Binding

variable {b : Binding} {d d' : Constraint}

/-- Which of the two types a constraint calls the base plays no part. -/
theorem satisfies_exchanged (hbase : d.base = d'.derived) (hderived : d.derived = d'.base)
    (hrule : d.rule = d'.rule) : b.satisfies d = b.satisfies d' := by
  rw [satisfies, satisfies, hbase, hderived, hrule]
  cases b.lookup d'.base <;> cases b.lookup d'.derived <;> simp [PairRule.permits_comm]

end Binding

namespace Signature

variable {f : Signature} {ms ms' : List Mutation} {ds ds' : List Constraint} {b : Binding}
  {known : String → Prop}

/-- The signature with other mutations. -/
def withMutations (f : Signature) (ms : List Mutation) : Signature := { f with mutations := ms }

theorem Valid.withMutations (hf : f.Valid known) (h : Mutation.Rewritten f.mutations ms) :
    (f.withMutations ms).Valid known := by
  refine ⟨hf.pointers, hf.reference, fun m hm => ?_, hf.keys⟩
  rcases (h.holds_iff m).mpr (.inl hm) with hmem | hmem
  · exact hf.mutations m hmem
  · obtain ⟨hrule, hderived, hbase⟩ := hf.mutations m.exchange hmem
    exact ⟨hrule, hbase, hderived⟩

/-- A binding that satisfies what some mutations demand satisfies what others demand, if all of
these are held by the former ones. -/
theorem satisfies_of_holds (hds : List.Forall₂ (fun m d => f.constraint m = .ok d) ms ds)
    (hds' : List.Forall₂ (fun m d => f.constraint m = .ok d) ms' ds')
    (hholds : ∀ m ∈ ms', Mutation.Holds ms m) (hall : ds.all b.satisfies = true) :
    ds'.all b.satisfies = true := by
  rw [List.all_eq_true] at hall ⊢
  intro d' hd'
  obtain ⟨m, hm, hconstraint'⟩ := exists_of_forall₂_right hds' hd'
  obtain ⟨hrule', hbase', hderived', -, -⟩ := constraint_eq_ok.mp hconstraint'
  -- the mutation is demanded as it is, or with its keys exchanged
  rcases hholds m hm with hmem | hmem
  · obtain ⟨d, hd, hconstraint⟩ := exists_of_forall₂ hds hmem
    obtain rfl := Except.ok.inj (hconstraint.symm.trans hconstraint')
    exact hall d hd
  · obtain ⟨d, hd, hconstraint⟩ := exists_of_forall₂ hds hmem
    obtain ⟨hrule, hbase, hderived, -, -⟩ := constraint_eq_ok.mp hconstraint
    have hsame : d.rule = d'.rule := Option.some.inj (hrule.symm.trans hrule')
    rw [← Binding.satisfies_exchanged (hbase.trans hderived'.symm) (hderived.trans hbase'.symm)
      hsame]
    exact hall d hd

theorem all_satisfies_eq (hds : f.constraints = .ok ds)
    (hds' : (f.withMutations ms).constraints = .ok ds')
    (h : Mutation.Rewritten f.mutations ms) (b : Binding) :
    ds.all b.satisfies = ds'.all b.satisfies := by
  have hpairs := constraints_eq_ok.mp hds
  have hpairs' : List.Forall₂ (fun m d => f.constraint m = .ok d) ms ds' :=
    constraints_eq_ok.mp hds'
  rw [Bool.eq_iff_iff]
  exact ⟨satisfies_of_holds hpairs hpairs' fun m hm => (h.holds_iff m).mpr (.inl hm),
    satisfies_of_holds hpairs' hpairs fun m hm => (h.holds_iff m).mp (.inl hm)⟩

end Signature

/-! ## The expansion -/

namespace Expansion

variable {r : Resolution} {f : Signature} {ms : List Mutation} {ds ds' : List Constraint}
  {slots : List (String × List TypeEntry)}

theorem overload?_withMutations (b : Binding) : b.overload? (f.withMutations ms) =
    (b.overload? f).map fun o => { o with template := f.withMutations ms } := by
  show (b.lookup f.returnKey).bind _ = ((b.lookup f.returnKey).bind _).map _
  cases b.lookup f.returnKey with
  | none => rfl
  | some returnType =>
    show (f.argKeys.mapM fun key => b.lookup key).bind _ =
      ((f.argKeys.mapM fun key => b.lookup key).bind _).map _
    cases f.argKeys.mapM fun key => b.lookup key <;> rfl

theorem overloadsOf_withMutations (h : ∀ b : Binding, ds.all b.satisfies = ds'.all b.satisfies) :
    overloadsOf (f.withMutations ms) slots ds' =
      (overloadsOf f slots ds).map fun o => { o with template := f.withMutations ms } := by
  have hremaining : Binding.remaining slots ds' = Binding.remaining slots ds := by
    simp only [Binding.remaining, h]
  rw [overloadsOf_eq_filterMap_remaining, overloadsOf_eq_filterMap_remaining, hremaining,
    List.map_filterMap]
  simp only [overload?_withMutations]

/-- **How mutations are written does not matter.** The rules are symmetric and transitive,
and one of them implies another. A valid signature keeps its overloads, but for the template
that they refer to, and what is said about it, when its mutations are permuted, repeated or
have their keys exchanged. -/
theorem ofSignature_rewritten :
    (∀ (rule : PairRule) a b, rule.permits a b = rule.permits b a) ∧
    (∀ (rule : PairRule) a b c, rule.permits a b = true → rule.permits b c = true →
      rule.permits a c = true) ∧
    (∀ a b, PairRule.sameShapeAndSize.permits a b = true →
      PairRule.sameShape.permits a b = true) ∧
    ∀ (r : Resolution) (f : Signature) (ms : List Mutation),
      (f.Valid fun key => ∃ leaves, r.get? key = some leaves) →
      Mutation.Rewritten f.mutations ms →
      ∃ e e', ofSignature r f = .ok e ∧ ofSignature r (f.withMutations ms) = .ok e' ∧
        e'.overloads = e.overloads.map (fun o => { o with template := f.withMutations ms }) ∧
        e'.diagnostics = e.diagnostics := by
  refine ⟨PairRule.permits_comm, fun rule a b c => PairRule.permits_trans,
    fun a b => PairRule.permits_sameShape, fun r f ms hf h => ?_⟩
  obtain ⟨e, he⟩ := exists_ofSignature_eq_ok.mpr hf
  obtain ⟨e', he'⟩ := exists_ofSignature_eq_ok.mpr (hf.withMutations h)
  refine ⟨e, e', he, he', ?_⟩
  obtain ⟨_, ds, slots, -, -, hds, hslots, rfl⟩ := ofSignature_eq_ok.mp he
  obtain ⟨_, ds', slots', -, -, hds', hslots', rfl⟩ := ofSignature_eq_ok.mp he'
  -- the keys are the same, and so are their slots
  obtain rfl : slots = slots' := Except.ok.inj (hslots.symm.trans hslots')
  have hoverloads : overloadsOf (f.withMutations ms) slots ds' =
      (overloadsOf f slots ds).map fun o => { o with template := f.withMutations ms } :=
    overloadsOf_withMutations (Signature.all_satisfies_eq hds hds' h)
  refine ⟨hoverloads, ?_⟩
  simp only [remarks, hoverloads, List.map_eq_nil_iff]
  rfl

/-- The mutation of `mix` twice, with its keys exchanged. -/
def mixMutations : List Mutation :=
  [⟨"narrow", "wide", "base_type"⟩, ⟨"narrow", "wide", "base_type"⟩]

/-- The overloads of `mix` stay when its mutation is written twice, with the keys exchanged. -/
theorem ofSignature_rewritten_mix :
    Mutation.Rewritten mix.mutations mixMutations ∧
      ∃ r e e', Resolution.ofCatalog .diamond (.allOf .diamond) = .ok r ∧
        ofSignature r mix = .ok e ∧ ofSignature r (mix.withMutations mixMutations) = .ok e' ∧
        e'.overloads =
          e.overloads.map fun o => { o with template := mix.withMutations mixMutations } := by
  have hexchanged : Mutation.Rewritten mix.mutations [⟨"narrow", "wide", "base_type"⟩] :=
    @Mutation.Rewritten.exchanged [] [] ⟨"wide", "narrow", "base_type"⟩
  have hrewritten : Mutation.Rewritten mix.mutations mixMutations :=
    hexchanged.trans (.repeated (List.mem_singleton_self _))
  obtain ⟨r, hr⟩ := (Catalog.ofCatalog_eq_ok (s := .allOf .diamond)).mpr
    (by decide +kernel : Catalog.diamond.Acyclic)
  have hvalid : mix.Valid fun key => ∃ leaves, r.get? key = some leaves := by
    simpa only [Catalog.exists_get?_ofCatalog hr] using valid_mix
  obtain ⟨e, e', he, he', hoverloads, -⟩ :=
    ofSignature_rewritten.2.2.2 r mix mixMutations hvalid hrewritten
  exact ⟨hrewritten, r, e, e', hr, he, he', hoverloads⟩

end Expansion

end OverloadSuite
