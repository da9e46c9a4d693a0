import OverloadSuite.Proofs.Catalog.FirstVisits
import OverloadSuite.Proofs.Signature.Validity

/-!
# The product of a signature's leaves

The overloads of a signature are specified by choices. A choice holds one position for each distinct
key, in the order of their first mention; choices are compared like words. Expansion knows no
positions: it makes bindings of types. Written side by side, the choices in ascending order and the
bindings pick the same types, and dropping choices and bindings keeps them side by side.
-/

namespace OverloadSuite

open Outcome FirstOccurrences

/-- The leaves of a key, none if it is unknown. -/
def Resolution.leavesOf (r : Resolution) (key : String) : List TypeEntry := (r.get? key).getD []

namespace Signature

variable {r : Resolution} {f : Signature} {p q : List Nat} {key : String} {o o' : Overload}

/-! ## Choices -/

/-- The keys of a signature, each once, in the order of their first mention. -/
def distinctKeys (f : Signature) : List String := f.keys.eraseDups

/-- The keys that are free: they do not have exactly one leaf. -/
def freeKeys (f : Signature) (r : Resolution) : List String :=
  f.distinctKeys.filter fun key => (r.leavesOf key).length != 1

/-- A choice of a position for each distinct key, within the leaves of the key. -/
def IsChoice (f : Signature) (r : Resolution) (p : List Nat) : Prop :=
  List.Forall₂ (· < ·) p (f.distinctKeys.map fun key => (r.leavesOf key).length)

/-- The type that a choice binds to a key. -/
def chosen? (f : Signature) (r : Resolution) (p : List Nat) (key : String) : Option TypeEntry := do
  let position ← p[f.distinctKeys.idxOf key]?
  (r.leavesOf key)[position]?

/-- A choice respects a mutation if the rule permits the types that are chosen for the two keys. -/
def respects (f : Signature) (r : Resolution) (p : List Nat) (m : Mutation) : Bool :=
  match PairRule.ofName? m.rule, f.chosen? r p m.base, f.chosen? r p m.derived with
  | some rule, some base, some derived => rule.permits base derived
  | _, _, _ => false

/-- An overload realizes a choice if every argument and the result have the type that is chosen for
their own key. -/
structure Realizes (f : Signature) (r : Resolution) (p : List Nat) (o : Overload) : Prop where
  template : o.template = f
  returnType : f.chosen? r p f.returnKey = some o.returnType
  argTypes : List.Forall₂ (fun key t => f.chosen? r p key = some t) f.argKeys o.argTypes

theorem mem_distinctKeys : key ∈ f.distinctKeys ↔ key ∈ f.keys := List.mem_eraseDups

theorem nodup_distinctKeys : f.distinctKeys.Nodup := nodup_eraseDups _

theorem IsChoice.length_eq (hp : f.IsChoice r p) : p.length = f.distinctKeys.length := by
  simpa using List.Forall₂.length_eq hp

/-- A choice picks a leaf for every key of the signature. -/
theorem IsChoice.exists_chosen (hp : f.IsChoice r p) (hkey : key ∈ f.keys) :
    ∃ t, f.chosen? r p key = some t := by
  have hplace : f.distinctKeys.idxOf key < f.distinctKeys.length :=
    List.idxOf_lt_length_of_mem (mem_distinctKeys.mpr hkey)
  have hlen := hp.length_eq
  have hplace' : f.distinctKeys.idxOf key < p.length := by omega
  have hbelow := List.Forall₂.get hp hplace' (by simpa using hplace)
  simp only [List.get_eq_getElem, List.getElem_map, List.getElem_idxOf] at hbelow
  refine ⟨(r.leavesOf key)[p[f.distinctKeys.idxOf key]], ?_⟩
  simp [chosen?, List.getElem?_eq_getElem hplace']

/-- Choices are equal if they hold the same position for every key: each place of a choice belongs
to a key of the signature. -/
theorem IsChoice.ext (hp : f.IsChoice r p) (hq : f.IsChoice r q)
    (h : ∀ key ∈ f.keys, p[f.distinctKeys.idxOf key]? = q[f.distinctKeys.idxOf key]?) :
    p = q := by
  have hlen := hp.length_eq
  have hlen' := hq.length_eq
  apply List.ext_getElem?
  intro i
  by_cases hi : i < f.distinctKeys.length
  · have hkey := h f.distinctKeys[i] (mem_distinctKeys.mp (List.getElem_mem hi))
    rwa [nodup_distinctKeys.idxOf_getElem] at hkey
  · rw [List.getElem?_eq_none (by omega), List.getElem?_eq_none (by omega)]

/-- Choices that bind types with the same key to a key hold the same position for it. -/
theorem position_eq {t t' : TypeEntry} (hnodup : ((r.leavesOf key).map TypeEntry.key).Nodup)
    (ht : f.chosen? r p key = some t) (ht' : f.chosen? r q key = some t') (h : t.key = t'.key) :
    p[f.distinctKeys.idxOf key]? = q[f.distinctKeys.idxOf key]? := by
  obtain ⟨i, hi, hti⟩ := Option.bind_eq_some_iff.mp ht
  obtain ⟨j, hj, htj⟩ := Option.bind_eq_some_iff.mp ht'
  have hlt : i < ((r.leavesOf key).map TypeEntry.key).length := by
    obtain ⟨hlt, -⟩ := List.getElem?_eq_some_iff.mp hti
    simpa using hlt
  have heq : i = j := (List.getElem?_inj hlt hnodup).mp (by simp [hti, htj, h])
  rw [hi, hj, heq]

/-- Overloads that are the same realize the same choice. -/
theorem Realizes.choice_eq (hnodup : ∀ key ∈ f.keys, ((r.leavesOf key).map TypeEntry.key).Nodup)
    (hp : f.IsChoice r p) (hq : f.IsChoice r q) (ho : f.Realizes r p o) (ho' : f.Realizes r q o')
    (hsame : o.same o' = true) : p = q := by
  have hidentity : o.identity = o'.identity := by simpa [Overload.same] using hsame
  have hreturn : o.returnType.key = o'.returnType.key := congrArg (·.returnKey) hidentity
  have hargs : o.argKeys = o'.argKeys := congrArg (·.argKeys) hidentity
  -- the identities agree on the type of each argument and of the result, so the positions agree
  apply hp.ext hq
  intro key hkey
  rcases List.mem_append.mp hkey with hkey' | hkey'
  · obtain ⟨i, hi, rfl⟩ := List.getElem_of_mem hkey'
    have hlen := ho.argTypes.length_eq
    have hlen' := ho'.argTypes.length_eq
    have ht := ho.argTypes.get hi (by omega)
    have ht' := ho'.argTypes.get hi (by omega)
    apply position_eq (hnodup _ hkey) ht ht'
    have harg := congrArg (·[i]?) hargs
    simpa [Overload.argKeys, List.getElem?_eq_getElem, ← hlen, ← hlen', hi] using harg
  · obtain rfl := List.mem_singleton.mp hkey'
    exact position_eq (hnodup _ hkey) ho.returnType ho'.returnType hreturn

/-! ## All choices in ascending order -/

/-- The rows of positions below bounds, the last position varying fastest. -/
def choices : List Nat → List (List Nat)
  | [] => [[]]
  | n :: ns => (List.range n).flatMap fun i => (choices ns).map (i :: ·)

theorem mem_choices {ns : List Nat} : p ∈ choices ns ↔ List.Forall₂ (· < ·) p ns := by
  induction ns generalizing p with
  | nil => simp [choices]
  | cons n ns ih =>
    rw [choices, List.mem_flatMap, List.forall₂_cons_right_iff]
    constructor
    · intro h
      obtain ⟨i, hi, hp⟩ := h
      obtain ⟨q, hq, rfl⟩ := List.mem_map.mp hp
      exact ⟨i, q, List.mem_range.mp hi, ih.mp hq, rfl⟩
    · intro h
      obtain ⟨i, q, hi, hq, rfl⟩ := h
      exact ⟨i, List.mem_range.mpr hi, List.mem_map_of_mem (ih.mpr hq)⟩

theorem pairwise_choices (ns : List Nat) : (choices ns).Pairwise (List.Lex (· < ·)) := by
  induction ns with
  | nil => exact List.pairwise_singleton ..
  | cons n ns ih =>
    rw [choices, List.pairwise_flatMap]
    constructor
    · intro i _
      rw [List.pairwise_map]
      exact ih.imp .cons
    · refine List.pairwise_lt_range.imp fun hlt => ?_
      intro p hp q hq
      obtain ⟨_, -, rfl⟩ := List.mem_map.mp hp
      obtain ⟨_, -, rfl⟩ := List.mem_map.mp hq
      exact .rel hlt

end Signature

/-! ## Choices and bindings side by side -/

namespace Binding

variable {leaves : String → List TypeEntry} {keys : List String} {p : List Nat} {b : Binding}

/-- A row of positions picks a binding: the types that stand at the positions. -/
inductive Picks (leaves : String → List TypeEntry) : List String → List Nat → Binding → Prop
  | nil : Picks leaves [] [] []
  | cons {key : String} {keys : List String} {i : Nat} {p : List Nat} {t : TypeEntry}
    {b : Binding} : (leaves key)[i]? = some t → Picks leaves keys p b →
      Picks leaves (key :: keys) (i :: p) ((key, t) :: b)

theorem Picks.forall₂_lt (h : Picks leaves keys p b) :
    List.Forall₂ (· < ·) p (keys.map fun key => (leaves key).length) := by
  induction h with
  | nil => exact .nil
  | cons ht _ ih =>
    obtain ⟨hlt, -⟩ := List.getElem?_eq_some_iff.mp ht
    exact .cons hlt ih

/-- A binding binds to a key the type at the position of the key's place. -/
theorem Picks.lookup (h : Picks leaves keys p b) (key : String) :
    b.lookup key = p[keys.idxOf key]?.bind fun i => (leaves key)[i]? := by
  induction h with
  | nil => rfl
  | @cons key' keys i p t b ht _ ih =>
    rw [List.lookup_cons, List.idxOf_cons]
    by_cases hkey : key' = key
    · subst hkey
      simp [ht]
    · have hne : (key == key') = false := by simpa using fun h => hkey h.symm
      have hne' : (key' == key) = false := by simpa using hkey
      simp [hne, hne', ih]

/-- The choices in ascending order pick the bindings in the order of their enumeration. -/
theorem forall₂_picks (leaves : String → List TypeEntry) (keys : List String) :
    List.Forall₂ (Picks leaves keys) (Signature.choices (keys.map fun key => (leaves key).length))
      (all (keys.map fun key => (key, leaves key))) := by
  induction keys with
  | nil => exact .cons .nil .nil
  | cons key keys ih =>
    rw [List.map_cons, List.map_cons, all_cons, Signature.choices]
    -- a position and the leaf that stands there are put before the choices and bindings of the rest
    refine List.rel_flatMap (forall₂_range (leaves key)) fun i t ht => ?_
    exact List.rel_map (fun _ _ h => .cons ht h) ih

end Binding

/-! ## The overloads of a signature -/

namespace Signature

variable {r : Resolution} {f : Signature} {p : List Nat} {b : Binding}

/-- The choices that remain, in ascending order. -/
def remainingChoices (f : Signature) (r : Resolution) : List (List Nat) :=
  (choices (f.distinctKeys.map fun key => (r.leavesOf key).length)).filter fun p =>
    decide (2 ≤ (f.freeKeys r).length → ∀ m ∈ f.mutations, f.respects r p m = true)

theorem mem_remainingChoices : p ∈ f.remainingChoices r ↔
    f.IsChoice r p ∧
      (2 ≤ (f.freeKeys r).length → ∀ m ∈ f.mutations, f.respects r p m = true) := by
  rw [remainingChoices, List.mem_filter, mem_choices, decide_eq_true_iff, IsChoice]

theorem pairwise_remainingChoices (f : Signature) (r : Resolution) :
    (f.remainingChoices r).Pairwise (List.Lex (· < ·)) :=
  (pairwise_choices _).filter _

theorem chosen?_eq_lookup (h : Binding.Picks r.leavesOf f.distinctKeys p b) (key : String) :
    f.chosen? r p key = b.lookup key :=
  (h.lookup key).symm

/-- A choice respects a mutation if the binding satisfies what the mutation demands. -/
theorem respects_eq_satisfies (h : Binding.Picks r.leavesOf f.distinctKeys p b) {m : Mutation}
    {d : Constraint} (hd : f.constraint m = .ok d) : f.respects r p m = b.satisfies d := by
  obtain ⟨hrule, hbase, hderived, -, -⟩ := constraint_eq_ok.mp hd
  rw [respects, Binding.satisfies, hrule, hbase, hderived, chosen?_eq_lookup h,
    chosen?_eq_lookup h]
  cases b.lookup m.base <;> cases b.lookup m.derived <;> rfl

theorem forall_respects_iff (h : Binding.Picks r.leavesOf f.distinctKeys p b)
    {ds : List Constraint} (hds : f.constraints = .ok ds) :
    (∀ m ∈ f.mutations, f.respects r p m = true) ↔ ds.all b.satisfies = true := by
  have hpairs := constraints_eq_ok.mp hds
  rw [List.all_eq_true]
  constructor
  · intro hall d hd
    obtain ⟨m, hm, hmd⟩ := exists_of_forall₂_right hpairs hd
    rw [← respects_eq_satisfies h hmd]
    exact hall m hm
  · intro hall m hm
    obtain ⟨d, hd, hmd⟩ := exists_of_forall₂ hpairs hm
    rw [respects_eq_satisfies h hmd]
    exact hall d hd

/-- The choices that remain pick the bindings that remain. -/
theorem forall₂_remaining {ds : List Constraint} (hds : f.constraints = .ok ds) :
    List.Forall₂ (Binding.Picks r.leavesOf f.distinctKeys) (f.remainingChoices r)
      (Binding.remaining (f.distinctKeys.map fun key => (key, r.leavesOf key)) ds) := by
  have hpicks := Binding.forall₂_picks r.leavesOf f.distinctKeys
  have hfree : (f.distinctKeys.map fun key => (key, r.leavesOf key)).countP (·.2.length != 1) =
      (f.freeKeys r).length := by
    rw [List.countP_map, freeKeys, List.countP_eq_length_filter]
    rfl
  rw [remainingChoices, Binding.remaining, hfree]
  split
  · rename_i htwo
    -- side by side, a choice and a binding pass the filter or fail it together
    refine List.rel_filter (fun p b h => ?_) hpicks
    simp only [decide_eq_true_iff, ← forall_respects_iff h hds]
    exact ⟨fun h => h htwo, fun h _ => h⟩
  · rename_i hfew
    rw [List.filter_eq_self.mpr fun p _ => by simp [hfew]]
    exact hpicks

/-- A binding that binds all keys of a signature gives an overload with the types that it binds. -/
theorem exists_overload?_eq_some (h : ∀ key ∈ f.keys, ∃ t, b.lookup key = some t) :
    ∃ returnType argTypes, b.overload? f = some ⟨f, returnType, argTypes⟩ ∧
      b.lookup f.returnKey = some returnType ∧
      List.Forall₂ (fun key t => b.lookup key = some t) f.argKeys argTypes := by
  obtain ⟨returnType, hreturn⟩ := h f.returnKey (by simp [keys])
  obtain ⟨argTypes, hmap, hargs⟩ :=
    exists_mapM_eq_some fun key (hkey : key ∈ f.argKeys) => h key (by simp [keys, hkey])
  exact ⟨returnType, argTypes, by simp [Binding.overload?, hreturn, hmap], hreturn, hargs⟩

/-- A binding that a choice picks gives the overload that realizes the choice. -/
theorem exists_realizes (h : Binding.Picks r.leavesOf f.distinctKeys p b) :
    ∃ o, b.overload? f = some o ∧ f.Realizes r p o := by
  -- the binding binds every key that the overload asks for, so nothing is dropped
  have hlookup : ∀ key ∈ f.keys, ∃ t, b.lookup key = some t := by
    intro key hkey
    rw [← chosen?_eq_lookup h]
    exact IsChoice.exists_chosen h.forall₂_lt hkey
  obtain ⟨returnType, argTypes, ho, hreturn, hargs⟩ := exists_overload?_eq_some hlookup
  refine ⟨⟨f, returnType, argTypes⟩, ho, rfl, ?_, ?_⟩
  · rw [chosen?_eq_lookup h, hreturn]
  · exact hargs.imp fun key t ht => (chosen?_eq_lookup h key).trans ht

end Signature

namespace Expansion

variable {c : Catalog} {s : Selection} {r : Resolution} {f : Signature} {e : Expansion}

/-- The slots of a signature pair its distinct keys with their leaves. -/
theorem slots_eq_map {slots : List (String × List TypeEntry)}
    (h : Expansion.slots r f = .ok slots) :
    slots = f.distinctKeys.map fun key => (key, r.leavesOf key) := by
  have hpairs := slots_eq_ok.mp h
  rw [← List.forall₂_eq_eq_eq, List.forall₂_map_right_iff]
  refine (hpairs.imp ?_).flip
  rintro key ⟨_, leaves⟩ ⟨rfl, hleaves⟩
  simp [flip, Resolution.leavesOf, hleaves]

/-- The overloads of a signature realize the choices that remain, in ascending order. -/
theorem forall₂_realizes (h : ofSignature r f = .ok e) :
    List.Forall₂ (fun p o => f.IsChoice r p ∧ f.Realizes r p o) (f.remainingChoices r)
      e.overloads := by
  obtain ⟨-, ds, slots, -, -, hds, hslots, rfl⟩ := ofSignature_eq_ok.mp h
  rw [slots_eq_map hslots, overloadsOf_eq_filterMap_remaining]
  refine forall₂_filterMap (Signature.forall₂_remaining hds) fun p b hpicks => ?_
  obtain ⟨o, ho, hrealizes⟩ := Signature.exists_realizes hpicks
  exact ⟨o, ho, hpicks.forall₂_lt, hrealizes⟩

theorem diagnostics_eq (h : ofSignature r f = .ok e) : e.diagnostics = remarks f e.overloads := by
  obtain ⟨_, _, _, -, -, -, -, rfl⟩ := ofSignature_eq_ok.mp h
  rfl

/-- Over the resolution of a catalog, a signature expands exactly if it is valid for the keys of the
catalog. -/
theorem exists_ofSignature_ofCatalog_eq_ok (hr : Resolution.ofCatalog c s = .ok r) :
    (∃ e, ofSignature r f = .ok e) ↔ f.Valid (· ∈ c.keys) := by
  rw [exists_ofSignature_eq_ok]
  simp only [Catalog.exists_get?_ofCatalog hr]

/-- Different choices are realized by overloads that are not the same. -/
theorem pairwise_not_same (hr : Resolution.ofCatalog c s = .ok r) (h : ofSignature r f = .ok e) :
    e.overloads.Pairwise fun o o' => o.same o' = false := by
  have hvalid := exists_ofSignature_eq_ok.mp ⟨e, h⟩
  have hnodup : ∀ key ∈ f.keys, ((r.leavesOf key).map TypeEntry.key).Nodup := by
    intro key hkey
    obtain ⟨leaves, hleaves⟩ := hvalid.keys key hkey
    rw [Resolution.leavesOf, hleaves]
    exact Catalog.nodup_of_resolve ((Catalog.get?_ofCatalog hr).mp hleaves).2
  have hne : (f.remainingChoices r).Pairwise (· ≠ ·) := by
    apply (Signature.pairwise_remainingChoices f r).imp
    intro p q hlt heq
    exact List.lt_irrefl q (heq ▸ hlt)
  refine pairwise_of_forall₂ (forall₂_realizes h) ?_ hne
  intro p q o o' hp hq hne
  obtain ⟨hp, ho⟩ := hp
  obtain ⟨hq, ho'⟩ := hq
  rw [← Bool.not_eq_true]
  intro hsame
  exact hne (ho.choice_eq hnodup hp hq ho' hsame)

/-- **Expansion enumerates the product.** A valid signature over a resolved catalog has one overload
for each choice of leaves, in ascending order of the choices; mutations restrict the choices exactly
if two keys or more are free. No two overloads are the same, and the only thing said about the
signature is that it has no overloads, if so, under the code of that finding. -/
theorem ofSignature_enumerates_choices (hr : Resolution.ofCatalog c s = .ok r)
    (hf : f.Valid (· ∈ c.keys)) :
    ∃ e choices, ofSignature r f = .ok e ∧
      choices.Pairwise (List.Lex (· < ·)) ∧
      (∀ p, p ∈ choices ↔ f.IsChoice r p ∧
        (2 ≤ (f.freeKeys r).length → ∀ m ∈ f.mutations, f.respects r p m = true)) ∧
      List.Forall₂ (f.Realizes r) choices e.overloads ∧
      e.overloads.Pairwise (fun o o' => o.same o' = false) ∧
      e.diagnostics =
        (if e.overloads = [] then [.ofCode .emptyExpansion (emptyMessage f)] else []) ∧
      ∀ d ∈ e.diagnostics, d.code = .emptyExpansion ∧ d.code.number = "MG0200" := by
  obtain ⟨e, he⟩ := (exists_ofSignature_ofCatalog_eq_ok hr).mpr hf
  have hdiagnostics : e.diagnostics = remarks f e.overloads := diagnostics_eq he
  refine ⟨e, f.remainingChoices r, he, Signature.pairwise_remainingChoices f r,
    fun p => Signature.mem_remainingChoices, (forall₂_realizes he).imp fun _ _ h => h.2,
    pairwise_not_same hr he, hdiagnostics, fun d hd => ?_⟩
  rw [hdiagnostics] at hd
  exact code_of_mem_remarks hd

/-- A function of two types of the same shape. -/
def mix : Signature :=
  { Signature.ofKeys "sycl" "mix" "wide" ["wide", "narrow"] with
    mutations := [⟨"wide", "narrow", "base_type"⟩] }

/-- Of the four choices for the two free keys of `mix`, one respects the mutation. -/
theorem ofSignature_mix :
    mix.Valid (· ∈ Catalog.diamond.keys) ∧
      ∃ r e choices, Resolution.ofCatalog .diamond (.allOf .diamond) = .ok r ∧
        ofSignature r mix = .ok e ∧ List.Forall₂ (mix.Realizes r) choices e.overloads ∧
        e.overloads.map Overload.text =
          ["sycl::float2 sycl::mix(sycl::float2, sycl::float2)"] := by
  have hf : mix.Valid (· ∈ Catalog.diamond.keys) := by
    refine ⟨.inl rfl, nofun, fun m hm => ?_, by decide⟩
    obtain rfl := List.mem_singleton.mp hm
    exact ⟨⟨.sameShape, by decide +kernel⟩, by decide, by decide⟩
  have hacyclic : Catalog.diamond.Acyclic := by decide +kernel
  obtain ⟨r, hr⟩ := (Catalog.ofCatalog_eq_ok (s := .allOf .diamond)).mpr hacyclic
  obtain ⟨e, choices, he, -, -, hrealizes, -⟩ := ofSignature_enumerates_choices hr hf
  have hwide : r.get? "wide" = some [.leaf "float4" "sycl::float4" "vector" "float" 4,
      .leaf "float2" "sycl::float2" "vector" "float" 2] :=
    Catalog.get?_of_visitWithin hr (by decide) (by decide +kernel)
  have hnarrow : r.get? "narrow" = some [.leaf "float" "float" "scalar" "float" 1,
      .leaf "float2" "sycl::float2" "vector" "float" 2] :=
    Catalog.get?_of_visitWithin hr (by decide) (by decide +kernel)
  have hslots : Expansion.slots r mix = .ok [("wide", _), ("narrow", _)] :=
    slots_eq_ok.mpr (.cons ⟨rfl, hwide⟩ (.cons ⟨rfl, hnarrow⟩ .nil))
  have heval : ofSignature r mix = .ok _ := ofSignature_eq_ok.mpr ⟨none,
    [⟨"wide", "narrow", .sameShape⟩], _, rfl, rfl, by decide +kernel, hslots, rfl⟩
  rw [he] at heval
  cases heval
  exact ⟨hf, r, _, choices, hr, he, hrealizes, by decide +kernel⟩

end Expansion

end OverloadSuite
