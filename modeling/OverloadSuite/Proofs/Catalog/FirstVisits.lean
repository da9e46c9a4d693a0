import OverloadSuite.Proofs.Catalog.Cycles
import OverloadSuite.Proofs.FirstOccurrences

/-!
# Leaves in the order of their first visit

A depth-first traversal from left to right meets every leaf below a key, some of them many times.
Resolving the key lists the covered ones where they are met first. The walk carries one list of
leaves through all siblings and compares with all of it; the traversal knows nothing of such a
list. The two agree for every list that holds the first visits of an earlier part of the traversal.
-/

namespace OverloadSuite.Catalog

open Relation Outcome FirstOccurrences

variable {c : Catalog} {s : Selection} {path : List String} {found found' : List TypeEntry}
  {key : String} {keys keys' : List String} {e : TypeEntry} {visits visits' : List TypeEntry}

/-! ## The traversal -/

/-- The leaves that a depth-first traversal from left to right visits below keys, as often as it
comes by. -/
inductive Visits (c : Catalog) : List String → List TypeEntry → Prop
  | nil : Visits c [] []
  | leaf {key : String} {keys : List String} {e : TypeEntry} {visits : List TypeEntry} :
    c.get? key = some e → e.isLeaf = true → Visits c keys visits →
      Visits c (key :: keys) (e :: visits)
  | generic {key : String} {keys : List String} {e : TypeEntry} {below visits : List TypeEntry} :
    c.get? key = some e → e.isLeaf = false → Visits c e.children below → Visits c keys visits →
      Visits c (key :: keys) (below ++ visits)

/-- The entry of a key is a leaf or a generic, not both. -/
theorem not_leaf_and_generic {d : TypeEntry} (he : c.get? key = some e) (hleaf : e.isLeaf = true)
    (hd : c.get? key = some d) : ¬d.isLeaf = false := by
  obtain rfl := Option.some.inj (he.symm.trans hd)
  rw [hleaf]
  exact Bool.noConfusion

namespace Visits

theorem append (h : c.Visits keys visits) (h' : c.Visits keys' visits') :
    c.Visits (keys ++ keys') (visits ++ visits') := by
  induction h with
  | nil => exact h'
  | leaf he hleaf _ ih => exact .leaf he hleaf ih
  | generic he hleaf hbelow _ _ ih =>
    rw [List.append_assoc]
    exact .generic he hleaf hbelow ih

/-- The traversal of several keys is that of the first one and then that of the others. -/
theorem of_cons (h : c.Visits (key :: keys) visits) :
    ∃ first rest, visits = first ++ rest ∧ c.Visits [key] first ∧ c.Visits keys rest := by
  cases h with
  | @leaf _ _ e rest he hleaf hrest => exact ⟨[e], rest, rfl, .leaf he hleaf .nil, hrest⟩
  | @generic _ _ e below rest he hleaf hbelow hrest =>
    refine ⟨below, rest, rfl, ?_, hrest⟩
    have h := Visits.generic he hleaf hbelow .nil
    rwa [List.append_nil] at h

/-- The traversal below a generic is that of its children. -/
theorem children (h : c.Visits [key] visits) (he : c.get? key = some e) (hleaf : e.isLeaf = false) :
    c.Visits e.children visits := by
  cases h with
  | leaf hd hdleaf => exact absurd hleaf (not_leaf_and_generic hd hdleaf he)
  | generic hd _ hbelow hnil =>
    obtain rfl := Option.some.inj (he.symm.trans hd)
    cases hnil
    rwa [List.append_nil]

/-- There is one traversal only. -/
theorem unique (h : c.Visits keys visits) (h' : c.Visits keys visits') : visits = visits' := by
  induction h generalizing visits' with
  | nil => cases h'; rfl
  | leaf he hleaf _ ih =>
    cases h' with
    | leaf hd _ hrest =>
      obtain rfl := Option.some.inj (he.symm.trans hd)
      rw [ih hrest]
    | generic hd hdleaf => exact absurd hdleaf (not_leaf_and_generic he hleaf hd)
  | generic he hleaf _ _ ihbelow ihrest =>
    cases h' with
    | leaf hd hdleaf => exact absurd hleaf (not_leaf_and_generic hd hdleaf he)
    | generic hd _ hbelow hrest =>
      obtain rfl := Option.some.inj (he.symm.trans hd)
      rw [ihbelow hbelow, ihrest hrest]

/-- The traversal visits the leaves that the keys reach, and no others. -/
theorem mem_iff (h : c.Visits keys visits) :
    e ∈ visits ↔ e ∈ c.entries ∧ e.isLeaf = true ∧ ∃ key ∈ keys, c.Reaches key e.key := by
  induction h with
  | nil => simp
  | @leaf key keys d visits hd hleaf _ ih =>
    rw [List.mem_cons, ih]
    constructor
    · intro h
      rcases h with rfl | ⟨he, heleaf, k, hk, hreach⟩
      · refine ⟨mem_of_get? hd, hleaf, key, List.mem_cons_self, ?_⟩
        rw [key_of_get? hd]
        exact ReflTransGen.refl
      · exact ⟨he, heleaf, k, List.mem_cons_of_mem _ hk, hreach⟩
    · intro h
      obtain ⟨he, heleaf, k, hk, hreach⟩ := h
      rcases List.mem_cons.mp hk with rfl | hk
      · have heq : e.key = d.key := (hreach.eq_of_isLeaf hd hleaf).trans (key_of_get? hd).symm
        exact .inl (eq_of_key_eq he (mem_of_get? hd) heq)
      · exact .inr ⟨he, heleaf, k, hk, hreach⟩
  | @generic key keys d below visits hd hleaf _ _ ihbelow ih =>
    rw [List.mem_append, ihbelow, ih]
    constructor
    · intro h
      rcases h with ⟨he, heleaf, child, hchild, hreach⟩ | ⟨he, heleaf, k, hk, hreach⟩
      · exact ⟨he, heleaf, key, List.mem_cons_self, hreach.head ⟨d, hd, hchild⟩⟩
      · exact ⟨he, heleaf, k, List.mem_cons_of_mem _ hk, hreach⟩
    · intro h
      obtain ⟨he, heleaf, k, hk, hreach⟩ := h
      rcases List.mem_cons.mp hk with rfl | hk
      · rcases ReflTransGen.cases_head hreach with heq | ⟨child, ⟨d', hd', hchild⟩, hreach⟩
        · subst heq
          exact absurd hleaf (not_leaf_and_generic (get?_key he) heleaf hd)
        · obtain rfl := Option.some.inj (hd.symm.trans hd')
          exact .inl ⟨he, heleaf, child, hchild, hreach⟩
      · exact .inr ⟨he, heleaf, k, hk, hreach⟩

theorem subset_entries (h : c.Visits keys visits) : ∀ e ∈ visits, e ∈ c.entries :=
  fun _ he => (h.mem_iff.mp he).1

end Visits

/-! ## The walk against the traversal -/

/-- What the walk adds for one more visit is what that visit adds to the first visits so far. -/
theorem addFound_eraseDups (hvisits : ∀ d ∈ visits, d ∈ c.entries) (he : e ∈ c.entries) :
    addFound s (visits.filter s.covers).eraseDups e =
      ((visits ++ [e]).filter s.covers).eraseDups := by
  have hnew : ((visits.filter s.covers).eraseDups.all (·.key != e.key)) =
      decide (e ∉ visits.filter s.covers) := by
    rw [Bool.eq_iff_iff, List.all_eq_true, decide_eq_true_iff]
    constructor
    · intro h hmem
      simpa using h e (List.mem_eraseDups.mpr hmem)
    · intro hnot d hd
      have hd := List.mem_eraseDups.mp hd
      have hne : d.key ≠ e.key := by
        intro hkey
        have heq := eq_of_key_eq (hvisits d (List.mem_filter.mp hd).1) he hkey
        exact hnot (heq ▸ hd)
      simpa using hne
  rw [List.filter_append, addFound, hnew]
  cases hcovers : s.covers e with
  | false => simp [hcovers]
  | true =>
    rw [List.filter_cons_of_pos hcovers, List.filter_nil, eraseDups_append_singleton]
    by_cases hmem : e ∈ visits.filter s.covers
    · rw [if_pos hmem, if_neg (by simp [hmem])]
    · rw [if_neg hmem, if_pos (by simp [hmem])]

/-- Walking over visits from the first visits of an earlier part gives the first visits of both. -/
theorem foldl_addFound (hvisits : ∀ d ∈ visits, d ∈ c.entries)
    (hvisits' : ∀ d ∈ visits', d ∈ c.entries) :
    visits'.foldl (addFound s) (visits.filter s.covers).eraseDups =
      ((visits ++ visits').filter s.covers).eraseDups := by
  induction visits' generalizing visits with
  | nil => rw [List.append_nil, List.foldl_nil]
  | cons e visits' ih =>
    have he : e ∈ c.entries := hvisits' e List.mem_cons_self
    have hbefore : ∀ d ∈ visits ++ [e], d ∈ c.entries := by
      intro d hd
      rcases List.mem_append.mp hd with hd | hd
      · exact hvisits d hd
      · exact List.mem_singleton.mp hd ▸ he
    rw [List.foldl_cons, addFound_eraseDups hvisits he,
      ih hbefore fun d hd => hvisits' d (List.mem_cons_of_mem e hd), List.append_assoc]
    rfl

/-- If every step along some keys adds the leaves of its own traversal, the walk along the keys adds
those of the joint traversal. -/
theorem exists_visits_of_foldlM {step : List TypeEntry → String → Except Fault (List TypeEntry)}
    (hstep : ∀ key ∈ keys, ∀ found found', step found key = .ok found' →
      ∃ visits, c.Visits [key] visits ∧ found' = visits.foldl (addFound s) found)
    (h : keys.foldlM step found = .ok found') :
    ∃ visits, c.Visits keys visits ∧ found' = visits.foldl (addFound s) found := by
  induction keys generalizing found with
  | nil =>
    cases h
    exact ⟨[], .nil, rfl⟩
  | cons key keys ih =>
    obtain ⟨middle, hkey, h⟩ := foldlM_cons_eq_ok.mp h
    obtain ⟨first, hfirst, rfl⟩ := hstep key List.mem_cons_self found middle hkey
    obtain ⟨rest, hrest, rfl⟩ := ih (fun key h => hstep key (List.mem_cons_of_mem _ h)) h
    exact ⟨first ++ rest, hfirst.append hrest, (List.foldl_append ..).symm⟩

/-- A visit adds the leaves of the traversal one after the other. -/
theorem exists_visits_of_visit (h : c.visit s path found key = .ok found') :
    ∃ visits, c.Visits [key] visits ∧ found' = visits.foldl (addFound s) found := by
  induction path, key using descend (c := c) generalizing found found' with
  | unknown path key hnone =>
    rw [visit_unknown hnone] at h
    cases h
  | leaf path key e he hleaf =>
    rw [visit_leaf he hleaf] at h
    exact ⟨[e], .leaf he hleaf .nil, (Except.ok.inj h).symm⟩
  | repeated path key e he hleaf hmem =>
    rw [visit_repeated he hleaf hmem] at h
    cases h
  | generic path key e he hleaf hmem ih =>
    rw [visit_generic he hleaf hmem] at h
    obtain ⟨visits, hvisits, heq⟩ :=
      exists_visits_of_foldlM (fun child hchild found found' h => ih child hchild h) h
    have hkey := Visits.generic he hleaf hvisits .nil
    rw [List.append_nil] at hkey
    exact ⟨visits, hkey, heq⟩

/-- A key that resolves is resolved to the covered leaves in the order of their first visit. -/
theorem exists_visits_of_resolve (h : c.resolve s key = .ok found) :
    ∃ visits, c.Visits [key] visits ∧ found = (visits.filter s.covers).eraseDups := by
  obtain ⟨visits, hvisits, rfl⟩ := exists_visits_of_visit h
  have hnone : ∀ d ∈ [], d ∈ c.entries := by simp
  exact ⟨visits, hvisits, foldl_addFound hnone hvisits.subset_entries⟩

/-- Below a key that leads to no cycle there is a traversal, and its first visits are what the key
resolves to under every selection. -/
theorem exists_visits (hkey : key ∈ c.keys) (hacyclic : c.AcyclicFrom key) :
    ∃ visits, c.Visits [key] visits ∧
      ∀ s, c.resolve s key = .ok (visits.filter s.covers).eraseDups := by
  obtain ⟨found, hfound⟩ := (resolve_eq_ok (s := .allOf c)).mpr ⟨hkey, hacyclic⟩
  obtain ⟨visits, hvisits, -⟩ := exists_visits_of_resolve hfound
  refine ⟨visits, hvisits, fun s => ?_⟩
  obtain ⟨found, hfound⟩ := (resolve_eq_ok (s := s)).mpr ⟨hkey, hacyclic⟩
  obtain ⟨visits', hvisits', rfl⟩ := exists_visits_of_resolve hfound
  rw [hfound, hvisits.unique hvisits']

/-! ## What a key resolves to -/

/-- A key resolves to the covered leaves that it reaches. -/
theorem mem_of_resolve (h : c.resolve s key = .ok found) :
    e ∈ found ↔ e ∈ c.entries ∧ e.isLeaf = true ∧ s.covers e = true ∧ c.Reaches key e.key := by
  obtain ⟨visits, hvisits, rfl⟩ := exists_visits_of_resolve h
  rw [List.mem_eraseDups, List.mem_filter, hvisits.mem_iff]
  constructor
  · intro h
    obtain ⟨⟨he, hleaf, k, hk, hreach⟩, hcovers⟩ := h
    obtain rfl := List.mem_singleton.mp hk
    exact ⟨he, hleaf, hcovers, hreach⟩
  · intro h
    obtain ⟨he, hleaf, hcovers, hreach⟩ := h
    exact ⟨⟨he, hleaf, key, List.mem_singleton.mpr rfl, hreach⟩, hcovers⟩

/-- A key resolves to leaves with different keys. -/
theorem nodup_of_resolve (h : c.resolve s key = .ok found) : (found.map TypeEntry.key).Nodup := by
  have hentries : ∀ e ∈ found, e ∈ c.entries := fun e he => ((mem_of_resolve h).mp he).1
  have hnodup : found.Nodup := by
    obtain ⟨visits, -, rfl⟩ := exists_visits_of_resolve h
    exact nodup_eraseDups _
  refine List.pairwise_map.mpr (hnodup.imp_of_mem fun {d e} hd he hne hkey => hne ?_)
  exact eq_of_key_eq (hentries d hd) (hentries e he) hkey

/-- The covered first visits below keys are the ordered union of what the keys resolve to. -/
theorem Visits.exists_founds (h : c.Visits keys visits) (hkeys : ∀ key ∈ keys, key ∈ c.keys)
    (hacyclic : ∀ key ∈ keys, c.AcyclicFrom key) (s : Selection) :
    ∃ founds, List.Forall₂ (fun key found => c.resolve s key = .ok found) keys founds ∧
      (visits.filter s.covers).eraseDups = founds.flatten.eraseDups := by
  induction keys generalizing visits with
  | nil =>
    cases h
    exact ⟨[], .nil, rfl⟩
  | cons key keys ih =>
    obtain ⟨first, rest, rfl, hfirst, hrest⟩ := h.of_cons
    obtain ⟨visits, hvisits, hresolve⟩ :=
      exists_visits (hkeys key List.mem_cons_self) (hacyclic key List.mem_cons_self)
    obtain rfl := hfirst.unique hvisits
    obtain ⟨founds, hfounds, heq⟩ := ih hrest
      (fun key h => hkeys key (List.mem_cons_of_mem _ h))
      (fun key h => hacyclic key (List.mem_cons_of_mem _ h))
    refine ⟨_ :: founds, .cons (hresolve s) hfounds, ?_⟩
    calc ((first ++ rest).filter s.covers).eraseDups
        = (first.filter s.covers ++ (rest.filter s.covers).eraseDups).eraseDups := by
          rw [List.filter_append, eraseDups_append_right]
      _ = (first.filter s.covers ++ founds.flatten).eraseDups := by
          rw [heq, eraseDups_append_right]
      _ = ((first.filter s.covers).eraseDups ++ founds.flatten).eraseDups :=
          (eraseDups_append_left ..).symm

/-- **Ordered union**: a generic resolves to the first occurrences among what its children resolve
to, one child after the other. -/
theorem resolve_generic (hacyclic : c.AcyclicFrom key) (he : c.get? key = some e)
    (hleaf : e.isLeaf = false) (h : c.resolve s key = .ok found) :
    ∃ founds, List.Forall₂ (fun child found => c.resolve s child = .ok found) e.children founds ∧
      found = founds.flatten.eraseDups := by
  obtain ⟨visits, hvisits, rfl⟩ := exists_visits_of_resolve h
  have hchild : ∀ child ∈ e.children, c.Child key child := fun child hchild => ⟨e, he, hchild⟩
  exact (hvisits.children he hleaf).exists_founds (fun child h => (hchild child h).mem_keys_right)
    (fun child h => hacyclic.child (hchild child h)) s

/-- A selection that covers no more leaves of the catalog resolves a key to the covered ones among
those of the wider selection. -/
theorem resolve_narrower {s' : Selection} (hkey : key ∈ c.keys) (hacyclic : c.AcyclicFrom key)
    (hsub : ∀ e ∈ c.leaves, s.covers e = true → s'.covers e = true)
    (h : c.resolve s key = .ok found) :
    ∃ wide, c.resolve s' key = .ok wide ∧ found = wide.filter s.covers := by
  obtain ⟨visits, hvisits, hresolve⟩ := exists_visits hkey hacyclic
  refine ⟨_, hresolve s', ?_⟩
  have hfilter : (visits.filter s'.covers).filter s.covers = visits.filter s.covers := by
    rw [List.filter_filter]
    refine List.filter_congr fun e he => ?_
    have hleaf : e ∈ c.leaves := by
      have hmem := hvisits.mem_iff.mp he
      exact List.mem_filter.mpr ⟨hmem.1, hmem.2.1⟩
    cases hcovers : s.covers e with
    | false => rfl
    | true => rw [hsub e hleaf hcovers]; rfl
  rw [← eraseDups_filter, hfilter]
  exact Except.ok.inj (h.symm.trans (hresolve s))

/-- The selection of all leaves of a catalog covers each of them. -/
theorem covers_allOf (he : e ∈ c.leaves) : (Selection.allOf c).covers e = true := by
  have hvar : e.varType ∈ c.leaves.map (·.varType) := List.mem_map_of_mem he
  have hbase : e.base ∈ c.leaves.map TypeEntry.base := List.mem_map_of_mem he
  have hdim : e.dim ∈ c.leaves.map (·.dim) := List.mem_map_of_mem he
  simp only [Selection.covers, Selection.allOf, Bool.and_eq_true, decide_eq_true_eq,
    SortedSet.mem_ofList]
  exact ⟨⟨hvar, hbase⟩, hdim⟩

/-- The resolution of a catalog holds the leaves of each of its keys, and of no other key. -/
theorem get?_ofCatalog {r : Resolution} (h : Resolution.ofCatalog c s = .ok r)
    {leaves : List TypeEntry} :
    r.get? key = some leaves ↔ key ∈ c.keys ∧ c.resolve s key = .ok leaves := by
  have hbindings := bindings_of_ofCatalog h
  have hmem : ∀ {key leaves}, r.get? key = some leaves →
      key ∈ c.keys ∧ c.resolve s key = .ok leaves := by
    intro key leaves hget
    rw [Resolution.get?_eq_lookup] at hget
    obtain ⟨_, _, hsplit, -⟩ := List.lookup_eq_some_iff.mp hget
    have hbinding : (key, leaves) ∈ r.bindings := by simp [hsplit]
    obtain ⟨e, he, hkey, hresolve⟩ := exists_of_forall₂_right hbindings hbinding
    obtain rfl : key = e.key := hkey
    exact ⟨List.mem_map_of_mem he, hresolve⟩
  constructor
  · exact hmem
  · intro h
    obtain ⟨hkey, hresolve⟩ := h
    obtain ⟨e, he, rfl⟩ := List.mem_map.mp hkey
    obtain ⟨binding, hbinding, hfst, -⟩ := exists_of_forall₂ hbindings he
    cases hget : r.get? e.key with
    | none =>
      rw [Resolution.get?_eq_lookup, List.lookup_eq_none_iff] at hget
      simpa [hfst] using hget binding hbinding
    | some leaves' =>
      have hleaves := (hmem hget).2
      rw [hresolve] at hleaves
      rw [Except.ok.inj hleaves]

theorem get?_ofCatalog_eq_none {r : Resolution} (h : Resolution.ofCatalog c s = .ok r) :
    r.get? key = none ↔ key ∉ c.keys := by
  constructor
  · intro hnone hkey
    obtain ⟨e, he, rfl⟩ := List.mem_map.mp hkey
    obtain ⟨_, -, -, hresolve⟩ := exists_of_forall₂ (bindings_of_ofCatalog h) he
    rw [(get?_ofCatalog h).mpr ⟨hkey, hresolve⟩] at hnone
    cases hnone
  · intro hkey
    cases hget : r.get? key with
    | none => rfl
    | some leaves => exact absurd ((get?_ofCatalog h).mp hget).1 hkey

theorem exists_get?_ofCatalog {r : Resolution} (h : Resolution.ofCatalog c s = .ok r) :
    (∃ leaves, r.get? key = some leaves) ↔ key ∈ c.keys := by
  rw [← Option.isSome_iff_exists, ← not_iff_not, Option.not_isSome_iff_eq_none,
    get?_ofCatalog_eq_none h]

/-- What a resolution holds for a key can be computed. -/
theorem get?_of_visitWithin {r : Resolution} {leaves : List TypeEntry}
    (hr : Resolution.ofCatalog c s = .ok r) (hkey : key ∈ c.keys)
    (h : (c.visitWithin s (c.generics.length + 1) [] [] key).run = some (.ok leaves)) :
    r.get? key = some leaves := by
  rw [visitWithin_generics] at h
  exact (get?_ofCatalog hr).mpr ⟨hkey, Option.some.inj h⟩

/-- What a list of leaves has to be to list a key under a selection: the covered leaves that the key
reaches, each key once, in the order of the traversal's first visits; for a generic, that is the
ordered union of the lists of its children. -/
structure ListsFirstVisits (c : Catalog) (s : Selection) (key : String) (found : List TypeEntry) :
    Prop where
  mem_iff : ∀ e, e ∈ found ↔
    e ∈ c.entries ∧ e.isLeaf = true ∧ s.covers e = true ∧ c.Reaches key e.key
  nodup : (found.map TypeEntry.key).Nodup
  order : ∃ visits, c.Visits [key] visits ∧ found = (visits.filter s.covers).eraseDups
  union : ∀ e, c.get? key = some e → e.isLeaf = false →
    ∃ founds, List.Forall₂ (fun child found => c.resolve s child = .ok found) e.children founds ∧
      found = founds.flatten.eraseDups

theorem listsFirstVisits_of_resolve (hacyclic : c.AcyclicFrom key)
    (h : c.resolve s key = .ok found) : c.ListsFirstVisits s key found where
  mem_iff := fun _ => mem_of_resolve h
  nodup := nodup_of_resolve h
  order := exists_visits_of_resolve h
  union := fun _ he hleaf => resolve_generic hacyclic he hleaf h

/-- **Resolution is exact and ordered.** A key of a catalog that leads to no cycle resolves, and to
its covered leaves in the order of their first visit. A selection that covers fewer leaves filters
the list, the selection of all leaves lists every leaf that the key reaches, and the resolution of
the whole catalog holds this list for the key and nothing for what is no key. -/
theorem resolve_lists_first_visits (c : Catalog) (s : Selection) (key : String)
    (hkey : key ∈ c.keys) (hacyclic : c.AcyclicFrom key) :
    ∃ found, c.resolve s key = .ok found ∧ c.ListsFirstVisits s key found ∧
      (∀ s', (∀ e ∈ c.leaves, s.covers e = true → s'.covers e = true) →
        ∃ wide, c.resolve s' key = .ok wide ∧ found = wide.filter s.covers) ∧
      (∃ all, c.resolve (.allOf c) key = .ok all ∧
        ∀ e, e ∈ all ↔ e ∈ c.entries ∧ e.isLeaf = true ∧ c.Reaches key e.key) ∧
      (∀ r, Resolution.ofCatalog c s = .ok r →
        r.get? key = some found ∧ ∀ k, r.get? k = none ↔ k ∉ c.keys) := by
  obtain ⟨found, h⟩ := (resolve_eq_ok (s := s)).mpr ⟨hkey, hacyclic⟩
  obtain ⟨all, hall⟩ := (resolve_eq_ok (s := .allOf c)).mpr ⟨hkey, hacyclic⟩
  refine ⟨found, h, listsFirstVisits_of_resolve hacyclic h,
    fun s' hsub => resolve_narrower hkey hacyclic hsub h, ⟨all, hall, fun e => ?_⟩, fun r hr => ?_⟩
  · rw [mem_of_resolve hall]
    constructor
    · intro h
      obtain ⟨he, hleaf, -, hreach⟩ := h
      exact ⟨he, hleaf, hreach⟩
    · intro h
      obtain ⟨he, hleaf, hreach⟩ := h
      exact ⟨he, hleaf, covers_allOf (List.mem_filter.mpr ⟨he, hleaf⟩), hreach⟩
  · exact ⟨(get?_ofCatalog hr).mpr ⟨hkey, h⟩, fun k => get?_ofCatalog_eq_none hr⟩

/-- Each leaf below the diamond is listed where the traversal comes by first, and `float2`, which is
not covered, nowhere. -/
theorem resolve_diamond :
    "all" ∈ diamond.keys ∧ diamond.AcyclicFrom "all" ∧
      ∃ found, diamond.resolve ⟨.ofList ["scalar", "vector"], .ofList ["float"], .ofList [1, 4]⟩
          "all" = .ok found ∧
        diamond.ListsFirstVisits ⟨.ofList ["scalar", "vector"], .ofList ["float"], .ofList [1, 4]⟩
          "all" found ∧
        found.map TypeEntry.key = ["float", "float4"] := by
  have hkey : "all" ∈ diamond.keys := by decide
  have hacyclic : diamond.AcyclicFrom "all" := by decide +kernel
  obtain ⟨found, hfound, hlists, -⟩ := resolve_lists_first_visits diamond
    ⟨.ofList ["scalar", "vector"], .ofList ["float"], .ofList [1, 4]⟩ "all" hkey hacyclic
  have hrun := visitWithin_generics diamond
    ⟨.ofList ["scalar", "vector"], .ofList ["float"], .ofList [1, 4]⟩ "all"
  have hkeys : (diamond.visitWithin
      ⟨.ofList ["scalar", "vector"], .ofList ["float"], .ofList [1, 4]⟩ 4 [] [] "all").run.map
        (Except.map (List.map TypeEntry.key)) = some (.ok ["float", "float4"]) := by
    decide +kernel
  have hgenerics : diamond.generics.length = 3 := by decide
  rw [hgenerics] at hrun
  rw [hrun, hfound] at hkeys
  exact ⟨hkey, hacyclic, found, hfound, hlists, Except.ok.inj (Option.some.inj hkeys)⟩

end OverloadSuite.Catalog
