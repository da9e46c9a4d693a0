import OverloadSuite.Proofs.Catalog.Graph
import OverloadSuite.Proofs.Outcome

/-!
# Cycles in type catalogs

Resolving a key always ends, and it fails exactly when the key is unknown or leads to a cycle; a
diamond is no cycle, and a cycle behind a later child is found. The invariant behind both directions
is that the path of a visit holds keys from which the key at hand is reached.
-/

namespace OverloadSuite.Catalog

open Relation Outcome

variable {c : Catalog} {s s' : Selection} {path : List String} {found found' : List TypeEntry}
  {key : String} {e : TypeEntry}

/-! ## What one visit does -/

/-- Leaves found so far and, after them, a leaf that is covered and not among them. -/
def addFound (s : Selection) (found : List TypeEntry) (e : TypeEntry) : List TypeEntry :=
  if s.covers e && found.all (·.key != e.key) then found ++ [e] else found

theorem visit_unknown (h : c.get? key = none) :
    c.visit s path found key = .error (.unknownType key (referrer path)) := by
  rw [visit]
  split
  · rfl
  · simp_all

theorem visit_leaf (h : c.get? key = some e) (hleaf : e.isLeaf = true) :
    c.visit s path found key = .ok (addFound s found e) := by
  rw [visit]
  split
  · simp_all
  · rename_i d hd
    obtain rfl : d = e := by simp_all
    rw [if_pos hleaf, addFound]
    split <;> rfl

theorem visit_repeated (h : c.get? key = some e) (hleaf : e.isLeaf = false) (hpath : key ∈ path) :
    c.visit s path found key = .error (.typeCycle key) := by
  have hkey : e.key = key := key_of_get? h
  rw [visit]
  split
  · simp_all
  · rename_i d hd
    obtain rfl : d = e := by simp_all
    simp [hleaf, hkey, hpath]

theorem visit_generic (h : c.get? key = some e) (hleaf : e.isLeaf = false) (hpath : key ∉ path) :
    c.visit s path found key =
      e.children.foldlM (fun found child => c.visit s (key :: path) found child) found := by
  have hkey : e.key = key := key_of_get? h
  rw [visit]
  split
  · simp_all
  · rename_i d hd
    obtain rfl : d = e := by simp_all
    simp [hleaf, hkey, hpath]

/-- Induction along a visit. It descends from a generic that is not on the path to its children, so
the path grows by a new key each time; what is selected and what has been found play no part. -/
theorem descend {motive : List String → String → Prop}
    (unknown : ∀ path key, c.get? key = none → motive path key)
    (leaf : ∀ path key e, c.get? key = some e → e.isLeaf = true → motive path key)
    (repeated : ∀ path key e, c.get? key = some e → e.isLeaf = false → key ∈ path →
      motive path key)
    (generic : ∀ path key e, c.get? key = some e → e.isLeaf = false → key ∉ path →
      (∀ child ∈ e.children, motive (key :: path) child) → motive path key)
    (path : List String) (key : String) : motive path key := by
  have h : ∀ (found : List TypeEntry), motive path key := by
    intro found
    induction path, found, key using visit.induct c ⟨∅, ∅, ∅⟩ with
    | case1 path found key hnone => exact unknown path key hnone
    | case2 path found key e he hleaf => exact leaf path key e he hleaf
    | case3 path found key e he hleaf => exact leaf path key e he hleaf
    | case4 path found key e he hleaf hpath =>
      rw [key_of_get? he] at hpath
      exact repeated path key e he (by simpa using hleaf) (by simpa using hpath)
    | case5 path found key e he hleaf hpath ih =>
      rw [key_of_get? he] at hpath ih
      exact generic path key e he (by simpa using hleaf) (by simpa using hpath)
        fun child _ => ih found child
  exact h []

/-! ## Failure -/

/-- A generic below a key that reaches itself through its children. -/
structure CycleBelow (c : Catalog) (key k : String) : Prop where
  reaches : c.Reaches key k
  cyclic : c.Cyclic k
  generic : ∃ e, c.get? k = some e ∧ e.isLeaf = false

theorem CycleBelow.ofCyclic {k : String} (hreach : c.Reaches key k) (hcyclic : c.Cyclic k) :
    c.CycleBelow key k := by
  obtain ⟨e, he⟩ := mem_keys.mp hcyclic.mem_keys
  exact ⟨hreach, hcyclic, e, he, hcyclic.isLeaf_eq_false he⟩

/-- **A failure is honest**: from a path whose keys all reach the key at hand, a visit fails only
because that key is unknown or because there is a cycle below it, which the fault names. -/
theorem visit_eq_error {fault : Fault} (hpath : ∀ k ∈ path, TransGen c.Child k key)
    (h : c.visit s path found key = .error fault) :
    (key ∉ c.keys ∧ fault = .unknownType key (referrer path)) ∨
      ∃ k, c.CycleBelow key k ∧ fault = .typeCycle k := by
  induction path, key using descend (c := c) generalizing found with
  | unknown path key hnone =>
    rw [visit_unknown hnone] at h
    exact .inl ⟨get?_eq_none.mp hnone, (Except.error.inj h).symm⟩
  | leaf path key e he hleaf =>
    rw [visit_leaf he hleaf] at h
    cases h
  | repeated path key e he hleaf hmem =>
    rw [visit_repeated he hleaf hmem] at h
    exact .inr ⟨key, ⟨.refl, hpath key hmem, e, he, hleaf⟩, (Except.error.inj h).symm⟩
  | generic path key e he hleaf hmem ih =>
    rw [visit_generic he hleaf hmem] at h
    obtain ⟨child, hchild, found', h⟩ := exists_of_foldlM_eq_error h
    have hedge : c.Child key child := ⟨e, he, hchild⟩
    -- the key joins the path, and from it the child is one edge away
    have hpath' : ∀ k ∈ key :: path, TransGen c.Child k child := by
      intro k hk
      rcases List.mem_cons.mp hk with rfl | hk
      · exact .single hedge
      · exact (hpath k hk).tail hedge
    rcases ih child hchild hpath' h with ⟨hunknown, -⟩ | ⟨k, hk, rfl⟩
    · exact absurd hedge.mem_keys_right hunknown
    · exact .inr ⟨k, { hk with reaches := hk.reaches.head hedge }, rfl⟩

/-- **A success is honest**: below a key whose visit succeeds there is no cycle. What carries the
induction is that no generic below the key is on the path. -/
theorem not_cyclic_of_visit_eq_ok (h : c.visit s path found key = .ok found') {k : String}
    (hk : c.Reaches key k) : ¬c.Cyclic k ∧ ((∃ child, c.Child k child) → k ∉ path) := by
  induction path, key using descend (c := c) generalizing found found' k with
  | unknown path key hnone =>
    rw [visit_unknown hnone] at h
    cases h
  | leaf path key e he hleaf =>
    obtain rfl := hk.eq_of_isLeaf he hleaf
    have hchildless : ¬∃ child, c.Child k child := by
      rintro ⟨child, hchild⟩
      simpa [hleaf] using hchild.isLeaf_eq_false he
    exact ⟨fun hcyclic => hchildless hcyclic.exists_child, fun hchild => absurd hchild hchildless⟩
  | repeated path key e he hleaf hmem =>
    rw [visit_repeated he hleaf hmem] at h
    cases h
  | generic path key e he hleaf hmem ih =>
    rw [visit_generic he hleaf hmem] at h
    have hbelow : ∀ {child k}, c.Child key child → c.Reaches child k →
        ¬c.Cyclic k ∧ ((∃ child, c.Child k child) → k ∉ key :: path) := by
      intro child k ⟨d, hd, hchild⟩ hk
      obtain rfl : e = d := Option.some.inj (he.symm.trans hd)
      obtain ⟨_, _, h⟩ := exists_of_foldlM_eq_ok h child hchild
      exact ih child hchild h hk
    rcases ReflTransGen.cases_head hk with rfl | ⟨child, hchild, hk⟩
    · refine ⟨fun hcyclic => ?_, fun _ => hmem⟩
      -- a way back to the key would end on the path
      obtain ⟨child, hchild, hback⟩ := TransGen.head'_iff.mp hcyclic
      exact (hbelow hchild hback).2 hcyclic.exists_child List.mem_cons_self
    · obtain ⟨hcyclic, hoff⟩ := hbelow hchild hk
      exact ⟨hcyclic, fun hgeneric hmem => hoff hgeneric (List.mem_cons_of_mem key hmem)⟩

/-- Failure does not depend on what is selected or has been found. -/
theorem visit_eq_error_congr {fault : Fault} :
    c.visit s path found key = .error fault ↔ c.visit s' path found' key = .error fault := by
  induction path, key using descend (c := c) generalizing found found' fault with
  | unknown path key hnone => rw [visit_unknown hnone, visit_unknown hnone]
  | leaf path key e he hleaf =>
    rw [visit_leaf he hleaf, visit_leaf he hleaf]
    constructor <;> intro h <;> cases h
  | repeated path key e he hleaf hmem =>
    rw [visit_repeated he hleaf hmem, visit_repeated he hleaf hmem]
  | generic path key e he hleaf hmem ih =>
    rw [visit_generic he hleaf hmem, visit_generic he hleaf hmem]
    exact foldlM_eq_error_congr (fun child hchild found found' fault => ih child hchild) _ _ _

/-! ## Resolution -/

theorem resolve_eq_ok : (∃ found, c.resolve s key = .ok found) ↔
    key ∈ c.keys ∧ c.AcyclicFrom key := by
  constructor
  · intro h
    obtain ⟨found, h⟩ := h
    refine ⟨?_, fun k hk => (not_cyclic_of_visit_eq_ok h hk).1⟩
    cases hkey : c.get? key with
    | none => simp [resolve, visit_unknown hkey] at h
    | some e => exact mem_keys.mpr ⟨e, hkey⟩
  · intro h
    obtain ⟨hkey, hacyclic⟩ := h
    rcases ok_or_error (c.resolve s key) with h | ⟨fault, h⟩
    · exact h
    · rcases visit_eq_error (by simp) h with ⟨hunknown, -⟩ | ⟨k, hk, -⟩
      · exact absurd hkey hunknown
      · exact absurd hk.cyclic (hacyclic k hk.reaches)

theorem resolve_eq_unknownType {k : String} {place : Referrer} :
    c.resolve s key = .error (.unknownType k place) ↔
      key ∉ c.keys ∧ k = key ∧ place = .request := by
  constructor
  · intro h
    rcases visit_eq_error (by simp) h with ⟨hunknown, heq⟩ | ⟨k, -, heq⟩
    · cases heq
      exact ⟨hunknown, rfl, rfl⟩
    · cases heq
  · intro h
    obtain ⟨hunknown, rfl, rfl⟩ := h
    exact visit_unknown (get?_eq_none.mpr hunknown)

theorem cycleBelow_of_resolve {k : String} (h : c.resolve s key = .error (.typeCycle k)) :
    c.CycleBelow key k := by
  rcases visit_eq_error (by simp) h with ⟨-, heq⟩ | ⟨k', hk, heq⟩
  · cases heq
  · cases heq
    exact hk

theorem exists_resolve_eq_typeCycle :
    (∃ k, c.resolve s key = .error (.typeCycle k)) ↔ ∃ k, c.CycleBelow key k := by
  constructor
  · intro h
    obtain ⟨k, h⟩ := h
    exact ⟨k, cycleBelow_of_resolve h⟩
  · intro h
    obtain ⟨k, hk⟩ := h
    rcases ok_or_error (c.resolve s key) with ⟨found, h⟩ | ⟨fault, h⟩
    · exact absurd hk.cyclic (not_cyclic_of_visit_eq_ok h hk.reaches).1
    · rcases visit_eq_error (by simp) h with ⟨hunknown, -⟩ | ⟨k', -, rfl⟩
      · -- an unknown key has no children, so nothing is below it
        rcases ReflTransGen.cases_head hk.reaches with rfl | ⟨child, hchild, -⟩
        · exact absurd hk.cyclic.mem_keys hunknown
        · exact absurd hchild.mem_keys_left hunknown
      · exact ⟨k', h⟩

/-- The resolution of a catalog binds the key of each entry, in order, to the leaves it resolves
to. -/
theorem bindings_of_ofCatalog {r : Resolution} (h : Resolution.ofCatalog c s = .ok r) :
    List.Forall₂ (fun e binding => binding.1 = e.key ∧ c.resolve s e.key = .ok binding.2)
      c.entries r.bindings := by
  obtain ⟨bindings, hbindings, h⟩ := bind_eq_ok.mp h
  cases h
  refine (mapM_eq_ok.mp hbindings).imp fun e binding hbinding => ?_
  obtain ⟨found, hfound, h⟩ := bind_eq_ok.mp hbinding
  cases h
  exact ⟨rfl, hfound⟩

/-- Every key of a catalog resolves if, and only if, there is no cycle. -/
theorem ofCatalog_eq_ok : (∃ r, Resolution.ofCatalog c s = .ok r) ↔ c.Acyclic := by
  rw [acyclic_iff]
  constructor
  · rintro ⟨r, h⟩ key hkey
    obtain ⟨e, he, rfl⟩ := List.mem_map.mp hkey
    obtain ⟨binding, -, -, hfound⟩ := exists_of_forall₂ (bindings_of_ofCatalog h) he
    exact (resolve_eq_ok.mp ⟨_, hfound⟩).2
  · intro h
    have hbound : ∀ e ∈ c.entries, ∃ binding : String × List TypeEntry,
        (do return (e.key, ← c.resolve s e.key)) = Except.ok binding := by
      intro e he
      have hkey : e.key ∈ c.keys := List.mem_map_of_mem he
      obtain ⟨found, hfound⟩ := resolve_eq_ok.mpr ⟨hkey, h e.key hkey⟩
      exact ⟨(e.key, found), bind_eq_ok.mpr ⟨found, hfound, rfl⟩⟩
    obtain ⟨bindings, hbindings⟩ := exists_mapM_eq_ok.mpr hbound
    exact ⟨{ bindings }, bind_eq_ok.mpr ⟨bindings, hbindings, rfl⟩⟩

/-- A catalog is closed, so nothing but a cycle keeps its keys from being resolved. -/
theorem ofCatalog_eq_error {fault : Fault} (h : Resolution.ofCatalog c s = .error fault) :
    ∃ k, c.Cyclic k ∧ fault = .typeCycle k := by
  rcases bind_eq_error.mp h with h | ⟨bindings, -, h⟩
  · obtain ⟨e, he, h⟩ := exists_of_mapM_eq_error h
    rcases bind_eq_error.mp h with h | ⟨found, -, h⟩
    · rcases visit_eq_error (by simp) h with ⟨hunknown, -⟩ | ⟨k, hk, rfl⟩
      · exact absurd (List.mem_map_of_mem he) hunknown
      · exact ⟨k, hk.cyclic, rfl⟩
    · cases h
  · cases h

/-! ## Termination -/

/-- A visit that has no answer once more than `depth` visits are nested. It recurs on the depth, so
its recursion needs no argument about catalogs. -/
def visitWithin (c : Catalog) (s : Selection) :
    (depth : Nat) → List String → List TypeEntry → String → ExceptT Fault Option (List TypeEntry)
  | 0, _, _, _ => ExceptT.mk none
  | depth + 1, path, found, key =>
    match c.get? key with
    | none => throw (.unknownType key (referrer path))
    | some e =>
      if e.isLeaf then return addFound s found e
      else if path.contains e.key then throw (.typeCycle e.key)
      else e.children.foldlM (c.visitWithin s depth (e.key :: path)) found

/-- The generics of a catalog. -/
def generics (c : Catalog) : List TypeEntry := c.entries.filter fun e => !e.isLeaf

/-- The number of generics that are not on a path. -/
def unopened (c : Catalog) (path : List String) : Nat :=
  (c.generics.filter fun e => !path.contains e.key).length

theorem unopened_cons_lt (h : c.get? key = some e) (hleaf : e.isLeaf = false)
    (hpath : key ∉ path) : c.unopened (key :: path) < c.unopened path := by
  obtain ⟨he, rfl⟩ := get?_eq_some.mp h
  exact length_filter_cons_lt (by simp [generics, he, hleaf]) hpath

/-- A visit nests no deeper than there are generics left to open, and one visit more. -/
theorem visitWithin_eq {depth : Nat} (h : c.unopened path < depth) :
    c.visitWithin s depth path found key = ExceptT.mk (some (c.visit s path found key)) := by
  induction path, key using descend (c := c) generalizing found depth with
  | unknown path key hnone =>
    obtain ⟨depth, rfl⟩ := Nat.exists_eq_add_one_of_ne_zero (by omega : depth ≠ 0)
    rw [visitWithin, visit_unknown hnone, hnone]
    rfl
  | leaf path key e he hleaf =>
    obtain ⟨depth, rfl⟩ := Nat.exists_eq_add_one_of_ne_zero (by omega : depth ≠ 0)
    rw [visitWithin, visit_leaf he hleaf, he]
    simp only [hleaf, if_true]
    rfl
  | repeated path key e he hleaf hmem =>
    obtain ⟨depth, rfl⟩ := Nat.exists_eq_add_one_of_ne_zero (by omega : depth ≠ 0)
    rw [visitWithin, visit_repeated he hleaf hmem, he]
    simp only [hleaf, key_of_get? he, List.contains_iff_mem, hmem, if_true]
    rfl
  | generic path key e he hleaf hmem ih =>
    obtain ⟨depth, rfl⟩ := Nat.exists_eq_add_one_of_ne_zero (by omega : depth ≠ 0)
    have hless := unopened_cons_lt he hleaf hmem
    rw [visitWithin, visit_generic he hleaf hmem, he]
    simp only [hleaf, key_of_get? he, List.contains_iff_mem, hmem, if_false]
    exact foldlM_eq_some (fun child hchild found => ih child hchild (by omega)) found

theorem visitWithin_generics (c : Catalog) (s : Selection) (key : String) :
    c.visitWithin s (c.generics.length + 1) [] [] key = ExceptT.mk (some (c.resolve s key)) :=
  visitWithin_eq (by simp [unopened])

/-- Whether the walk that resolves a key stops at a cycle. -/
def leadsToCycle (c : Catalog) (key : String) : Bool :=
  match (c.visitWithin ⟨∅, ∅, ∅⟩ (c.generics.length + 1) [] [] key).run with
  | some (.error (.typeCycle _)) => true
  | _ => false

theorem acyclicFrom_iff : c.AcyclicFrom key ↔ c.leadsToCycle key = false := by
  have hcycle : c.leadsToCycle key = true ↔ ∃ k, c.CycleBelow key k := by
    rw [← exists_resolve_eq_typeCycle (s := ⟨∅, ∅, ∅⟩), leadsToCycle, visitWithin_generics]
    constructor
    · intro h
      split at h
      · rename_i k hk
        exact ⟨k, Option.some.inj hk⟩
      · cases h
    · intro h
      obtain ⟨k, hk⟩ := h
      rw [hk]
      rfl
  rw [← Bool.not_eq_true, hcycle]
  constructor
  · rintro h ⟨k, hk⟩
    exact h k hk.reaches hk.cyclic
  · intro h k hreach hcyclic
    exact h ⟨k, .ofCyclic hreach hcyclic⟩

instance (c : Catalog) (key : String) : Decidable (c.AcyclicFrom key) :=
  decidable_of_iff _ acyclicFrom_iff.symm

instance (c : Catalog) : Decidable c.Acyclic := decidable_of_iff _ acyclic_iff.symm

/-- **Cycle detection is complete, precise and terminating.** For every catalog, selection and key:
the walk that resolves the key ends with at most one visit nested for each generic, and one more. It
fails for an unknown key exactly if the key asked for is unknown, for a cycle exactly if
some generic below the key reaches itself, and for nothing else; the generic named in the
fault is such a one. The fault does not depend on the selection. The whole catalog resolves
exactly if it has no cycle. -/
theorem resolve_ends_and_detects_cycles (c : Catalog) (s : Selection) :
    (∀ key, c.visitWithin s (c.generics.length + 1) [] [] key =
      ExceptT.mk (some (c.resolve s key))) ∧
    (∀ key k place, c.resolve s key = .error (.unknownType k place) ↔
      key ∉ c.keys ∧ k = key ∧ place = .request) ∧
    (∀ key, (∃ k, c.resolve s key = .error (.typeCycle k)) ↔ ∃ k, c.CycleBelow key k) ∧
    (∀ key k, c.resolve s key = .error (.typeCycle k) → c.CycleBelow key k) ∧
    (∀ key fault, c.resolve s key = .error fault →
      fault = .unknownType key .request ∨ ∃ k, fault = .typeCycle k) ∧
    (∀ s' key fault, c.resolve s key = .error fault ↔ c.resolve s' key = .error fault) ∧
    ((∃ r, Resolution.ofCatalog c s = .ok r) ↔ c.Acyclic) := by
  refine ⟨visitWithin_generics c s, fun _ _ _ => resolve_eq_unknownType,
    fun _ => exists_resolve_eq_typeCycle, fun _ _ => cycleBelow_of_resolve, ?_,
    fun _ _ _ => visit_eq_error_congr, ofCatalog_eq_ok⟩
  intro key fault h
  rcases visit_eq_error (by simp) h with ⟨-, heq⟩ | ⟨k, -, heq⟩
  · exact .inl heq
  · exact .inr ⟨k, heq⟩

/-- A diamond is no cycle: two children of `all` lead to `float2`, and `wide` stands twice. -/
def diamond : Catalog where
  entries := [
    .generic "all" "vector" ["narrow", "wide", "float4", "wide"],
    .leaf "float" "float" "scalar" "float" 1,
    .generic "narrow" "vector" ["float", "float2"],
    .leaf "float2" "sycl::float2" "vector" "float" 2,
    .leaf "float4" "sycl::float4" "vector" "float" 4,
    .generic "wide" "vector" ["float4", "float2"]]
  shaped := by decide
  keys_nodup := by decide
  closed := by decide

example : diamond.Acyclic := by decide +kernel

end OverloadSuite.Catalog
