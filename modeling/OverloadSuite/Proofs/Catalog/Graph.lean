import Mathlib.Logic.Relation
import OverloadSuite.Catalog.Resolution

/-!
# The graph of a type catalog

The children of its entries make a catalog a directed graph on keys. This module fixes the words in
which resolution is specified: which keys a key reaches, and which keys lie on a cycle. Nothing here
mentions the walk that resolves keys.
-/

namespace OverloadSuite.Catalog

open Relation

variable {c : Catalog}

/-! ## Keys and entries -/

/-- The keys of the entries, in the order of the document. -/
def keys (c : Catalog) : List String := c.entries.map TypeEntry.key

theorem mem_of_get? {key : String} {e : TypeEntry} (h : c.get? key = some e) : e ∈ c.entries := by
  rw [get?_eq_find?] at h
  exact List.mem_of_find?_eq_some h

theorem key_of_get? {key : String} {e : TypeEntry} (h : c.get? key = some e) : e.key = key := by
  rw [get?_eq_find?] at h
  simpa using List.find?_some h

/-- Keys are unique, so the entry with the key of an entry is that entry. -/
theorem get?_key {e : TypeEntry} (he : e ∈ c.entries) : c.get? e.key = some e := by
  rw [get?_eq_find?]
  have hnodup := c.keys_nodup
  generalize c.entries = entries at he hnodup
  induction entries with
  | nil => cases he
  | cons d entries ih =>
    rw [List.map_cons, List.nodup_cons] at hnodup
    rcases List.mem_cons.mp he with rfl | he
    · simp
    · have hne : d.key ≠ e.key := fun h => hnodup.1 (h ▸ List.mem_map_of_mem he)
      rw [List.find?_cons_of_neg (by simpa using hne)]
      exact ih he hnodup.2

theorem get?_eq_some {key : String} {e : TypeEntry} :
    c.get? key = some e ↔ e ∈ c.entries ∧ e.key = key := by
  constructor
  · intro h
    exact ⟨mem_of_get? h, key_of_get? h⟩
  · intro h
    obtain ⟨he, rfl⟩ := h
    exact get?_key he

theorem mem_keys {key : String} : key ∈ c.keys ↔ ∃ e, c.get? key = some e := by
  simp [keys, get?_eq_some]

theorem get?_eq_none {key : String} : c.get? key = none ↔ key ∉ c.keys := by
  rw [mem_keys]
  cases c.get? key <;> simp

/-- Entries of a catalog are told apart by their keys. -/
theorem eq_of_key_eq {d e : TypeEntry} (hd : d ∈ c.entries) (he : e ∈ c.entries)
    (h : d.key = e.key) : d = e := by
  have hde := get?_key hd
  rw [h, get?_key he] at hde
  exact (Option.some.inj hde).symm

/-- A leaf has no children. -/
theorem children_of_isLeaf {e : TypeEntry} (he : e ∈ c.entries) (hleaf : e.isLeaf = true) :
    e.children = [] := by
  have hshape := c.shaped e he
  by_cases hchildren : e.children.isEmpty = true
  · exact List.isEmpty_iff.mp hchildren
  · simp [TypeEntry.malformation?, hleaf, hchildren] at hshape

/-! ## Edges, paths and cycles -/

/-- The entry of the first key lists the second key among its children. -/
def Child (c : Catalog) (a b : String) : Prop := ∃ e, c.get? a = some e ∧ b ∈ e.children

/-- A chain of children, possibly an empty one, leads from the first key to the second. -/
def Reaches (c : Catalog) : String → String → Prop := ReflTransGen c.Child

/-- The key reaches itself through its children. -/
def Cyclic (c : Catalog) (key : String) : Prop := TransGen c.Child key key

/-- No key that a key reaches lies on a cycle. -/
def AcyclicFrom (c : Catalog) (key : String) : Prop := ∀ k, c.Reaches key k → ¬c.Cyclic k

/-- No key lies on a cycle. -/
def Acyclic (c : Catalog) : Prop := ∀ k, ¬c.Cyclic k

theorem Child.mem_keys_left {a b : String} (h : c.Child a b) : a ∈ c.keys := by
  obtain ⟨e, ha, -⟩ := h
  exact mem_keys.mpr ⟨e, ha⟩

/-- Children exist: a catalog is closed. -/
theorem Child.mem_keys_right {a b : String} (h : c.Child a b) : b ∈ c.keys := by
  obtain ⟨e, ha, hb⟩ := h
  obtain ⟨d, hd, rfl⟩ := c.closed e (mem_of_get? ha) b hb
  exact List.mem_map_of_mem hd

/-- Whatever has a child is a generic. -/
theorem Child.isLeaf_eq_false {a b : String} {e : TypeEntry} (h : c.Child a b)
    (ha : c.get? a = some e) : e.isLeaf = false := by
  obtain ⟨d, hd, hb⟩ := h
  obtain rfl : d = e := Option.some.inj (hd.symm.trans ha)
  cases hleaf : d.isLeaf with
  | false => rfl
  | true =>
    rw [children_of_isLeaf (mem_of_get? ha) hleaf] at hb
    cases hb

theorem Cyclic.exists_child {key : String} (h : c.Cyclic key) : ∃ k, c.Child key k := by
  obtain ⟨k, hk, -⟩ := TransGen.head'_iff.mp h
  exact ⟨k, hk⟩

theorem Cyclic.mem_keys {key : String} (h : c.Cyclic key) : key ∈ c.keys := by
  obtain ⟨k, hk⟩ := h.exists_child
  exact hk.mem_keys_left

/-- Only generics lie on cycles. -/
theorem Cyclic.isLeaf_eq_false {key : String} {e : TypeEntry} (h : c.Cyclic key)
    (he : c.get? key = some e) : e.isLeaf = false := by
  obtain ⟨k, hk⟩ := h.exists_child
  exact hk.isLeaf_eq_false he

/-- A leaf reaches itself only. -/
theorem Reaches.eq_of_isLeaf {key k : String} {e : TypeEntry} (h : c.Reaches key k)
    (he : c.get? key = some e) (hleaf : e.isLeaf = true) : k = key := by
  rcases ReflTransGen.cases_head h with rfl | ⟨child, hchild, -⟩
  · rfl
  · have := hchild.isLeaf_eq_false he
    rw [hleaf] at this
    cases this

theorem AcyclicFrom.child {a b : String} (h : c.AcyclicFrom a) (hab : c.Child a b) :
    c.AcyclicFrom b :=
  fun k hk => h k (hk.head hab)

/-- A catalog without cycles is one in which no key reaches a cycle. -/
theorem acyclic_iff : c.Acyclic ↔ ∀ key ∈ c.keys, c.AcyclicFrom key := by
  constructor
  · intro h key _ k _
    exact h k
  · intro h k hk
    exact h k hk.mem_keys k ReflTransGen.refl hk

end OverloadSuite.Catalog
