import OverloadSuite.Catalog.Entry
import OverloadSuite.Index
import Std.Data.TreeSet.Lemmas

/-!
Type catalogs. A catalog keeps its entries in the order of its document; every entry is well shaped,
no key stands twice, and every child is the key of an entry. An index of the entries follows from
them; it finds for each key what a walk along the entries would find.
-/
namespace OverloadSuite

/-- The entries of a list by their keys. -/
def TypeEntry.indexOf (entries : List TypeEntry) : Index TypeEntry :=
  .ofList (entries.map fun e => (e.key, e))

theorem TypeEntry.getElem?_indexOf (entries : List TypeEntry) (key : String) :
    (indexOf entries)[key]? = entries.find? (·.key == key) := by
  rw [indexOf, Index.getElem?_ofList]
  induction entries with
  | nil => rfl
  | cons e es ih =>
    rw [List.map_cons, List.lookup_cons, List.find?_cons, ih, BEq.comm]

/-- A well-formed type catalog. -/
structure Catalog where
  entries : List TypeEntry
  index : Index TypeEntry := TypeEntry.indexOf entries
  index_eq : index = TypeEntry.indexOf entries := by rfl
  shaped : ∀ e ∈ entries, e.malformation? = none
  keys_nodup : (entries.map TypeEntry.key).Nodup
  closed : ∀ e ∈ entries, ∀ c ∈ e.children, ∃ d ∈ entries, d.key = c

namespace Catalog

/-- The fault of the first entry that is malformed or repeats a key of `seen` or of an entry before
it. -/
def entryFault? (seen : Std.TreeSet String) : List TypeEntry → Option Fault
  | [] => none
  | e :: es =>
    match e.malformation? with
    | some malformation => some (.malformedType e.key malformation)
    | none =>
      if seen.contains e.key then some (.duplicateType e.key)
      else entryFault? (seen.insert e.key) es

/-- The fault of the first child, of the first entry with such a child, that is no key of an
index. -/
def childFault? (index : Index TypeEntry) (entries : List TypeEntry) : Option Fault :=
  entries.findSome? fun e =>
    (e.children.find? fun c => !index.contains c).map (.unknownType · (.entry e.key))

theorem entryFault?_eq_none {seen : Std.TreeSet String} {es : List TypeEntry}
    (h : entryFault? seen es = none) :
    (∀ e ∈ es, e.malformation? = none ∧ e.key ∉ seen) ∧ (es.map TypeEntry.key).Nodup := by
  induction es generalizing seen with
  | nil => simp
  | cons e es ih =>
    simp only [entryFault?] at h
    split at h
    · simp at h
    · rename_i hshape
      split at h
      · simp at h
      · rename_i hseen
        rw [Std.TreeSet.contains_iff_mem] at hseen
        obtain ⟨hes, hnodup⟩ := ih h
        refine ⟨fun d hd => ?_, ?_⟩
        · rcases List.mem_cons.mp hd with rfl | hd
          · exact ⟨hshape, hseen⟩
          · exact ⟨(hes d hd).1, fun hmem => (hes d hd).2 (Std.TreeSet.mem_insert.mpr (.inr hmem))⟩
        · refine List.nodup_cons.mpr ⟨fun hmem => ?_, hnodup⟩
          obtain ⟨d, hd, hkey⟩ := List.mem_map.mp hmem
          exact (hes d hd).2 (by simp [hkey])

theorem childFault?_eq_none {all es : List TypeEntry}
    (h : childFault? (TypeEntry.indexOf all) es = none) :
    ∀ e ∈ es, ∀ c ∈ e.children, ∃ d ∈ all, d.key = c := by
  intro e he c hc
  have hnone := List.findSome?_eq_none_iff.mp h e he
  have hfind := List.find?_eq_none.mp (Option.map_eq_none_iff.mp hnone) c hc
  rw [Std.TreeMap.contains_eq_isSome_getElem?, TypeEntry.getElem?_indexOf] at hfind
  simpa using hfind

/-- The catalog of a list of entries. A malformed entry or a repeated key is found before a child
that is no entry. -/
def ofList (entries : List TypeEntry) : Except Fault Catalog :=
  let index := TypeEntry.indexOf entries
  match hentries : entryFault? ∅ entries with
  | some fault => .error fault
  | none =>
    match hchildren : childFault? index entries with
    | some fault => .error fault
    | none => .ok {
        entries
        index
        shaped := fun e he => ((entryFault?_eq_none hentries).1 e he).1
        keys_nodup := (entryFault?_eq_none hentries).2
        closed := childFault?_eq_none hchildren }

/-- The entry with a key. -/
def get? (c : Catalog) (key : String) : Option TypeEntry := c.index[key]?

theorem get?_eq_find? (c : Catalog) (key : String) :
    c.get? key = c.entries.find? (·.key == key) := by
  rw [get?, c.index_eq, TypeEntry.getElem?_indexOf]

/-- The leaves, in the order of the document. -/
def leaves (c : Catalog) : List TypeEntry := c.entries.filter TypeEntry.isLeaf

end Catalog

end OverloadSuite
