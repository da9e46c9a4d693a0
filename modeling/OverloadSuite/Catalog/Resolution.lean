import OverloadSuite.Catalog.Selection

/-!
Resolving type keys to leaves. The children of an entry are visited in order and depth first; every
covered leaf is listed once, where it is first met. A generic that is met again on the way down
from itself is a cycle.
-/
namespace OverloadSuite

namespace Catalog

/-- The number of entries that are not on a path. -/
def unvisited (c : Catalog) (path : List String) : Nat :=
  (c.entries.filter fun e => !path.contains e.key).length

theorem length_filter_cons_lt {entries : List TypeEntry} {path : List String} {e : TypeEntry}
    (he : e ∈ entries) (hpath : e.key ∉ path) :
    (entries.filter fun d => !(e.key :: path).contains d.key).length <
      (entries.filter fun d => !path.contains d.key).length := by
  have hsub : entries.filter (fun d => !(e.key :: path).contains d.key) =
      (entries.filter fun d => !path.contains d.key).filter fun d => !decide (d.key = e.key) := by
    rw [List.filter_filter]
    refine List.filter_congr fun d _ => ?_
    simp
  rw [hsub]
  refine List.length_filter_lt_length_iff_exists.mpr ⟨e, ?_, by simp⟩
  simpa [he] using hpath

theorem unvisited_cons_lt {c : Catalog} {path : List String} {key : String} {e : TypeEntry}
    (h : c.get? key = some e) (hpath : ¬path.contains e.key) :
    c.unvisited (e.key :: path) < c.unvisited path := by
  have he : e ∈ c.entries := List.mem_of_find?_eq_some ((c.get?_eq_find? key).symm.trans h)
  exact length_filter_cons_lt he (by simpa using hpath)

/-- Who mentions a key that is met at the end of a path. -/
def referrer (path : List String) : Referrer :=
  match path with
  | [] => .request
  | key :: _ => .entry key

/-- The leaves of `found` and, after them, the covered leaves below a key that are not among them.
The path holds the keys of the generics on the way down, last one first. -/
def visit (c : Catalog) (s : Selection) (path : List String) (found : List TypeEntry)
    (key : String) : Except Fault (List TypeEntry) :=
  match _ : c.get? key with
  | none => .error (.unknownType key (referrer path))
  | some e =>
    if e.isLeaf then
      if s.covers e && found.all (·.key != e.key) then .ok (found ++ [e]) else .ok found
    else if _ : path.contains e.key then .error (.typeCycle e.key)
    else e.children.foldlM (fun found child => c.visit s (e.key :: path) found child) found
termination_by c.unvisited path
decreasing_by exact unvisited_cons_lt (by assumption) (by assumption)

/-- The covered leaves that a key leads to, in the order in which they are first met. -/
def resolve (c : Catalog) (s : Selection) (key : String) : Except Fault (List TypeEntry) :=
  c.visit s [] [] key

end Catalog

/-- The leaves that each key of a catalog leads to, in the order of the document. An index of them
follows from the list. -/
structure Resolution where
  bindings : List (String × List TypeEntry)
  index : Index (List TypeEntry) := .ofList bindings
  index_eq : index = .ofList bindings := by rfl

namespace Resolution

/-- The resolution of every key of a catalog. -/
def ofCatalog (c : Catalog) (s : Selection) : Except Fault Resolution := do
  return { bindings := ← c.entries.mapM fun e => do return (e.key, ← c.resolve s e.key) }

/-- The leaves of a key. -/
def get? (r : Resolution) (key : String) : Option (List TypeEntry) := r.index[key]?

theorem get?_eq_lookup (r : Resolution) (key : String) : r.get? key = r.bindings.lookup key := by
  rw [get?, r.index_eq, Index.getElem?_ofList]

/-- The keys with their leaves, in ascending order of the keys. -/
def listing (r : Resolution) : List (String × List TypeEntry) :=
  r.bindings.mergeSort fun a b => a.1 ≤ b.1

end Resolution

end OverloadSuite
