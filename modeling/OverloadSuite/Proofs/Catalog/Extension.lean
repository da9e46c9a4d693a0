import OverloadSuite.Proofs.Catalog.FirstVisits
import OverloadSuite.Proofs.Signature.Expansions

/-!
# Larger catalogs

Entries may be added to a catalog and may change places. What the keys of the smaller catalog lead
to stays the same: the walk from such a key never leaves the smaller catalog, for its entries
bring their children along.
-/

namespace OverloadSuite

open Outcome

namespace Catalog

variable {c c' : Catalog} {s : Selection} {key : String}

/-- Whatever a smaller catalog has under a key, a larger one has under it too. -/
theorem get?_of_subset {e : TypeEntry} (hsub : c.entries ⊆ c'.entries) (h : c.get? key = some e) :
    c'.get? key = some e := by
  obtain ⟨he, hkey⟩ := get?_eq_some.mp h
  exact get?_eq_some.mpr ⟨hsub he, hkey⟩

/-- From a key of the smaller catalog both walks do the same, whatever the path and the leaves found
so far. -/
theorem visit_eq_of_subset (hsub : c.entries ⊆ c'.entries) (hkey : key ∈ c.keys)
    (path : List String) (found : List TypeEntry) :
    c.visit s path found key = c'.visit s path found key := by
  induction path, key using descend (c := c) generalizing found with
  | unknown path key hnone => exact absurd hkey (get?_eq_none.mp hnone)
  | leaf path key e he hleaf =>
    rw [visit_leaf he hleaf, visit_leaf (get?_of_subset hsub he) hleaf]
  | repeated path key e he hleaf hmem =>
    rw [visit_repeated he hleaf hmem, visit_repeated (get?_of_subset hsub he) hleaf hmem]
  | generic path key e he hleaf hmem ih =>
    rw [visit_generic he hleaf hmem, visit_generic (get?_of_subset hsub he) hleaf hmem]
    -- a catalog is closed, so the children are keys of the smaller one again
    have hchild : ∀ child ∈ e.children, child ∈ c.keys := by
      intro child hchild
      have hedge : c.Child key child := ⟨e, he, hchild⟩
      exact hedge.mem_keys_right
    exact foldlM_congr (fun child hmem found => ih child hmem (hchild child hmem) found) found

theorem resolve_eq_of_subset (hsub : c.entries ⊆ c'.entries) (hkey : key ∈ c.keys) (s : Selection) :
    c.resolve s key = c'.resolve s key :=
  visit_eq_of_subset hsub hkey [] []

/-- A key of a catalog resolves, or there is a cycle. -/
theorem resolve_ok_or_typeCycle (hkey : key ∈ c.keys) (s : Selection) :
    (∃ found, c.resolve s key = .ok found) ∨ ∃ k, c.resolve s key = .error (.typeCycle k) := by
  rcases ok_or_error (c.resolve s key) with h | ⟨fault, h⟩
  · exact .inl h
  · rcases visit_eq_error (by simp) h with ⟨hunknown, -⟩ | ⟨k, -, rfl⟩
    · exact absurd hkey hunknown
    · exact .inr ⟨k, h⟩

/-- A catalog has no cycle that a larger one does not have. -/
theorem Acyclic.of_subset (h : c'.Acyclic) (hsub : c.entries ⊆ c'.entries) : c.Acyclic := by
  rw [acyclic_iff] at h ⊢
  intro key hkey
  have hkey' : key ∈ c'.keys := by
    obtain ⟨e, he⟩ := mem_keys.mp hkey
    exact mem_keys.mpr ⟨e, get?_of_subset hsub he⟩
  obtain ⟨found, hfound⟩ := (resolve_eq_ok (s := .allOf c')).mpr ⟨hkey', h key hkey'⟩
  rw [← resolve_eq_of_subset hsub hkey] at hfound
  exact (resolve_eq_ok.mp ⟨found, hfound⟩).2

/-- The resolutions of both catalogs hold the same for a key of the smaller one. -/
theorem get?_ofCatalog_of_subset {r r' : Resolution} (hsub : c.entries ⊆ c'.entries)
    (hr : Resolution.ofCatalog c s = .ok r) (hr' : Resolution.ofCatalog c' s = .ok r')
    (hkey : key ∈ c.keys) : r.get? key = r'.get? key := by
  obtain ⟨leaves, hleaves⟩ := (exists_get?_ofCatalog hr).mpr hkey
  obtain ⟨-, hresolve⟩ := (get?_ofCatalog hr).mp hleaves
  have hkey' : key ∈ c'.keys := by
    obtain ⟨e, he⟩ := mem_keys.mp hkey
    exact mem_keys.mpr ⟨e, get?_of_subset hsub he⟩
  rw [resolve_eq_of_subset hsub hkey] at hresolve
  rw [hleaves, (get?_ofCatalog hr').mpr ⟨hkey', hresolve⟩]

end Catalog

namespace Expansion

variable {r r' : Resolution}

/-- A signature sees of a resolution what it holds for the keys of the signature. -/
theorem ofSignature_congr {f : Signature} (h : ∀ key ∈ f.keys, r.get? key = r'.get? key) :
    ofSignature r f = ofSignature r' f := by
  have hslots : slots r f = slots r' f := by
    refine mapM_congr fun key hkey => ?_
    rw [h key (List.mem_eraseDups.mp hkey)]
  rw [ofSignature, ofSignature, hslots]

theorem ofSignatures_congr {signatures : List Signature}
    (h : ∀ f ∈ signatures, ∀ key ∈ f.keys, r.get? key = r'.get? key) :
    ofSignatures r signatures = ofSignatures r' signatures := by
  rw [ofSignatures, ofSignatures, mapM_congr fun f hf => ofSignature_congr (h f hf)]

end Expansion

end OverloadSuite
