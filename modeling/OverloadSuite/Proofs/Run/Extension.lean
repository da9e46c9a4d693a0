import OverloadSuite.Proofs.Catalog.Extension
import OverloadSuite.Proofs.Run.Success

/-!
# Runs over larger catalogs

A run depends on the entries that its signatures lead to, and on nothing else of the catalog:
neither on their places nor on what stands beside them. One thing only is asked of the other
entries, that there is no cycle among them, for a run resolves every key.
-/

namespace OverloadSuite.Run

open Outcome

variable {σ : Type} [WordSource σ] {c c' : Catalog} {signatures : List Signature} {s : Selection}
  {o : RunOptions}

theorem expansion_eq_of_subset (hsub : c.entries ⊆ c'.entries) (hacyclic : c'.Acyclic)
    (hkeys : ∀ f ∈ signatures.filter o.wants, ∀ key ∈ f.keys, key ∈ c.keys) :
    expansion c signatures s o = expansion c' signatures s o := by
  obtain ⟨r, hr⟩ := (Catalog.ofCatalog_eq_ok (s := s)).mpr (hacyclic.of_subset hsub)
  obtain ⟨r', hr'⟩ := (Catalog.ofCatalog_eq_ok (s := s)).mpr hacyclic
  have hsame : ∀ f ∈ signatures.filter o.wants, ∀ key ∈ f.keys, r.get? key = r'.get? key := by
    intro f hf key hkey
    exact Catalog.get?_ofCatalog_of_subset hsub hr hr' (hkeys f hf key hkey)
  calc expansion c signatures s o
      = Expansion.ofSignatures r (signatures.filter o.wants) := by rw [expansion, hr]; rfl
    _ = Expansion.ofSignatures r' (signatures.filter o.wants) := Expansion.ofSignatures_congr hsame
    _ = expansion c' signatures s o := by rw [expansion, hr']; rfl

/-- **Neither the order of the catalog nor unused types matter.** Whatever a larger catalog adds to
a catalog, and wherever it puts the entries of the smaller one, each key of the smaller one
resolves to the same leaves or fails with the same cycle, under every selection. If the larger
catalog has no cycle and the wanted signatures name keys of the smaller one only, a run over either
is the same computation: the same cases, diagnostics, counts and numbers, or the same fault, and
the same state of the source of words in the end. -/
theorem draw_eq_of_larger_catalog (c c' : Catalog) (hsub : c.entries ⊆ c'.entries) :
    (∀ s, ∀ key ∈ c.keys, c.resolve s key = c'.resolve s key ∧
      ((∃ found, c.resolve s key = .ok found) ∨
        ∃ k, c.resolve s key = .error (.typeCycle k))) ∧
    ∀ signatures s o, c'.Acyclic →
      (∀ f ∈ signatures.filter o.wants, ∀ key ∈ f.keys, key ∈ c.keys) →
        (draw c signatures s o : Draw σ Run) = draw c' signatures s o := by
  refine ⟨?_, ?_⟩
  · intro s key hkey
    exact ⟨Catalog.resolve_eq_of_subset hsub hkey s, Catalog.resolve_ok_or_typeCycle hkey s⟩
  · intro signatures s o hacyclic hkeys
    rw [draw, draw, expansion_eq_of_subset hsub hacyclic hkeys]

/-- The diamond upside down, with a type and a generic that nothing in it mentions. -/
def diamondAmongOthers : Catalog where
  entries := .generic "genhalf" "scalar" ["half"] ::
    (Catalog.diamond.entries.reverse ++ [.leaf "half" "sycl::half" "scalar" "half" 1])
  shaped := by decide
  keys_nodup := by decide
  closed := by decide

/-- The seven cases of `sin` and `fract` are drawn over either catalog, from the same words. -/
theorem draw_eq_of_diamond_among_others :
    Catalog.diamond.entries ⊆ diamondAmongOthers.entries ∧ diamondAmongOthers.Acyclic ∧
      diamondAmongOthers.resolve (.allOf .diamond) "all" =
        Catalog.diamond.resolve (.allOf .diamond) "all" ∧
      ∃ run, (draw .diamond [Overload.sin.template, Overload.fract.template] (.allOf .diamond)
          ⟨0, .verified, []⟩ : Draw Ramp Run).outcome ⟨0, 1⟩ = .ok run ∧ run.suite.length = 7 ∧
        (draw diamondAmongOthers [Overload.sin.template, Overload.fract.template]
          (.allOf .diamond) ⟨0, .verified, []⟩ : Draw Ramp Run).outcome ⟨0, 1⟩ = .ok run := by
  have hsub : Catalog.diamond.entries ⊆ diamondAmongOthers.entries := by decide
  have hacyclic : diamondAmongOthers.Acyclic := by decide +kernel
  obtain ⟨hresolve, hdraw⟩ :=
    draw_eq_of_larger_catalog (σ := Ramp) .diamond diamondAmongOthers hsub
  obtain ⟨hall, -⟩ := hresolve (.allOf .diamond) "all" (by decide)
  obtain ⟨suite, hsuite⟩ := Overload.exists_draw_samples .verified 0 ⟨0, 1⟩ (by decide)
  have hrun := draw_eq_ok.mpr ⟨_, suite, expansion_diamond 0 .verified, hsuite, rfl⟩
  refine ⟨hsub, hacyclic, hall.symm, _, hrun, Suite.length_of_drawFrom hsuite, ?_⟩
  rw [← hdraw _ _ _ hacyclic (by decide)]
  exact hrun

end OverloadSuite.Run
