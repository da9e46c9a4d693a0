import OverloadSuite.Proofs.Run.Numbering

/-!
# Runs for some functions

A run may be asked for functions by their names. The signatures of all others are left out before
anything is expanded, and it is as if their overloads had been left out afterwards: a repetition has
the name of the overload that it repeats, so no overload stays, or goes,
because of what is left out.
-/

namespace OverloadSuite

open Outcome

/-- A signature whose name is in a list of names, on its own or with its scope. -/
def Signature.Named (names : List String) (f : Signature) : Prop :=
  f.name ∈ names ∨ f.qualifiedName ∈ names

instance (names : List String) (f : Signature) : Decidable (f.Named names) :=
  inferInstanceAs (Decidable (_ ∨ _))

/-- Whether a signature is named depends on its scope and its name. -/
theorem Signature.named_congr {names : List String} {f g : Signature} (hscope : f.scope = g.scope)
    (hname : f.name = g.name) : f.Named names ↔ g.Named names := by
  rw [Named, Named, qualifiedName, qualifiedName, hscope, hname]

theorem RunOptions.wants_of_no_functions (start : UInt64) (check : Checking) (f : Signature) :
    RunOptions.wants ⟨start, check, []⟩ f = true := rfl

theorem RunOptions.wants_eq_named {names : List String} (hnames : names ≠ []) (start : UInt64)
    (check : Checking) (f : Signature) :
    RunOptions.wants ⟨start, check, names⟩ f = decide (f.Named names) := by
  have hsome : names.isEmpty = false := by simpa using hnames
  rw [wants, hsome, Bool.false_or, Bool.eq_iff_iff, List.any_eq_true, decide_eq_true_iff]
  constructor
  · intro h
    obtain ⟨name, hmem, h⟩ := h
    rcases Bool.or_eq_true_iff.mp h with h | h
    · exact .inl (eq_of_beq h ▸ hmem)
    · exact .inr (eq_of_beq h ▸ hmem)
  · intro h
    rcases h with h | h
    · exact ⟨f.name, h, by simp⟩
    · exact ⟨f.qualifiedName, h, by simp⟩

namespace Suite

/-- The blocks of the overloads that a filter keeps are those blocks whose overload it keeps. -/
theorem blocks_filter (check : Checking) (p : Overload → Bool) (os : List Overload) :
    blocks check (os.filter p) = (blocks check os).filter fun block => p block.1 := by
  refine Expansion.flatMap_filter_owner Prod.fst (fun o block hblock => ?_) p os
  obtain ⟨_, -, rfl⟩ := List.mem_map.mp hblock
  rfl

/-- Fewer overloads have no more cases. -/
theorem caseCount_filter_le (p : Overload → Bool) (os : List Overload) :
    Overload.caseCount (os.filter p) ≤ Overload.caseCount os := by
  have hblocks : ∀ os, (blocks .plain os).length = Overload.caseCount os := by
    intro os
    rw [length_blocks, length_plan]
  rw [← hblocks, ← hblocks, blocks_filter]
  exact List.length_filter_le _ _

end Suite

namespace Run

variable {σ : Type} [WordSource σ] {w : σ} {c : Catalog} {signatures : List Signature}
  {s : Selection} {start : UInt64} {check : Checking} {names : List String} {x : Expansion}

/-- The blocks that a run lists are those of its overloads. -/
theorem map_listing_of_draw {o : RunOptions} {run : Run} (hx : expansion c signatures s o = .ok x)
    (h : (draw c signatures s o : Draw σ Run).outcome w = .ok run) :
    run.suite.map TestCase.listing = Suite.blocks o.check x.overloads := by
  obtain ⟨x', suite, hx', hsuite, rfl⟩ := draw_eq_ok.mp h
  obtain rfl := Except.ok.inj (hx.symm.trans hx')
  rw [← Suite.map_plan]
  exact Suite.map_listing_of_drawFrom Suite.mem_ofOverload_of_mem_plan hsuite

theorem expansion_of_names {r : Resolution} (hnames : names ≠ [])
    (hr : Resolution.ofCatalog c s = .ok r)
    (hx : expansion c signatures s ⟨start, check, []⟩ = .ok x) :
    expansion c signatures s ⟨start, check, names⟩ =
      .ok ⟨x.overloads.filter fun o => o.template.Named names,
        ((signatures.filter fun f => (Expansion.overloadsAlone r f).isEmpty).filter
          fun f => f.Named names).map fun f =>
            .ofCode .emptyExpansion (Expansion.emptyMessage f)⟩ := by
  obtain ⟨r', hr', hx⟩ := bind_eq_ok.mp hx
  obtain rfl := Except.ok.inj (hr.symm.trans hr')
  rw [List.filter_eq_self.mpr fun f _ => RunOptions.wants_of_no_functions start check f] at hx
  have hfilter : signatures.filter (RunOptions.wants ⟨start, check, names⟩) =
      signatures.filter fun f => f.Named names :=
    List.filter_congr fun f _ => RunOptions.wants_eq_named hnames start check f
  refine bind_eq_ok.mpr ⟨r, hr, ?_⟩
  rw [hfilter]
  refine Expansion.ofSignatures_filter (fun f g hscope hname => ?_) hx
  exact decide_eq_decide.mpr (Signature.named_congr hscope hname)

/-- A run for some functions succeeds if the run for all of them does: what it has to do is less,
and nothing of it depends on the words that are drawn. -/
theorem exists_draw_of_names {x' : Expansion} {p : Overload → Bool} {run : Run} (w' : σ)
    (hx : expansion c signatures s ⟨start, check, []⟩ = .ok x)
    (hx' : expansion c signatures s ⟨start, check, names⟩ = .ok x')
    (hfilter : x'.overloads = x.overloads.filter p)
    (h : (draw c signatures s ⟨start, check, []⟩ : Draw σ Run).outcome w = .ok run) :
    ∃ run', (draw c signatures s ⟨start, check, names⟩ : Draw σ Run).outcome w' = .ok run' := by
  obtain ⟨_, hx₁, htestable, hlast⟩ := exists_draw_eq_ok.mp ⟨run, h⟩
  obtain rfl := Except.ok.inj (hx.symm.trans hx₁)
  have hfewer := Suite.caseCount_filter_le p x.overloads
  refine exists_draw_eq_ok.mpr ⟨x', hx', ?_, ?_⟩
  · intro overload hmem
    rw [hfilter] at hmem
    exact htestable overload (List.mem_of_mem_filter hmem)
  · rw [hfilter]
    exact Nat.lt_of_le_of_lt (Nat.add_le_add_left hfewer _) hlast

/-- **Filtering commutes with expanding.** If a run for all functions succeeds, so does the run for
those that some names mention, from any state of the source of words. Its overloads are those of the
whole run whose template is named, in the same order and with the same templates, and so are the
blocks of its cases. The diagnostics of the whole run are warnings about signatures, one after the
other and under one code; those of the run for some functions are the ones whose signature is
named. -/
theorem draw_names_filters (c : Catalog) (s : Selection) (signatures : List Signature)
    (start : UInt64) (check : Checking) (names : List String) (hnames : names ≠ []) (w w' : σ)
    (run : Run) (h : (draw c signatures s ⟨start, check, []⟩ : Draw σ Run).outcome w = .ok run) :
    ∃ r x x' run', Resolution.ofCatalog c s = .ok r ∧
      expansion c signatures s ⟨start, check, []⟩ = .ok x ∧
      expansion c signatures s ⟨start, check, names⟩ = .ok x' ∧
      (draw c signatures s ⟨start, check, names⟩ : Draw σ Run).outcome w' = .ok run' ∧
      x'.overloads = x.overloads.filter (fun o => o.template.Named names) ∧
      run'.overloadCount = x'.overloads.length ∧
      run'.suite.map TestCase.listing =
        (run.suite.map TestCase.listing).filter (fun block => block.1.template.Named names) ∧
      run.diagnostics =
        (signatures.filter fun f => (Expansion.overloadsAlone r f).isEmpty).map (fun f =>
          .ofCode .emptyExpansion (Expansion.emptyMessage f)) ∧
      run'.diagnostics =
        (((signatures.filter fun f => (Expansion.overloadsAlone r f).isEmpty).filter
          fun f => f.Named names).map fun f =>
            .ofCode .emptyExpansion (Expansion.emptyMessage f)) ∧
      ∀ d ∈ run.diagnostics ++ run'.diagnostics,
        d.code = .emptyExpansion ∧ d.code.number = "MG0200" := by
  obtain ⟨x, suite, hx, -, hrun⟩ := draw_eq_ok.mp h
  obtain ⟨r, hr, hsignatures⟩ := bind_eq_ok.mp hx
  have hx' := expansion_of_names hnames hr hx
  obtain ⟨run', hrun'⟩ := exists_draw_of_names w' hx hx' rfl h
  have hwhole : run.diagnostics =
      (signatures.filter fun f => (Expansion.overloadsAlone r f).isEmpty).map fun f =>
        .ofCode .emptyExpansion (Expansion.emptyMessage f) := by
    obtain ⟨-, rfl⟩ := Expansion.ofSignatures_eq_ok.mp hsignatures
    rw [hrun]
    simp only [Expansion.flatMap_remarks,
      List.filter_eq_self.mpr fun f _ => RunOptions.wants_of_no_functions start check f]
  refine ⟨r, x, _, run', hr, hx, hx', hrun', rfl, ?_, ?_, hwhole, ?_, fun d hd => ?_⟩
  · obtain ⟨_, _, hx₁, -, rfl⟩ := draw_eq_ok.mp hrun'
    rw [Except.ok.inj (hx'.symm.trans hx₁)]
  · rw [map_listing_of_draw hx' hrun', map_listing_of_draw hx h]
    exact Suite.blocks_filter check _ x.overloads
  · obtain ⟨_, _, hx₁, -, rfl⟩ := draw_eq_ok.mp hrun'
    rw [← Except.ok.inj (hx'.symm.trans hx₁)]
  · rcases List.mem_append.mp hd with hd | hd
    · rw [hwhole] at hd
      obtain ⟨f, -, rfl⟩ := List.mem_map.mp hd
      rw [Diagnostic.code_ofCode]
      exact ⟨rfl, rfl⟩
    · obtain ⟨_, _, hx₁, -, rfl⟩ := draw_eq_ok.mp hrun'
      rw [← Except.ok.inj (hx'.symm.trans hx₁)] at hd
      obtain ⟨f, -, rfl⟩ := List.mem_map.mp hd
      rw [Diagnostic.code_ofCode]
      exact ⟨rfl, rfl⟩

/-- Of `sin` and `fract` over the diamond, the qualified name of the second one leaves its overload
with its six cases. -/
theorem draw_names_filters_fract :
    ∃ run run' x', (draw .diamond [Overload.sin.template, Overload.fract.template]
        (.allOf .diamond) ⟨0, .verified, []⟩ : Draw Ramp Run).outcome ⟨0, 1⟩ = .ok run ∧
      expansion .diamond [Overload.sin.template, Overload.fract.template] (.allOf .diamond)
        ⟨0, .verified, ["sycl::fract"]⟩ = .ok x' ∧
      (draw .diamond [Overload.sin.template, Overload.fract.template]
        (.allOf .diamond) ⟨0, .verified, ["sycl::fract"]⟩ : Draw Ramp Run).outcome ⟨0, 1⟩ =
          .ok run' ∧
      x'.overloads = [.fract] ∧ run.suite.length = 7 ∧ run'.overloadCount = 1 ∧
      run'.suite.map TestCase.listing = (run.suite.map TestCase.listing).drop 1 := by
  obtain ⟨suite, hsuite⟩ := Overload.exists_draw_samples .verified 0 ⟨0, 1⟩ (by decide)
  have hrun := draw_eq_ok.mpr ⟨_, suite, expansion_diamond 0 .verified, hsuite, rfl⟩
  obtain ⟨r, x, x', run', -, hx, hx', hrun', hoverloads, hcount, hlisting, -, -⟩ :=
    draw_names_filters .diamond (.allOf .diamond) [Overload.sin.template, Overload.fract.template]
      0 .verified ["sycl::fract"] (by decide) (⟨0, 1⟩ : Ramp) ⟨0, 1⟩ _ hrun
  obtain rfl := Except.ok.inj ((expansion_diamond 0 .verified).symm.trans hx)
  have hfract : x'.overloads = [.fract] := by
    rw [hoverloads]
    decide +kernel
  refine ⟨_, run', x', hrun, hx', hrun', hfract, Suite.length_of_drawFrom hsuite, ?_, ?_⟩
  · rw [hcount, hfract]
    rfl
  · rw [hlisting, map_listing_of_draw hx hrun]
    decide +kernel

end Run

end OverloadSuite
