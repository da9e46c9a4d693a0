import OverloadSuite.Proofs.Run.Numbering
import OverloadSuite.Proofs.TestCase.Inputs

/-!
# Runs from another number

The first number of a run counts on from case to case and stands once in the text of each, and that
is all that it does. Two runs from different numbers make the same cases with other numbers.
-/

namespace OverloadSuite

namespace TestCase

variable {σ : Type} [WordSource σ] {w : σ} {id id' : UInt64} {o : Overload} {v : Variant}
  {c c' : TestCase}

/-- A case with another number. -/
def renumber (id : UInt64) (c : TestCase) : TestCase := { c with id }

@[simp] theorem id_renumber : (c.renumber id).id = id := rfl

@[simp] theorem listing_renumber : (c.renumber id).listing = c.listing := rfl

/-- Only the place of the number in the text of a case changes with the number. -/
theorem source_renumber (id : UInt64) (c : TestCase) : (c.renumber id).source =
    c.block.textBeforeId ++ toString id.toNat ++ c.block.textAfterId := rfl

/-- A case takes the same inputs, and finds the same result, under every number. -/
theorem eq_renumber_of_draw (h : (draw id o v : Draw σ TestCase).outcome w = .ok c)
    (h' : (draw id' o v : Draw σ TestCase).outcome w = .ok c') : c' = c.renumber id' := by
  obtain ⟨pointer, inputs, known, hpointer, hinputs, hknown, rfl⟩ := draw_eq_ok.mp h
  obtain ⟨pointer', inputs', known', hpointer', hinputs', hknown', rfl⟩ := draw_eq_ok.mp h'
  obtain rfl : pointer = pointer' := by simpa [hpointer] using hpointer'
  obtain rfl : inputs = inputs' := by simpa [hinputs] using hinputs'
  obtain rfl : known = known' := by simpa [hknown] using hknown'
  rfl

end TestCase

namespace Suite

variable {σ : Type} [WordSource σ] {w : σ} {start start' id id' : UInt64}
  {plan : List (Overload × Variant)} {suite suite' : Suite}

/-- Two suites of one plan are alike case by case, up to the numbers. -/
theorem forall₂_renumber (h : (drawFrom start id plan : Draw σ Suite).outcome w = .ok suite)
    (h' : (drawFrom start' id' plan : Draw σ Suite).outcome w = .ok suite') :
    List.Forall₂ (fun c c' => c' = c.renumber c'.id) suite suite' := by
  induction plan generalizing id id' w suite suite' with
  | nil =>
    cases h
    cases h'
    exact .nil
  | cons entry plan ih =>
    obtain ⟨c, cs, hc, -, hcs, rfl⟩ := drawFrom_cons_eq_ok.mp h
    obtain ⟨c', cs', hc', -, hcs', rfl⟩ := drawFrom_cons_eq_ok.mp h'
    obtain rfl := TestCase.eq_renumber_of_draw hc hc'
    -- the source goes on from the same state, whatever the number was
    rw [← TestCase.rest_eq ⟨rfl, rfl⟩ hc hc'] at hcs'
    exact .cons rfl (ih hcs hcs')

end Suite

namespace Run

variable {σ : Type} [WordSource σ] {c : Catalog} {signatures : List Signature} {s : Selection}
  {o : RunOptions} {w : σ} {run run' : Run}

/-- A run takes words for its suite only. -/
theorem rest_draw {x : Expansion} (hx : expansion c signatures s o = .ok x) :
    (draw c signatures s o : Draw σ Run).rest w =
      (Suite.draw o.startId o.check x.overloads : Draw σ Suite).rest w := by
  rw [draw, Draw.rest_bind (a := x) (by simp [hx]), Draw.rest_liftExcept, Draw.rest_bind_pure]

/-- **The first number changes the numbers only.** Two runs that start at different numbers, from
the same state of the source, make as many blocks, remark the same and leave the source in the same
state. Their blocks agree one by one in the overload, the memory space and the decoration, and the
texts of two such blocks are the same around one place, where each has its own number in decimal. -/
theorem draw_renumbered (start' : UInt64)
    (h : (draw c signatures s o : Draw σ Run).outcome w = .ok run)
    (h' : (draw c signatures s { o with startId := start' } : Draw σ Run).outcome w = .ok run') :
    run.suite.length = run'.suite.length ∧ run.diagnostics = run'.diagnostics ∧
      run.overloadCount = run'.overloadCount ∧
      (draw c signatures s o : Draw σ Run).rest w =
        (draw c signatures s { o with startId := start' } : Draw σ Run).rest w ∧
      ∀ (i : Nat) (d d' : TestCase), run.suite[i]? = some d → run'.suite[i]? = some d' →
        d.listing = d'.listing ∧
        ∃ before after, d.source = before ++ toString (o.startId.toNat + i) ++ after ∧
          d'.source = before ++ toString (start'.toNat + i) ++ after := by
  obtain ⟨x, suite, hx, hsuite, rfl⟩ := draw_eq_ok.mp h
  obtain ⟨x', suite', hx', hsuite', rfl⟩ := draw_eq_ok.mp h'
  -- the first number has no say in the expansion
  obtain rfl : x = x' := Except.ok.inj (hx.symm.trans hx')
  have hcases := Suite.forall₂_renumber hsuite hsuite'
  have hplan : ∀ plan : List (Overload × Variant),
      List.Forall₂ (fun entry entry' => entry.1.DrawsLike entry'.1) plan plan :=
    fun plan => List.forall₂_same.mpr fun _ _ => ⟨rfl, rfl⟩
  refine ⟨hcases.length_eq, rfl, rfl, ?_, ?_⟩
  · rw [rest_draw hx, rest_draw hx']
    exact (Suite.drawFrom_congr (hplan _) hsuite hsuite').1
  · intro i d d' hd hd'
    have hid : d.id.toNat = o.startId.toNat + i := Suite.toNat_id_of_drawFrom hsuite hd
    have hid' : d'.id.toNat = start'.toNat + i := Suite.toNat_id_of_drawFrom hsuite' hd'
    obtain ⟨hi, rfl⟩ := List.getElem?_eq_some_iff.mp hd
    obtain ⟨hi', rfl⟩ := List.getElem?_eq_some_iff.mp hd'
    have hsame : suite'[i] = suite[i].renumber suite'[i].id := hcases.get hi hi'
    refine ⟨(congrArg TestCase.listing hsame).symm, suite[i].block.textBeforeId,
      suite[i].block.textAfterId, ?_, ?_⟩
    · rw [← hid]
      exact TestCase.source_renumber suite[i].id suite[i]
    · rw [hsame, TestCase.source_renumber, hid']

/-- From 9 on, the number of the second case has a digit more than from 0 on. -/
theorem draw_renumbered_diamond : ∃ run run',
    (draw .diamond [Overload.sin.template, Overload.fract.template] (.allOf .diamond)
      ⟨0, .verified, []⟩ : Draw Ramp Run).outcome ⟨0, 1⟩ = .ok run ∧
    (draw .diamond [Overload.sin.template, Overload.fract.template] (.allOf .diamond)
      { (⟨0, .verified, []⟩ : RunOptions) with startId := 9 } : Draw Ramp Run).outcome ⟨0, 1⟩ =
        .ok run' ∧
    run.suite.length = 7 ∧ run'.suite.length = 7 ∧
    ∀ d d' : TestCase, run.suite[1]? = some d → run'.suite[1]? = some d' →
      ∃ before after, d.source = before ++ "1" ++ after ∧ d'.source = before ++ "10" ++ after := by
  obtain ⟨suite, hsuite⟩ := Overload.exists_draw_samples .verified 0 ⟨0, 1⟩ (by decide)
  obtain ⟨suite', hsuite'⟩ := Overload.exists_draw_samples .verified 9 ⟨0, 1⟩ (by decide)
  have hrun := draw_eq_ok.mpr ⟨_, suite, expansion_diamond 0 .verified, hsuite, rfl⟩
  have hrun' := draw_eq_ok.mpr ⟨_, suite', expansion_diamond 9 .verified, hsuite', rfl⟩
  obtain ⟨-, -, -, -, hblocks⟩ := draw_renumbered 9 hrun hrun'
  refine ⟨_, _, hrun, hrun', Suite.length_of_drawFrom hsuite, Suite.length_of_drawFrom hsuite', ?_⟩
  intro d d' hd hd'
  exact (hblocks 1 d d' hd hd').2

end Run

end OverloadSuite
