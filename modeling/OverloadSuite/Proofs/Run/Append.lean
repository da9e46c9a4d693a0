import OverloadSuite.Proofs.Run.Success
import OverloadSuite.Proofs.TestCase.Append

/-!
# Runs with more signatures

Signatures that are appended leave alone what the earlier ones gave: the overloads that they add
come after all others, so their cases take later numbers and later words.
-/

namespace OverloadSuite.Run

open Outcome

variable {σ : Type} [WordSource σ]

theorem expansion_append_eq_ok {c : Catalog} {signatures more : List Signature} {s : Selection}
    {o : RunOptions} {x : Expansion} (h : expansion c (signatures ++ more) s o = .ok x) :
    ∃ x', expansion c signatures s o = .ok x' ∧ x'.overloads <+: x.overloads ∧
      x'.diagnostics <+: x.diagnostics := by
  obtain ⟨r, hr, hx⟩ := bind_eq_ok.mp h
  rw [List.filter_append] at hx
  obtain ⟨x', hx', hprefix⟩ := Expansion.ofSignatures_append_eq_ok hx
  exact ⟨x', bind_eq_ok.mpr ⟨r, hr, hx'⟩, hprefix⟩

/-- **Appended signatures only append.** If a run succeeds for some signatures and more, it succeeds
for those alone, from the same state of the source; its cases, its diagnostics and its source text
are those that the longer run begins with. Underneath, the suite of two lists of overloads is that
of the first and then that of the second, from the state and the number that the first leaves. -/
theorem draw_append_extends (c : Catalog) (s : Selection) (o : RunOptions) (w : σ)
    (signatures more : List Signature) :
    (∀ run, (draw c (signatures ++ more) s o : Draw σ Run).outcome w = .ok run →
      ∃ run', (draw c signatures s o : Draw σ Run).outcome w = .ok run' ∧
        run'.suite <+: run.suite ∧ run'.diagnostics <+: run.diagnostics ∧
        ∃ text, run.source = run'.source ++ text) ∧
    (∀ (start : UInt64) (check : Checking) (os os' : List Overload),
      (Suite.draw start check (os ++ os') : Draw σ Suite) = do
        let first ← Suite.draw start check os
        let second ← ExceptT.adapt (Fault.inSuiteFrom start)
          (Suite.draw (start + UInt64.ofNat first.length) check os')
        return first ++ second) := by
  refine ⟨fun run h => ?_, Suite.draw_append⟩
  obtain ⟨x, suite, hx, hsuite, rfl⟩ := draw_eq_ok.mp h
  obtain ⟨x', hx', ⟨new, hnew⟩, hdiagnostics⟩ := expansion_append_eq_ok hx
  rw [← hnew] at hsuite
  obtain ⟨first, hfirst, hprefix⟩ := Suite.draw_append_eq_ok hsuite
  refine ⟨_, draw_eq_ok.mpr ⟨x', first, hx', hfirst, rfl⟩, hprefix, hdiagnostics, ?_⟩
  obtain ⟨second, rfl⟩ := hprefix
  exact ⟨Suite.source second, Suite.source_append first second⟩

/-- Six cases of `fract` come after the one of `sin`. -/
theorem draw_append_extends_diamond :
    ∃ run run', (draw .diamond ([Overload.sin.template] ++ [Overload.fract.template])
        (.allOf .diamond) ⟨0, .verified, []⟩ : Draw Ramp Run).outcome ⟨0, 1⟩ = .ok run ∧
      (draw .diamond [Overload.sin.template] (.allOf .diamond) ⟨0, .verified, []⟩ :
        Draw Ramp Run).outcome ⟨0, 1⟩ = .ok run' ∧
      run.suite.length = 7 ∧ run'.suite <+: run.suite := by
  obtain ⟨suite, hsuite⟩ := Overload.exists_draw_samples .verified 0 ⟨0, 1⟩ (by decide)
  have hrun := draw_eq_ok.mpr ⟨_, suite, expansion_diamond 0 .verified, hsuite, rfl⟩
  obtain ⟨hextends, -⟩ := draw_append_extends .diamond (.allOf .diamond) ⟨0, .verified, []⟩
    (⟨0, 1⟩ : Ramp) [Overload.sin.template] [Overload.fract.template]
  obtain ⟨run', hrun', hprefix, -⟩ := hextends _ hrun
  exact ⟨_, run', hrun, hrun', Suite.length_of_drawFrom hsuite, hprefix⟩

end OverloadSuite.Run
