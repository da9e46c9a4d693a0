import OverloadSuite.Proofs.TestCase.Success

/-!
# Suites one after the other

The suite of two lists of overloads is that of the first and then that of the second, which goes on
with the number and the state of the source that the first one leaves. Only when the numbers run out
does it show that the second suite was not started on its own: the fault names the first number of
the whole.
-/

namespace OverloadSuite

/-- A fault as it is reported by a suite that starts at `start`. -/
def Fault.inSuiteFrom (start : UInt64) : Fault → Fault
  | .idOverflow _ => .idOverflow start
  | fault => fault

namespace TestCase

variable {σ : Type} [WordSource σ] {w : σ} {start id : UInt64} {o : Overload} {v : Variant}
  {fault : Fault}

/-- A case does not know the suite that it is in. -/
theorem inSuiteFrom_of_draw (h : (draw id o v : Draw σ TestCase).outcome w = .error fault) :
    fault.inSuiteFrom start = fault := by
  have hreference : o.template.checkReference = .error fault → fault.inSuiteFrom start = fault := by
    intro h
    obtain ⟨_, -, -, rfl⟩ := Signature.checkReference_eq_error h
    rfl
  -- none of the causes is a want of numbers
  rcases draw_eq_error h with h | ⟨_, -, -, rfl⟩ | ⟨inputs, -, h⟩
  · rcases checkedPointer_eq_error h with h | ⟨_, rfl⟩
    · rcases Signature.pointerIndex_eq_error h with ⟨_, rfl⟩ | rfl <;> rfl
    · rfl
  · rfl
  · rcases knownResult_eq_error h with h | ⟨_, -, -, rfl⟩
    · exact hreference h
    · rfl

end TestCase

namespace Suite

variable {σ : Type}

theorem adapt_nextId (start start' id : UInt64) :
    ExceptT.adapt (Fault.inSuiteFrom start) (liftExcept (nextId start' id) : Draw σ UInt64) =
      liftExcept (nextId start id) := by
  unfold nextId
  split <;> rfl

variable [WordSource σ]

/-- The first number of a suite has a say in its faults only. -/
theorem adapt_drawFrom (start start' id : UInt64) (plan : List (Overload × Variant)) :
    ExceptT.adapt (Fault.inSuiteFrom start) (drawFrom start' id plan : Draw σ Suite) =
      drawFrom start id plan := by
  induction plan generalizing id with
  | nil => rfl
  | cons entry plan ih =>
    have hcase : ∀ id, ExceptT.adapt (Fault.inSuiteFrom start)
        (TestCase.draw id entry.1 entry.2 : Draw σ TestCase) = TestCase.draw id entry.1 entry.2 :=
      fun id => Draw.adapt_eq_self fun _ _ => TestCase.inSuiteFrom_of_draw
    simp only [drawFrom, Draw.adapt_bind, adapt_nextId, hcase, ih, Draw.adapt_pure]

/-- The numbers go on where the first part of a plan left them. -/
theorem drawFrom_append (start id : UInt64) (plan plan' : List (Overload × Variant)) :
    (drawFrom start id (plan ++ plan') : Draw σ Suite) = do
      let first ← drawFrom start id plan
      let second ← drawFrom start (id + UInt64.ofNat first.length) plan'
      return first ++ second := by
  induction plan generalizing id with
  | nil => simp [drawFrom]
  | cons entry plan ih =>
    have hnext : ∀ n, id + 1 + UInt64.ofNat n = id + UInt64.ofNat (n + 1) := by
      intro n
      rw [UInt64.ofNat_add, UInt64.add_assoc, UInt64.add_comm 1]
      rfl
    -- `hnext` moves the counter past the first case, where the induction hypothesis wants it
    simp only [List.cons_append, drawFrom, bind_assoc, pure_bind, List.length_cons, ← hnext]
    congr 1
    funext c
    unfold nextId
    split
    · have hpure : (liftExcept (.ok (id + 1) : Except Fault UInt64) : Draw σ UInt64) =
          pure (id + 1) := rfl
      simp only [hpure, pure_bind, ih, bind_assoc]
    · -- the first part ends here, and with it the whole
      rfl

/-- The suite of two lists of overloads, by the suites of each. -/
theorem draw_append (start : UInt64) (check : Checking) (os os' : List Overload) :
    (draw start check (os ++ os') : Draw σ Suite) = do
      let first ← draw start check os
      let second ← ExceptT.adapt (Fault.inSuiteFrom start)
        (draw (start + UInt64.ofNat first.length) check os')
      return first ++ second := by
  simp only [draw, adapt_drawFrom]
  rw [plan, List.flatMap_append]
  exact drawFrom_append start start _ _

theorem draw_append_eq_ok {w : σ} {start : UInt64} {check : Checking} {os os' : List Overload}
    {suite : Suite} (h : (draw start check (os ++ os') : Draw σ Suite).outcome w = .ok suite) :
    ∃ first, (draw start check os : Draw σ Suite).outcome w = .ok first ∧ first <+: suite := by
  rw [draw_append] at h
  obtain ⟨first, hfirst, h⟩ := Draw.bind_eq_ok.mp h
  obtain ⟨second, -, h⟩ := Draw.bind_eq_ok.mp h
  cases h
  exact ⟨first, hfirst, List.prefix_append first second⟩

theorem source_append (suite suite' : Suite) :
    Suite.source (suite ++ suite') = suite.source ++ Suite.source suite' := by
  rw [source, List.map_append, String.join_append]
  rfl

end Suite

end OverloadSuite
