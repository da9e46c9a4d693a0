import OverloadSuite.Proofs.Outcome

/-!
# Attempts

What it means for a computation with a state to give a result or to fail, and which state it leaves.
Later proofs take computations apart with these facts and never open the monads themselves.
-/

namespace OverloadSuite.Attempt

variable {ε σ α β : Type} {s : σ} {a : α} {e : ε}

/-- What an attempt gives from a state. -/
def outcome (x : ExceptT ε (StateM σ) α) (s : σ) : Except ε α := (x.run s).1

/-- The state after an attempt. -/
def rest (x : ExceptT ε (StateM σ) α) (s : σ) : σ := (x.run s).2

@[simp] theorem outcome_pure (a : α) (s : σ) :
    outcome (pure a : ExceptT ε (StateM σ) α) s = .ok a := rfl

@[simp] theorem rest_pure (a : α) (s : σ) : rest (pure a : ExceptT ε (StateM σ) α) s = s := rfl

/-- The second attempt goes on where the first one ended. -/
theorem outcome_bind (x : ExceptT ε (StateM σ) α) (f : α → ExceptT ε (StateM σ) β) (s : σ) :
    outcome (x >>= f) s = outcome x s >>= fun a => outcome (f a) (rest x s) := by
  change (ExceptT.bindCont f (x.run s).1 (x.run s).2).1 =
    (x.run s).1 >>= fun a => ((f a).run (x.run s).2).1
  cases (x.run s).1 <;> rfl

theorem rest_bind {x : ExceptT ε (StateM σ) α} {f : α → ExceptT ε (StateM σ) β}
    (h : outcome x s = .ok a) : rest (x >>= f) s = rest (f a) (rest x s) := by
  change (ExceptT.bindCont f (x.run s).1 (x.run s).2).2 = ((f a).run (x.run s).2).2
  rw [show (x.run s).1 = .ok a from h]
  rfl

/-- After a failure nothing more is done. -/
theorem rest_bind_error {x : ExceptT ε (StateM σ) α} {f : α → ExceptT ε (StateM σ) β}
    (h : outcome x s = .error e) : rest (x >>= f) s = rest x s := by
  change (ExceptT.bindCont f (x.run s).1 (x.run s).2).2 = (x.run s).2
  rw [show (x.run s).1 = .error e from h]
  rfl

theorem bind_eq_ok {x : ExceptT ε (StateM σ) α} {f : α → ExceptT ε (StateM σ) β} {b : β} :
    outcome (x >>= f) s = .ok b ↔
      ∃ a, outcome x s = .ok a ∧ outcome (f a) (rest x s) = .ok b := by
  rw [outcome_bind, Outcome.bind_eq_ok]

theorem bind_eq_error {x : ExceptT ε (StateM σ) α} {f : α → ExceptT ε (StateM σ) β} :
    outcome (x >>= f) s = .error e ↔ outcome x s = .error e ∨
      ∃ a, outcome x s = .ok a ∧ outcome (f a) (rest x s) = .error e := by
  rw [outcome_bind, Outcome.bind_eq_error]

end OverloadSuite.Attempt
