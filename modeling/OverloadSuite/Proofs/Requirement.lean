import OverloadSuite.Fault
import OverloadSuite.Proofs.Outcome

/-!
# Requirements

Checks stop at the first condition that does not hold. What a check asks for is a list of
requirements in the order in which they are looked at; the checks of the steps of a computation,
laid end to end, are the checks of the whole.
-/

namespace OverloadSuite

open Outcome

/-- A condition, and the fault for which a check stops if it does not hold. -/
structure Requirement where
  holds : Prop
  fault : Fault

namespace Requirement

variable {α β : Type} {q : Requirement} {qs qs' : List Requirement} {fault : Fault}

/-- The first requirement of a list that does not hold has this fault. -/
inductive FirstBroken : List Requirement → Fault → Prop
  | here {q : Requirement} {qs : List Requirement} : ¬q.holds → FirstBroken (q :: qs) q.fault
  | later {q : Requirement} {qs : List Requirement} {fault : Fault} :
    q.holds → FirstBroken qs fault → FirstBroken (q :: qs) fault

theorem not_firstBroken_nil : ¬FirstBroken [] fault := nofun

theorem firstBroken_cons : FirstBroken (q :: qs) fault ↔
    (¬q.holds ∧ fault = q.fault) ∨ (q.holds ∧ FirstBroken qs fault) := by
  constructor
  · intro h
    cases h with
    | here h => exact .inl ⟨h, rfl⟩
    | later h hrest => exact .inr ⟨h, hrest⟩
  · rintro (⟨h, rfl⟩ | ⟨h, hrest⟩)
    · exact .here h
    · exact .later h hrest

theorem FirstBroken.exists_mem (h : FirstBroken qs fault) :
    ∃ q ∈ qs, ¬q.holds ∧ fault = q.fault := by
  induction h with
  | here h => exact ⟨_, List.mem_cons_self, h, rfl⟩
  | later _ _ ih =>
    obtain ⟨q, hq, h⟩ := ih
    exact ⟨q, List.mem_cons_of_mem _ hq, h⟩

theorem firstBroken_append : FirstBroken (qs ++ qs') fault ↔
    FirstBroken qs fault ∨ ((∀ q ∈ qs, q.holds) ∧ FirstBroken qs' fault) := by
  induction qs with
  | nil => simp [not_firstBroken_nil]
  | cons q qs ih =>
    rw [List.cons_append, firstBroken_cons, firstBroken_cons, ih, List.forall_mem_cons]
    tauto

/-- Some requirement is the first one that does not hold, unless all hold. -/
theorem exists_firstBroken : (∃ fault, FirstBroken qs fault) ↔ ¬∀ q ∈ qs, q.holds := by
  induction qs with
  | nil => simp [not_firstBroken_nil]
  | cons q qs ih =>
    rw [List.forall_mem_cons, not_and_or, ← ih]
    by_cases hq : q.holds
    · simp [firstBroken_cons, hq]
    · simp [firstBroken_cons, hq]

/-- What is left out of a list holds anyway, so it is not missed. -/
theorem firstBroken_map_filter {require : α → Requirement} {p : α → Bool} {as : List α}
    (h : ∀ a ∈ as, p a = false → (require a).holds) :
    FirstBroken ((as.filter p).map require) fault ↔ FirstBroken (as.map require) fault := by
  induction as with
  | nil => exact Iff.rfl
  | cons a as ih =>
    obtain ⟨ha, has⟩ := List.forall_mem_cons.mp h
    by_cases hp : p a = true
    · rw [List.filter_cons_of_pos hp, List.map_cons, List.map_cons, firstBroken_cons,
        firstBroken_cons, ih has]
    · rw [List.filter_cons_of_neg hp, ih has, List.map_cons, firstBroken_cons]
      have hholds := ha (by simpa using hp)
      simp [hholds]

/-- A computation fails exactly for the first requirement that does not hold, with its fault. -/
def Enforced (qs : List Requirement) (x : Except Fault α) : Prop :=
  ∀ fault, x = .error fault ↔ FirstBroken qs fault

/-- It gives a result exactly if all requirements hold. -/
theorem Enforced.exists_eq_ok {x : Except Fault α} (h : Enforced qs x) :
    (∃ a, x = .ok a) ↔ ∀ q ∈ qs, q.holds := by
  rw [← not_iff_not, ← exists_firstBroken]
  simp only [← h _]
  cases x <;> simp

/-- Whatever it fails for is the fault of a requirement that does not hold. -/
theorem Enforced.exists_broken {x : Except Fault α} (h : Enforced qs x) (hx : x = .error fault) :
    ∃ q ∈ qs, ¬q.holds ∧ fault = q.fault := ((h fault).mp hx).exists_mem

theorem enforced_ok (a : α) : Enforced [] (.ok a) :=
  fun _ => ⟨nofun, fun h => absurd h not_firstBroken_nil⟩

theorem enforced_ite {p : Prop} [Decidable p] (a : α) (fault : Fault) :
    Enforced [⟨p, fault⟩] (if p then .ok a else .error fault) := by
  intro fault'
  rw [firstBroken_cons]
  by_cases hp : p
  · simp [hp, not_firstBroken_nil]
  · simp [hp, eq_comm]

theorem Enforced.bind {x : Except Fault α} {f : α → Except Fault β} (hx : Enforced qs x)
    (hf : ∀ a, x = .ok a → Enforced qs' (f a)) : Enforced (qs ++ qs') (x >>= f) := by
  intro fault
  rw [bind_eq_error, firstBroken_append, hx fault, ← hx.exists_eq_ok]
  refine or_congr_right ?_
  constructor
  · intro h
    obtain ⟨a, ha, h⟩ := h
    exact ⟨⟨a, ha⟩, (hf a ha fault).mp h⟩
  · intro h
    obtain ⟨⟨a, ha⟩, h⟩ := h
    exact ⟨a, ha, (hf a ha fault).mpr h⟩

/-- Along a list, the requirements of each element come before those of the next one. -/
theorem Enforced.mapM {f : α → Except Fault β} {require : α → List Requirement}
    (hf : ∀ a, Enforced (require a) (f a)) (as : List α) :
    Enforced (as.flatMap require) (as.mapM f) := by
  induction as with
  | nil => exact enforced_ok []
  | cons a as ih =>
    rw [List.mapM_cons, List.flatMap_cons]
    refine (hf a).bind fun b _ => ?_
    have hrest : Enforced (as.flatMap require ++ []) (as.mapM f >>= fun bs => pure (b :: bs)) :=
      ih.bind fun bs _ => enforced_ok _
    rwa [List.append_nil] at hrest

end Requirement

end OverloadSuite
