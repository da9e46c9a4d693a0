import OverloadSuite.Literal.Draw
import OverloadSuite.Proofs.Attempt

/-!
# Draws

What it means for a draw to give a result or to fail when it starts from a state of the source: the
facts about computations without a source, once more. Drawing literals fails for element types
without a class of values only, whatever the words are.
-/

namespace OverloadSuite

namespace Draw

variable {σ α β : Type} {w : σ} {fault : Fault}

/-- What a draw gives from a state of the source. -/
def outcome (d : Draw σ α) (w : σ) : Except Fault α := (d.run w).1

/-- The state of the source after a draw. -/
def rest (d : Draw σ α) (w : σ) : σ := (d.run w).2

/-! ## One draw after another -/

@[simp] theorem outcome_pure (a : α) (w : σ) : outcome (pure a) w = .ok a := rfl

@[simp] theorem outcome_throw (fault : Fault) (w : σ) :
    outcome (throw fault : Draw σ α) w = .error fault := rfl

@[simp] theorem outcome_lift (x : StateM σ α) (w : σ) :
    outcome (ExceptT.lift x) w = .ok (x.run w).1 := rfl

@[simp] theorem outcome_liftExcept (x : Except Fault α) (w : σ) :
    outcome (liftExcept x) w = x := by
  cases x <;> rfl

@[simp] theorem rest_pure (a : α) (w : σ) : rest (pure a) w = w := rfl

@[simp] theorem rest_liftExcept (x : Except Fault α) (w : σ) :
    rest (liftExcept x) w = w := by
  cases x <;> rfl

/-- The second draw goes on where the first one ended. -/
theorem outcome_bind (d : Draw σ α) (f : α → Draw σ β) (w : σ) :
    (d >>= f).outcome w = d.outcome w >>= fun a => (f a).outcome (d.rest w) :=
  Attempt.outcome_bind d f w

theorem rest_bind {d : Draw σ α} {f : α → Draw σ β} {a : α} (h : d.outcome w = .ok a) :
    (d >>= f).rest w = (f a).rest (d.rest w) :=
  Attempt.rest_bind h

/-- After a failure no more words are taken. -/
theorem rest_bind_error {d : Draw σ α} {f : α → Draw σ β} (h : d.outcome w = .error fault) :
    (d >>= f).rest w = d.rest w :=
  Attempt.rest_bind_error h

theorem rest_bind_pure (d : Draw σ α) (f : α → β) (w : σ) :
    (d >>= fun a => pure (f a)).rest w = d.rest w := by
  change (ExceptT.bindCont (fun a => (pure (f a) : Draw σ β)) (d.run w).1 (d.run w).2).2 =
    (d.run w).2
  cases (d.run w).1 <;> rfl

theorem bind_eq_ok {d : Draw σ α} {f : α → Draw σ β} {b : β} :
    (d >>= f).outcome w = .ok b ↔
      ∃ a, d.outcome w = .ok a ∧ (f a).outcome (d.rest w) = .ok b :=
  Attempt.bind_eq_ok

theorem bind_eq_error {d : Draw σ α} {f : α → Draw σ β} :
    (d >>= f).outcome w = .error fault ↔ d.outcome w = .error fault ∨
      ∃ a, d.outcome w = .ok a ∧ (f a).outcome (d.rest w) = .error fault :=
  Attempt.bind_eq_error

/-! ## Faults that are reported in another way -/

theorem ext {d d' : Draw σ α} (houtcome : ∀ w, d.outcome w = d'.outcome w)
    (hrest : ∀ w, d.rest w = d'.rest w) : d = d' := by
  funext w
  exact Prod.ext (houtcome w) (hrest w)

theorem adapt_bind (report : Fault → Fault) (d : Draw σ α) (f : α → Draw σ β) :
    ExceptT.adapt report (d >>= f) =
      ExceptT.adapt report d >>= fun a => ExceptT.adapt report (f a) := by
  funext w
  change (fun p => (Except.mapError report p.1, p.2)) (ExceptT.bindCont f (d.run w).1 (d.run w).2) =
    ExceptT.bindCont (fun a => ExceptT.adapt report (f a)) (Except.mapError report (d.run w).1)
      (d.run w).2
  cases (d.run w).1 <;> rfl

/-- A draw that has only faults which are reported as they are. -/
theorem adapt_eq_self {report : Fault → Fault} {d : Draw σ α}
    (h : ∀ w fault, d.outcome w = .error fault → report fault = fault) :
    ExceptT.adapt report d = d := by
  refine ext (fun w => ?_) fun w => rfl
  change Except.mapError report (d.outcome w) = d.outcome w
  cases hd : d.outcome w with
  | ok a => rfl
  | error fault => exact congrArg _ (h w fault hd)

theorem adapt_pure (report : Fault → Fault) (a : α) :
    ExceptT.adapt report (pure a : Draw σ α) = pure a := rfl

/-! ## The same draw for every element of a list -/

/-- Draws that succeed for some elements only, whatever the words are, succeed along a list exactly
if they do for each of its elements. -/
theorem exists_mapM_eq_ok {f : α → Draw σ β} {P : α → Prop}
    (h : ∀ a w, (∃ b, (f a).outcome w = .ok b) ↔ P a) {as : List α} :
    (∃ bs, (as.mapM f).outcome w = .ok bs) ↔ ∀ a ∈ as, P a := by
  induction as generalizing w with
  | nil => simp
  | cons a as ih =>
    rw [List.mapM_cons, List.forall_mem_cons, ← h a w, ← ih (w := (f a).rest w)]
    constructor
    · intro h
      obtain ⟨_, hrun⟩ := h
      obtain ⟨b, hb, hrun⟩ := bind_eq_ok.mp hrun
      obtain ⟨bs, hbs, -⟩ := bind_eq_ok.mp hrun
      exact ⟨⟨b, hb⟩, bs, hbs⟩
    · intro h
      obtain ⟨⟨b, hb⟩, bs, hbs⟩ := h
      exact ⟨b :: bs, bind_eq_ok.mpr ⟨b, hb, bind_eq_ok.mpr ⟨bs, hbs, rfl⟩⟩⟩

/-- What every draw ensures, the draws along a list ensure side by side. -/
theorem forall₂_of_mapM_eq_ok {f : α → Draw σ β} {R : α → β → Prop}
    (h : ∀ a w b, (f a).outcome w = .ok b → R a b) {as : List α} {bs : List β}
    (hrun : (as.mapM f).outcome w = .ok bs) : List.Forall₂ R as bs := by
  induction as generalizing w bs with
  | nil =>
    cases hrun
    exact .nil
  | cons a as ih =>
    rw [List.mapM_cons] at hrun
    obtain ⟨b, hb, hrun⟩ := bind_eq_ok.mp hrun
    obtain ⟨bs, hbs, hrun⟩ := bind_eq_ok.mp hrun
    cases hrun
    exact .cons (h a w b hb) (ih hbs)

/-- What every draw ensures of its result holds of all results along a list. -/
theorem forall_of_mapM_eq_ok {f : α → Draw σ β} {P : β → Prop}
    (h : ∀ a w b, (f a).outcome w = .ok b → P b) {as : List α} {bs : List β}
    (hrun : (as.mapM f).outcome w = .ok bs) : ∀ b ∈ bs, P b := by
  have hpairs : List.Forall₂ (fun _ b => P b) as bs := forall₂_of_mapM_eq_ok h hrun
  clear hrun
  induction hpairs with
  | nil => exact List.forall_mem_nil P
  | cons hfirst _ ih => exact List.forall_mem_cons.mpr ⟨hfirst, ih⟩

/-- The draws along a list stop at an element that fails. -/
theorem exists_of_mapM_eq_error {f : α → Draw σ β} {as : List α}
    (h : (as.mapM f).outcome w = .error fault) :
    ∃ a ∈ as, ∃ w', (f a).outcome w' = .error fault := by
  induction as generalizing w with
  | nil => cases h
  | cons a as ih =>
    rw [List.mapM_cons] at h
    rcases bind_eq_error.mp h with h | ⟨b, -, h⟩
    · exact ⟨a, List.mem_cons_self, w, h⟩
    rcases bind_eq_error.mp h with h | ⟨bs, -, h⟩
    · obtain ⟨a', ha', hfail⟩ := ih h
      exact ⟨a', List.mem_cons_of_mem _ ha', hfail⟩
    · cases h

end Draw

/-! ## Literals -/

namespace Literal

variable {σ : Type} [WordSource σ] {w : σ} {base : String} {count : Nat} {fault : Fault}
  {types : List TypeEntry}

theorem run_drawIndex_succ (count : UInt64) (tries : Nat) (w : σ) :
    (drawIndex count (tries + 1)).run w =
      if fair count (WordSource.next64 w).1 then
        (selected count (WordSource.next64 w).1, (WordSource.next64 w).2)
      else (drawIndex count tries).run (WordSource.next64 w).2 := by
  show (if fair count (WordSource.next64 w).1 then pure (selected count (WordSource.next64 w).1)
    else drawIndex count tries).run (WordSource.next64 w).2 = _
  split <;> rfl

/-- An index is selected by one of the words. -/
theorem exists_drawIndex_eq_selected (count : UInt64) (tries : Nat) (w : σ) :
    ∃ x, ((drawIndex count tries).run w).1 = selected count x := by
  induction tries generalizing w with
  | zero => exact ⟨_, rfl⟩
  | succ tries ih =>
    rw [run_drawIndex_succ]
    split
    · exact ⟨_, rfl⟩
    · exact ih _

/-- Literals can be drawn for the element types that have a class of values. -/
theorem exists_drawMany_eq_ok :
    (∃ literals, (drawMany base count : Draw σ _).outcome w = .ok literals) ↔
      (LiteralClass.ofBase? base).isSome = true := by
  rw [drawMany]
  cases LiteralClass.ofBase? base with
  | none => simp
  | some cls =>
    rw [Draw.exists_mapM_eq_ok (P := fun _ => True) (by simp)]
    simp

theorem length_of_drawMany {literals : List String}
    (h : (drawMany base count : Draw σ _).outcome w = .ok literals) : literals.length = count := by
  rw [drawMany] at h
  split at h
  · have hpairs := Draw.forall₂_of_mapM_eq_ok (R := fun _ _ => True) (by simp) h
    simpa using hpairs.length_eq.symm
  · cases h

theorem drawMany_eq_error (h : (drawMany base count : Draw σ _).outcome w = .error fault) :
    LiteralClass.ofBase? base = none ∧ fault = .unsupportedBaseType base := by
  rw [drawMany] at h
  split at h
  · obtain ⟨cls, -, w', h⟩ := Draw.exists_of_mapM_eq_error h
    cases h
  · rename_i hbase
    exact ⟨hbase, (Except.error.inj h).symm⟩

theorem exists_drawArguments_eq_ok :
    (∃ inputs, (drawArguments types : Draw σ _).outcome w = .ok inputs) ↔
      ∀ t ∈ types, (LiteralClass.ofBase? t.base).isSome = true :=
  Draw.exists_mapM_eq_ok fun _ _ => exists_drawMany_eq_ok

/-- Every argument gets as many literals as its type has elements. -/
theorem lengths_of_drawArguments {inputs : List (List String)}
    (h : (drawArguments types : Draw σ _).outcome w = .ok inputs) :
    inputs.map List.length = types.map fun t => t.dim.toNat := by
  have hpairs := Draw.forall₂_of_mapM_eq_ok (R := fun t literals => literals.length = t.dim.toNat)
    (fun _ _ _ => length_of_drawMany) h
  rw [← List.forall₂_eq_eq_eq, List.forall₂_map_left_iff, List.forall₂_map_right_iff]
  exact hpairs.flip

theorem drawArguments_eq_error (h : (drawArguments types : Draw σ _).outcome w = .error fault) :
    ∃ t ∈ types, LiteralClass.ofBase? t.base = none ∧ fault = .unsupportedBaseType t.base := by
  obtain ⟨t, ht, w', h⟩ := Draw.exists_of_mapM_eq_error h
  exact ⟨t, ht, drawMany_eq_error h⟩

end Literal

end OverloadSuite
