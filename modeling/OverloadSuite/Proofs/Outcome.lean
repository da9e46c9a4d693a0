import Mathlib.Data.List.Forall2

/-!
# Outcomes of computations that may fail

What it means for a computation in `Except`, or for a walk along a list in it, to give a result or
to fail. Later proofs take computations apart with these facts and never open `bind`, `mapM` or
`foldlM` themselves.
-/

namespace OverloadSuite.Outcome

variable {ε α β : Type}

/-! ## Lists side by side -/

theorem exists_of_forall₂ {R : α → β → Prop} {as : List α} {bs : List β}
    (h : List.Forall₂ R as bs) {a : α} (ha : a ∈ as) : ∃ b ∈ bs, R a b := by
  induction h with
  | nil => cases ha
  | @cons a' b as bs hab _ ih =>
    rcases List.mem_cons.mp ha with rfl | ha
    · exact ⟨b, by simp, hab⟩
    · obtain ⟨b', hb', hab'⟩ := ih ha
      exact ⟨b', by simp [hb'], hab'⟩

theorem exists_of_forall₂_right {R : α → β → Prop} {as : List α} {bs : List β}
    (h : List.Forall₂ R as bs) {b : β} (hb : b ∈ bs) : ∃ a ∈ as, R a b :=
  exists_of_forall₂ (R := fun b a => R a b) h.flip hb

theorem exists_forall₂ {R : α → β → Prop} {as : List α} (h : ∀ a ∈ as, ∃ b, R a b) :
    ∃ bs, List.Forall₂ R as bs := by
  induction as with
  | nil => exact ⟨[], .nil⟩
  | cons a as ih =>
    obtain ⟨b, hb⟩ := h a List.mem_cons_self
    obtain ⟨bs, hbs⟩ := ih fun a ha => h a (List.mem_cons_of_mem _ ha)
    exact ⟨b :: bs, .cons hb hbs⟩

/-- Positions stand beside the elements that they are the positions of. -/
theorem forall₂_range (as : List α) :
    List.Forall₂ (fun i a => as[i]? = some a) (List.range as.length) as := by
  refine List.forall₂_of_length_eq_of_get (by simp) fun i hi hi' => ?_
  simp

/-- What holds between any two elements of a list holds between the elements that stand beside
them. -/
theorem pairwise_of_forall₂ {R : α → β → Prop} {P : α → α → Prop} {Q : β → β → Prop} {as : List α}
    {bs : List β} (h : List.Forall₂ R as bs)
    (hstep : ∀ a a' b b', R a b → R a' b' → P a a' → Q b b') (hp : as.Pairwise P) :
    bs.Pairwise Q := by
  induction h with
  | nil => exact .nil
  | cons hab hrest ih =>
    obtain ⟨ha, hp⟩ := List.pairwise_cons.mp hp
    refine List.pairwise_cons.mpr ⟨fun b' hb' => ?_, ih hp⟩
    obtain ⟨a', ha', hab'⟩ := exists_of_forall₂_right hrest hb'
    exact hstep _ _ _ _ hab hab' (ha a' ha')

/-- A partial function that is defined on all of a list drops nothing. -/
theorem forall₂_filterMap {γ : Type} {R : α → β → Prop} {S : α → γ → Prop} {g : β → Option γ}
    {as : List α} {bs : List β} (h : List.Forall₂ R as bs)
    (hg : ∀ a b, R a b → ∃ c, g b = some c ∧ S a c) : List.Forall₂ S as (bs.filterMap g) := by
  induction h with
  | nil => exact .nil
  | cons hab _ ih =>
    obtain ⟨c, hc, hac⟩ := hg _ _ hab
    rw [List.filterMap_cons_some hc]
    exact .cons hac ih

theorem mapM_eq_some {f : α → Option β} {as : List α} {bs : List β}
    (h : List.Forall₂ (fun a b => f a = some b) as bs) : as.mapM f = some bs := by
  induction h with
  | nil => rfl
  | cons hab _ ih => simp [hab, ih]

theorem exists_mapM_eq_some {f : α → Option β} {as : List α} (h : ∀ a ∈ as, ∃ b, f a = some b) :
    ∃ bs, as.mapM f = some bs ∧ List.Forall₂ (fun a b => f a = some b) as bs := by
  induction as with
  | nil => exact ⟨[], rfl, .nil⟩
  | cons a as ih =>
    obtain ⟨b, hb⟩ := h a List.mem_cons_self
    obtain ⟨bs, hmap, hbs⟩ := ih fun a ha => h a (List.mem_cons_of_mem _ ha)
    exact ⟨b :: bs, by simp [hb, hmap], .cons hb hbs⟩

/-! ## One step after another -/

theorem bind_eq_ok {x : Except ε α} {f : α → Except ε β} {b : β} :
    (x >>= f) = .ok b ↔ ∃ a, x = .ok a ∧ f a = .ok b := by
  cases x <;> simp [bind, Except.bind]

theorem bind_eq_error {x : Except ε α} {f : α → Except ε β} {e : ε} :
    (x >>= f) = .error e ↔ x = .error e ∨ ∃ a, x = .ok a ∧ f a = .error e := by
  cases x <;> simp [bind, Except.bind]

/-- A computation either gives a result or fails. -/
theorem ok_or_error (x : Except ε α) : (∃ a, x = .ok a) ∨ ∃ e, x = .error e := by
  cases x with
  | ok a => exact .inl ⟨a, rfl⟩
  | error e => exact .inr ⟨e, rfl⟩

theorem exists_ok_of_isOk {x : Except ε α} (h : x.isOk = true) : ∃ a, x = .ok a := by
  cases x with
  | ok a => exact ⟨a, rfl⟩
  | error e => cases h

/-! ## The same step for every element of a list -/

/-- A list is mapped if every element is, and the results stand in the order of the elements. -/
theorem mapM_eq_ok {f : α → Except ε β} {as : List α} {bs : List β} :
    as.mapM f = .ok bs ↔ List.Forall₂ (fun a b => f a = .ok b) as bs := by
  induction as generalizing bs with
  | nil =>
    rw [List.mapM_nil, List.forall₂_nil_left_iff]
    constructor
    · intro h
      exact (Except.ok.inj h).symm
    · rintro rfl
      rfl
  | cons a as ih =>
    rw [List.mapM_cons, List.forall₂_cons_left_iff, bind_eq_ok]
    constructor
    · intro h
      obtain ⟨b, hb, h⟩ := h
      obtain ⟨bs', hbs, h⟩ := bind_eq_ok.mp h
      exact ⟨b, bs', hb, ih.mp hbs, (Except.ok.inj h).symm⟩
    · intro h
      obtain ⟨b, bs', hb, hbs, rfl⟩ := h
      exact ⟨b, hb, bind_eq_ok.mpr ⟨bs', ih.mpr hbs, rfl⟩⟩

theorem exists_mapM_eq_ok {f : α → Except ε β} {as : List α} :
    (∃ bs, as.mapM f = .ok bs) ↔ ∀ a ∈ as, ∃ b, f a = .ok b := by
  simp only [mapM_eq_ok]
  induction as with
  | nil => simp
  | cons a as ih => simp [List.forall₂_cons_left_iff, ← ih]

theorem mapM_congr {f g : α → Except ε β} {as : List α} (h : ∀ a ∈ as, f a = g a) :
    as.mapM f = as.mapM g := by
  induction as with
  | nil => rfl
  | cons a as ih =>
    rw [List.mapM_cons, List.mapM_cons, h a List.mem_cons_self,
      ih fun a' ha' => h a' (List.mem_cons_of_mem a ha')]

/-- The walk along a list stops at an element that fails. -/
theorem exists_of_mapM_eq_error {f : α → Except ε β} {as : List α} {e : ε}
    (h : as.mapM f = .error e) : ∃ a ∈ as, f a = .error e := by
  induction as with
  | nil => cases h
  | cons a as ih =>
    rw [List.mapM_cons] at h
    rcases bind_eq_error.mp h with ha | ⟨b, -, h⟩
    · exact ⟨a, by simp, ha⟩
    · rcases bind_eq_error.mp h with h | ⟨bs, -, h⟩
      · obtain ⟨a', ha', he⟩ := ih h
        exact ⟨a', by simp [ha'], he⟩
      · cases h

/-! ## A walk along a list that carries something on -/

theorem foldlM_cons_eq_ok {f : β → α → Except ε β} {a : α} {as : List α} {b c : β} :
    (a :: as).foldlM f b = .ok c ↔ ∃ b', f b a = .ok b' ∧ as.foldlM f b' = .ok c := by
  rw [List.foldlM_cons, bind_eq_ok]

/-- Two walks whose steps are the same, whatever is carried on, are the same. -/
theorem foldlM_congr {f g : β → α → Except ε β} {as : List α} (h : ∀ a ∈ as, ∀ b, f b a = g b a)
    (b : β) : as.foldlM f b = as.foldlM g b := by
  induction as generalizing b with
  | nil => rfl
  | cons a as ih =>
    rw [List.foldlM_cons, List.foldlM_cons, h a List.mem_cons_self b]
    exact congrArg _ (funext fun b' => ih (fun a' ha' => h a' (List.mem_cons_of_mem a ha')) b')

theorem exists_of_foldlM_eq_error {f : β → α → Except ε β} {as : List α} {b : β} {e : ε}
    (h : as.foldlM f b = .error e) : ∃ a ∈ as, ∃ b', f b' a = .error e := by
  induction as generalizing b with
  | nil => cases h
  | cons a as ih =>
    rw [List.foldlM_cons] at h
    rcases bind_eq_error.mp h with ha | ⟨b', -, h⟩
    · exact ⟨a, by simp, b, ha⟩
    · obtain ⟨a', ha', he⟩ := ih h
      exact ⟨a', by simp [ha'], he⟩

theorem exists_of_foldlM_eq_ok {f : β → α → Except ε β} {as : List α} {b c : β}
    (h : as.foldlM f b = .ok c) : ∀ a ∈ as, ∃ b' c', f b' a = .ok c' := by
  induction as generalizing b with
  | nil => simp
  | cons a as ih =>
    obtain ⟨b', ha, h⟩ := foldlM_cons_eq_ok.mp h
    intro a' ha'
    rcases List.mem_cons.mp ha' with rfl | ha'
    · exact ⟨b, b', ha⟩
    · exact ih h a' ha'

/-- Two walks whose steps fail alike, whatever is carried on, fail alike. -/
theorem foldlM_eq_error_congr {f g : β → α → Except ε β} {as : List α}
    (h : ∀ a ∈ as, ∀ b b' e, f b a = .error e ↔ g b' a = .error e) (b b' : β) (e : ε) :
    as.foldlM f b = .error e ↔ as.foldlM g b' = .error e := by
  induction as generalizing b b' with
  | nil => constructor <;> intro h <;> cases h
  | cons a as ih =>
    have ha := h a (by simp)
    have ih := ih fun a' ha' => h a' (by simp [ha'])
    rw [List.foldlM_cons, List.foldlM_cons]
    cases hf : f b a with
    | error e' =>
      have hg : g b' a = .error e' := (ha b b' e').mp hf
      rw [hg]
      exact Iff.rfl
    | ok d =>
      cases hg : g b' a with
      | error e' => exact absurd ((ha b b' e').mpr hg) (by simp [hf])
      | ok d' => exact ih d d'

/-- A walk whose every step is an answer gives an answer, the one of the walk of the answers. -/
theorem foldlM_eq_some {f : β → α → Except ε β} {g : β → α → ExceptT ε Option β} {as : List α}
    (h : ∀ a ∈ as, ∀ b, g b a = ExceptT.mk (some (f b a))) (b : β) :
    as.foldlM g b = ExceptT.mk (some (as.foldlM f b)) := by
  induction as generalizing b with
  | nil => rfl
  | cons a as ih =>
    rw [List.foldlM_cons, List.foldlM_cons, h a (by simp) b]
    cases f b a with
    | error e => rfl
    | ok b' => exact ih (fun a' ha' => h a' (by simp [ha'])) b'

end OverloadSuite.Outcome
