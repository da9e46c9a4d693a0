import Mathlib.Logic.Function.Iterate
import OverloadSuite.Proofs.Literal.Draw

/-!
# What literals take from a source

Where drawing literals leaves the source follows from the classes of the element types and from how
many literals there are. Arguments are drawn in order up to the first one whose element type has no
class of values: what was drawn before it stays taken, and nothing is taken for it or behind it.
-/

namespace OverloadSuite.Literal

variable {σ : Type} [WordSource σ] {cls : LiteralClass} {t : TypeEntry}
  {types types' earlier later : List TypeEntry}

/-- A type that literals can be drawn for. -/
def Supported (t : TypeEntry) : Prop := (LiteralClass.ofBase? t.base).isSome = true

theorem not_supported : ¬ Supported t ↔ LiteralClass.ofBase? t.base = none := by
  simp [Supported]

/-- The state after a literal of a class. -/
def afterLiteral (cls : LiteralClass) (w : σ) : σ := ((draw cls).run w).2

/-- The state after a literal for each element of a type. -/
def afterArgument (w : σ) (t : TypeEntry) : σ :=
  match LiteralClass.ofBase? t.base with
  | some cls => Nat.iterate (afterLiteral cls) t.dim.toNat w
  | none => w

/-- The state after the literals of all arguments, in order. -/
def afterArguments (types : List TypeEntry) (w : σ) : σ := types.foldl afterArgument w

/-! ## One argument -/

theorem rest_mapM_replicate (cls : LiteralClass) (count : Nat) (w : σ) :
    Draw.rest ((List.replicate count cls).mapM fun cls => ExceptT.lift (draw cls)) w =
      Nat.iterate (afterLiteral cls) count w := by
  induction count generalizing w with
  | zero => rfl
  | succ count ih =>
    rw [List.replicate_succ, List.mapM_cons, Draw.rest_bind (Draw.outcome_lift _ w),
      Draw.rest_bind_pure, ih, Function.iterate_succ_apply]
    rfl

theorem rest_drawMany (t : TypeEntry) (w : σ) :
    (drawMany t.base t.dim.toNat : Draw σ _).rest w = afterArgument w t := by
  unfold drawMany afterArgument
  cases LiteralClass.ofBase? t.base with
  | none => rfl
  | some cls => exact rest_mapM_replicate cls _ w

/-! ## Arguments in order -/

theorem drawArguments_cons (t : TypeEntry) (types : List TypeEntry) :
    (drawArguments (t :: types) : Draw σ _) = drawMany t.base t.dim.toNat >>= fun literals =>
      drawArguments types >>= fun inputs => pure (literals :: inputs) :=
  List.mapM_cons

/-- Arguments can be drawn in two parts, the second from where the first one ended. -/
theorem drawArguments_append (types types' : List TypeEntry) :
    (drawArguments (types ++ types') : Draw σ _) = drawArguments types >>= fun inputs =>
      drawArguments types' >>= fun inputs' => pure (inputs ++ inputs') :=
  List.mapM_append

/-- Arguments of supported types take the literals of all their elements. -/
theorem rest_drawArguments (h : ∀ t ∈ types, Supported t) (w : σ) :
    (drawArguments types : Draw σ _).rest w = afterArguments types w := by
  induction types generalizing w with
  | nil => rfl
  | cons t types ih =>
    obtain ⟨ht, htypes⟩ := List.forall_mem_cons.mp h
    obtain ⟨literals, hliterals⟩ : ∃ literals,
        (drawMany t.base t.dim.toNat : Draw σ _).outcome w = .ok literals :=
      exists_drawMany_eq_ok.mpr ht
    rw [drawArguments_cons, Draw.rest_bind hliterals, Draw.rest_bind_pure, rest_drawMany, ih htypes]
    rfl

/-- An argument of an unsupported type fails before any of its literals is drawn. -/
theorem drawArguments_cons_unsupported (ht : ¬ Supported t) (later : List TypeEntry) (w : σ) :
    (drawArguments (t :: later) : Draw σ _).outcome w = .error (.unsupportedBaseType t.base) ∧
      (drawArguments (t :: later) : Draw σ _).rest w = w := by
  have hmany : (drawMany t.base t.dim.toNat : Draw σ _) = throw (.unsupportedBaseType t.base) := by
    rw [drawMany, not_supported.mp ht]
  rw [drawArguments_cons, hmany]
  exact ⟨rfl, rfl⟩

/-- The first argument of an unsupported type is where the draw stops. -/
theorem drawArguments_stops (hearlier : ∀ t' ∈ earlier, Supported t') (ht : ¬ Supported t)
    (later : List TypeEntry) (w : σ) :
    (drawArguments (earlier ++ t :: later) : Draw σ _).outcome w =
        .error (.unsupportedBaseType t.base) ∧
      (drawArguments (earlier ++ t :: later) : Draw σ _).rest w = afterArguments earlier w := by
  obtain ⟨inputs, hinputs⟩ := (exists_drawArguments_eq_ok (w := w)).mpr hearlier
  obtain ⟨hfails, hrest⟩ := drawArguments_cons_unsupported ht later
    ((drawArguments earlier : Draw σ _).rest w)
  rw [drawArguments_append, Draw.rest_bind hinputs, Draw.rest_bind_error hfails, hrest,
    rest_drawArguments hearlier]
  refine ⟨Draw.bind_eq_error.mpr (.inr ⟨inputs, hinputs, ?_⟩), rfl⟩
  exact Draw.bind_eq_error.mpr (.inl hfails)

/-- Arguments are of supported types, or there is a first one that is not. -/
theorem supported_or_exists_first (types : List TypeEntry) : (∀ t ∈ types, Supported t) ∨
    ∃ earlier t later, types = earlier ++ t :: later ∧ (∀ t' ∈ earlier, Supported t') ∧
      ¬ Supported t := by
  induction types with
  | nil => exact .inl (List.forall_mem_nil _)
  | cons t types ih =>
    by_cases ht : Supported t
    · rcases ih with htypes | ⟨earlier, t', later, rfl, hearlier, ht'⟩
      · exact .inl (List.forall_mem_cons.mpr ⟨ht, htypes⟩)
      · exact .inr ⟨t :: earlier, t', later, rfl, List.forall_mem_cons.mpr ⟨ht, hearlier⟩, ht'⟩
    · exact .inr ⟨[], t, types, rfl, List.forall_mem_nil _, ht⟩

end OverloadSuite.Literal
