import OverloadSuite.Proofs.Literal.Draw
import OverloadSuite.Proofs.Signature.Reference
import OverloadSuite.Proofs.Signature.Validity
import OverloadSuite.Random.Ramp
import OverloadSuite.TestCase.Suite

/-!
# When test cases can be made

A suite can be made for overloads whose argument types have literals and whose static references
give results of the right shape, as long as the numbers last. Everything else that making a test
case checks has been checked when its signature was expanded, or holds of the variants of a plan.
-/

namespace OverloadSuite

open Outcome

/-- An overload as expansion makes it: the template passed its checks, and every argument has a
type. -/
structure Overload.Expanded (o : Overload) : Prop where
  pointer : ∃ pointer, o.template.pointerIndex = .ok pointer
  reference : o.template.checkReference = .ok ()
  args : o.argTypes.length = o.template.argKeys.length

/-- An overload that a check mode can test: its arguments have literals, and if the result has to be
known without a reference function, it is as wide as the widest argument that it is made of. -/
structure Overload.Testable (check : Checking) (o : Overload) : Prop where
  literals : ∀ t ∈ o.argTypes, (LiteralClass.ofBase? t.base).isSome = true
  result : check = .verified → o.hasPointer = false → ∀ reference,
    o.template.reference = some reference → o.returnType.dim.toNat = reference.width o.argTypes

/-- The number of cases of some overloads: one with a pointer has six, one for each space and
decoration. -/
def Overload.caseCount : List Overload → Nat
  | [] => 0
  | o :: os => (if o.hasPointer then 6 else 1) + caseCount os

namespace TestCase

variable {σ : Type} [WordSource σ] {w : σ} {check : Checking} {o : Overload} {v : Variant}
  {id : UInt64} {inputs : List (List String)} {fault : Fault}

/-! ## The checks of a case -/

/-- The result that a static reference gives has a literal for each lane of its arguments. -/
theorem length_known (ho : o.Expanded) {reference : Reference}
    (hreference : o.template.reference = some reference)
    (hinputs : inputs.map List.length = o.argTypes.map fun t => t.dim.toNat) :
    (reference.apply inputs).length = reference.width o.argTypes := by
  have harity := Signature.checkReference_eq_ok.mp ho.reference reference hreference
  have hlen : inputs.length = o.argTypes.length := by simpa using congrArg List.length hinputs
  rw [Reference.length_apply (by rw [hlen, ho.args]; exact harity),
    Reference.laneCount_eq_width hinputs]

/-- The result is known, or need not be, exactly if a static reference passes its check and gives
the right number of literals. -/
theorem exists_knownResult_eq_ok : (∃ known, knownResult o inputs = .ok known) ↔
    ∀ reference, o.template.reference = some reference →
      o.template.checkReference = .ok () ∧
        (reference.apply inputs).length = o.returnType.dim.toNat := by
  rw [knownResult]
  cases o.template.reference with
  | none => simp
  | some reference =>
    cases o.template.checkReference with
    | error fault => simp [Bind.bind, Except.bind]
    | ok =>
      by_cases hshape : (reference.apply inputs).length = o.returnType.dim.toNat
      · simp [hshape, Bind.bind, Except.bind, Pure.pure, Except.pure]
      · simp [hshape, Bind.bind, Except.bind]

theorem knownResult_eq_ok {known : Option (List String)} {reference : Reference}
    (hreference : o.template.reference = some reference) (h : knownResult o inputs = .ok known) :
    known = some (reference.apply inputs) ∧
      (reference.apply inputs).length = o.returnType.dim.toNat := by
  rw [knownResult, hreference] at h
  obtain ⟨_, -, h⟩ := bind_eq_ok.mp h
  dsimp only at h
  split at h
  · rename_i hshape
    exact ⟨(Except.ok.inj h).symm, hshape⟩
  · cases h

theorem knownResult_eq_error (h : knownResult o inputs = .error fault) :
    o.template.checkReference = .error fault ∨
      ∃ reference, o.template.reference = some reference ∧
        (reference.apply inputs).length ≠ o.returnType.dim.toNat ∧
        fault = .staticReferenceShape o.text reference.name o.returnType.dim.toNat
          (reference.apply inputs).length := by
  rw [knownResult] at h
  split at h
  · cases h
  · rename_i reference hreference
    rcases bind_eq_error.mp h with h | ⟨_, -, h⟩
    · exact .inl h
    · dsimp only at h
      split at h
      · cases h
      · rename_i hshape
        exact .inr ⟨reference, hreference, hshape, (Except.error.inj h).symm⟩

/-- The variants of an overload exist for it. -/
theorem flaw?_of_mem_ofOverload (hv : v ∈ Variant.ofOverload check o) :
    v.flaw? o.hasPointer = none := by
  have hmemory : ∀ space ∈ Variant.spaces, space.1 ≠ .noPointer := by decide
  unfold Variant.ofOverload at hv
  split at hv
  · rename_i hhas
    obtain ⟨⟨memory, decoration⟩, hspace, rfl⟩ := List.mem_map.mp hv
    rw [hhas]
    cases memory with
    | noPointer => exact absurd rfl (hmemory _ hspace)
    | privateSpace => rfl
    | localSpace => rfl
    | globalSpace => rfl
  · rename_i hnot
    rw [Bool.eq_false_iff.mpr hnot]
    cases check with
    | plain => rw [List.mem_singleton.mp hv]; rfl
    | verified => rw [List.mem_singleton.mp hv]; rfl

theorem check_of_mem_ofOverload (hv : v ∈ Variant.ofOverload check o) : v.check = check := by
  unfold Variant.ofOverload at hv
  split at hv
  · obtain ⟨_, -, rfl⟩ := List.mem_map.mp hv
    rfl
  · cases check with
    | plain => rw [List.mem_singleton.mp hv]
    | verified => rw [List.mem_singleton.mp hv]

theorem checkedPointer_eq_ok {pointer : Option Nat} : checkedPointer o v = .ok pointer ↔
    o.template.pointerIndex = .ok pointer ∧ v.flaw? o.hasPointer = none := by
  have hisSome : ∀ {pointer}, o.template.pointerIndex = .ok pointer →
      pointer.isSome = o.hasPointer := Signature.isSome_of_pointerIndex
  constructor
  · intro h
    obtain ⟨pointer', hpointer, h⟩ := bind_eq_ok.mp h
    rw [hisSome hpointer] at h
    cases hflaw : v.flaw? o.hasPointer with
    | none =>
      simp only [hflaw] at h
      obtain rfl := Except.ok.inj h
      exact ⟨hpointer, rfl⟩
    | some flaw =>
      simp only [hflaw] at h
      cases h
  · rintro ⟨hpointer, hflaw⟩
    refine bind_eq_ok.mpr ⟨pointer, hpointer, ?_⟩
    rw [hisSome hpointer, hflaw]
    rfl

theorem checkedPointer_of_mem_ofOverload {pointer : Option Nat}
    (hpointer : o.template.pointerIndex = .ok pointer) (hv : v ∈ Variant.ofOverload check o) :
    checkedPointer o v = .ok pointer :=
  checkedPointer_eq_ok.mpr ⟨hpointer, flaw?_of_mem_ofOverload hv⟩

theorem checkedPointer_eq_error (h : checkedPointer o v = .error fault) :
    o.template.pointerIndex = .error fault ∨
      ∃ flaw, fault = .invalidVariant o.template.qualifiedName flaw := by
  rcases bind_eq_error.mp h with h | ⟨pointer, -, h⟩
  · exact .inl h
  · split at h
    · exact .inr ⟨_, (Except.error.inj h).symm⟩
    · cases h

/-! ## The steps of a case -/

/-- The result that a case keeps besides its inputs, if it is known. -/
def keptResult (o : Overload) (v : Variant) (pointer : Option Nat) (inputs : List (List String)) :
    Except Fault (Option (List String)) :=
  if v.check = .verified ∧ pointer.isNone then knownResult o inputs else .ok none

theorem draw_eq (id : UInt64) (o : Overload) (v : Variant) :
    (draw id o v : Draw σ TestCase) = liftExcept (checkedPointer o v) >>= fun pointer =>
      Literal.drawArguments o.argTypes >>= fun inputs =>
        liftExcept (keptResult o v pointer inputs) >>= fun known =>
          pure { id, overload := o, variant := v, pointer, inputs, known } := by
  unfold draw
  congr 1
  ext1 pointer
  congr 1
  ext1 inputs
  unfold keptResult
  split <;> rfl

/-- A case is made if its pointer is found, its inputs are drawn and its result is kept. -/
theorem draw_eq_ok {c : TestCase} : (draw id o v : Draw σ TestCase).outcome w = .ok c ↔
    ∃ pointer inputs known, checkedPointer o v = .ok pointer ∧
      (Literal.drawArguments o.argTypes : Draw σ _).outcome w = .ok inputs ∧
      keptResult o v pointer inputs = .ok known ∧
      c = { id, overload := o, variant := v, pointer, inputs, known } := by
  rw [draw_eq]
  constructor
  · intro h
    obtain ⟨pointer, hpointer, h⟩ := Draw.bind_eq_ok.mp h
    obtain ⟨inputs, hinputs, h⟩ := Draw.bind_eq_ok.mp h
    obtain ⟨known, hknown, h⟩ := Draw.bind_eq_ok.mp h
    rw [Draw.outcome_liftExcept] at hpointer hknown
    rw [Draw.rest_liftExcept] at hinputs
    exact ⟨pointer, inputs, known, hpointer, hinputs, hknown, (Except.ok.inj h).symm⟩
  · intro h
    obtain ⟨pointer, inputs, known, hpointer, hinputs, hknown, rfl⟩ := h
    refine Draw.bind_eq_ok.mpr ⟨pointer, by simp [hpointer], ?_⟩
    refine Draw.bind_eq_ok.mpr ⟨inputs, by simp [hinputs], ?_⟩
    exact Draw.bind_eq_ok.mpr ⟨known, by simp [hknown], rfl⟩

theorem draw_eq_error (h : (draw id o v : Draw σ TestCase).outcome w = .error fault) :
    checkedPointer o v = .error fault ∨
      (∃ t ∈ o.argTypes, LiteralClass.ofBase? t.base = none ∧
        fault = .unsupportedBaseType t.base) ∨
      ∃ inputs, (Literal.drawArguments o.argTypes : Draw σ _).outcome w = .ok inputs ∧
        knownResult o inputs = .error fault := by
  rw [draw_eq] at h
  rcases Draw.bind_eq_error.mp h with h | ⟨pointer, hpointer, h⟩
  · exact .inl (by simpa using h)
  rcases Draw.bind_eq_error.mp h with h | ⟨inputs, hinputs, h⟩
  · exact .inr (.inl (Literal.drawArguments_eq_error h))
  rcases Draw.bind_eq_error.mp h with h | ⟨known, -, h⟩
  · rw [Draw.outcome_liftExcept, keptResult] at h
    rw [Draw.rest_liftExcept] at hinputs
    split at h
    · exact .inr (.inr ⟨inputs, hinputs, h⟩)
    · cases h
  · cases h

/-- Whether the result can be kept depends on how many literals the inputs have, not on which. -/
theorem exists_keptResult_congr {pointer : Option Nat} {inputs' : List (List String)}
    (hinputs : inputs.map List.length = inputs'.map List.length) :
    (∃ known, keptResult o v pointer inputs = .ok known) ↔
      ∃ known, keptResult o v pointer inputs' = .ok known := by
  unfold keptResult
  split
  · simp only [exists_knownResult_eq_ok, Reference.length_apply_congr hinputs]
  · simp

/-- The result of a case needs to have the right shape only if it is verified and comes
from a static reference. -/
theorem exists_keptResult_eq_ok (ho : o.Expanded) {pointer : Option Nat}
    (hpointer : o.template.pointerIndex = .ok pointer) (hv : v ∈ Variant.ofOverload check o)
    (hinputs : inputs.map List.length = o.argTypes.map fun t => t.dim.toNat) :
    (∃ known, keptResult o v pointer inputs = .ok known) ↔
      (check = .verified → o.hasPointer = false → ∀ reference,
        o.template.reference = some reference →
          o.returnType.dim.toNat = reference.width o.argTypes) := by
  have hisSome : pointer.isSome = o.hasPointer := Signature.isSome_of_pointerIndex hpointer
  have hshape : (∃ known, knownResult o inputs = .ok known) ↔ ∀ reference,
      o.template.reference = some reference →
        o.returnType.dim.toNat = reference.width o.argTypes := by
    rw [exists_knownResult_eq_ok]
    refine forall₂_congr fun reference hreference => ?_
    rw [length_known ho hreference hinputs, ho.reference, and_iff_right rfl, eq_comm]
  rw [keptResult, check_of_mem_ofOverload hv, ← hshape, ← hisSome]
  cases check with
  | plain => simp
  | verified => cases pointer <;> simp

/-! ## One case -/

/-- A case that can be made on its own: with some number, from some state of the source. -/
def Drawable (σ : Type) [WordSource σ] (o : Overload) (v : Variant) : Prop :=
  ∃ (id : UInt64) (w : σ) (c : TestCase), (draw id o v).outcome w = .ok c

/-- A case that can be made with one number and from one state can be made with and from any. -/
theorem Drawable.exists_draw (h : Drawable σ o v) (id : UInt64) (w : σ) :
    ∃ c, (draw id o v).outcome w = .ok c := by
  obtain ⟨_, w', _, hc⟩ := h
  obtain ⟨pointer, inputs, known, hpointer, hinputs, hknown, -⟩ := draw_eq_ok.mp hc
  have hclasses := Literal.exists_drawArguments_eq_ok.mp ⟨inputs, hinputs⟩
  obtain ⟨inputs', hinputs'⟩ := (Literal.exists_drawArguments_eq_ok (w := w)).mpr hclasses
  -- other words give other literals, but as many
  have hlengths : inputs.map List.length = inputs'.map List.length := by
    rw [Literal.lengths_of_drawArguments hinputs, Literal.lengths_of_drawArguments hinputs']
  obtain ⟨known', hknown'⟩ := (exists_keptResult_congr hlengths).mp ⟨known, hknown⟩
  exact ⟨_, draw_eq_ok.mpr ⟨pointer, inputs', known', hpointer, hinputs', hknown', rfl⟩⟩

/-- **A case is made exactly if its overload is testable**, whatever the words are. -/
theorem exists_draw_eq_ok (ho : o.Expanded) (hv : v ∈ Variant.ofOverload check o) :
    (∃ c, (draw id o v : Draw σ TestCase).outcome w = .ok c) ↔ o.Testable check := by
  obtain ⟨pointer, hpointer⟩ := ho.pointer
  -- the pointer is no obstacle, for the variant exists
  have hchecked := checkedPointer_of_mem_ofOverload hpointer hv
  constructor
  · intro h
    obtain ⟨c, h⟩ := h
    obtain ⟨pointer', inputs, known, hpointer', hinputs, hknown, -⟩ := draw_eq_ok.mp h
    obtain rfl := Except.ok.inj (hchecked.symm.trans hpointer')
    have hlengths := Literal.lengths_of_drawArguments hinputs
    exact ⟨Literal.exists_drawArguments_eq_ok.mp ⟨inputs, hinputs⟩,
      (exists_keptResult_eq_ok ho hpointer hv hlengths).mp ⟨known, hknown⟩⟩
  · intro h
    obtain ⟨inputs, hinputs⟩ := (Literal.exists_drawArguments_eq_ok (w := w)).mpr h.literals
    have hlengths := Literal.lengths_of_drawArguments hinputs
    obtain ⟨known, hknown⟩ := (exists_keptResult_eq_ok ho hpointer hv hlengths).mpr h.result
    exact ⟨_, draw_eq_ok.mpr ⟨pointer, inputs, known, hchecked, hinputs, hknown, rfl⟩⟩

theorem drawable_iff_testable [Nonempty σ] (ho : o.Expanded) (hv : v ∈ Variant.ofOverload check o) :
    Drawable σ o v ↔ o.Testable check := by
  constructor
  · intro h
    obtain ⟨id, w, hc⟩ := h
    exact (exists_draw_eq_ok ho hv).mp hc
  · intro h
    obtain ⟨w⟩ := ‹Nonempty σ›
    exact ⟨0, w, (exists_draw_eq_ok ho hv).mpr h⟩

/-- A case of an expanded overload fails for want of literals or for the shape of its result. -/
theorem fault_of_draw (ho : o.Expanded) (hv : v ∈ Variant.ofOverload check o)
    (h : (draw id o v : Draw σ TestCase).outcome w = .error fault) :
    (∃ base, fault = .unsupportedBaseType base) ∨
      ∃ name expected found, fault = .staticReferenceShape o.text name expected found := by
  obtain ⟨pointer, hpointer⟩ := ho.pointer
  rcases draw_eq_error h with h | ⟨t, -, -, h⟩ | ⟨inputs, -, h⟩
  · rw [checkedPointer_of_mem_ofOverload hpointer hv] at h
    cases h
  · exact .inl ⟨t.base, h⟩
  · rcases knownResult_eq_error h with h | ⟨_, -, -, h⟩
    · rw [ho.reference] at h
      cases h
    · exact .inr ⟨_, _, _, h⟩

end TestCase

/-! ## A suite -/

namespace Suite

variable {σ : Type} [WordSource σ] {w : σ} {check : Checking} {start id id' : UInt64}
  {o : Overload} {v : Variant} {os : List Overload} {plan : List (Overload × Variant)}
  {suite : Suite} {fault : Fault}

/-- The overloads and variants of a plan are made for each other. -/
def Planned (check : Checking) (plan : List (Overload × Variant)) : Prop :=
  ∀ entry ∈ plan, entry.1.Expanded ∧ entry.2 ∈ Variant.ofOverload check entry.1

theorem nextId_eq_ok : nextId start id = .ok id' ↔
    id.toNat + 1 < UInt64.size ∧ id' = id + 1 := by
  rw [nextId]
  split <;> simp [*, eq_comm]

theorem nextId_eq_error : nextId start id = .error fault ↔
    UInt64.size ≤ id.toNat + 1 ∧ fault = .idOverflow start := by
  rw [nextId]
  by_cases hlast : id.toNat + 1 < UInt64.size
  · simp [hlast, Nat.not_le.mpr hlast]
  · simp [hlast, Nat.not_lt.mp hlast, eq_comm]

theorem toNat_add_ofNat {n : Nat} (h : id.toNat + n < UInt64.size) :
    (id + UInt64.ofNat n).toNat = id.toNat + n := by
  have hn : n < UInt64.size := by omega
  rw [UInt64.toNat_add, UInt64.toNat_ofNat_of_lt' hn]
  exact Nat.mod_eq_of_lt h

theorem toNat_add_one (h : id.toNat + 1 < UInt64.size) : (id + 1).toNat = id.toNat + 1 :=
  toNat_add_ofNat h

/-- One step of a suite: a case is made, there is a next number, and with it the rest is made from
where the case left the source. -/
theorem drawFrom_cons_eq_ok :
    (drawFrom start id ((o, v) :: plan) : Draw σ Suite).outcome w = .ok suite ↔
      ∃ c cs, (TestCase.draw id o v : Draw σ TestCase).outcome w = .ok c ∧
        id.toNat + 1 < UInt64.size ∧
        (drawFrom start (id + 1) plan).outcome ((TestCase.draw id o v : Draw σ TestCase).rest w) =
          .ok cs ∧
        suite = c :: cs := by
  rw [drawFrom]
  constructor
  · intro h
    obtain ⟨c, hc, h⟩ := Draw.bind_eq_ok.mp h
    obtain ⟨id', hid, h⟩ := Draw.bind_eq_ok.mp h
    obtain ⟨cs, hcs, h⟩ := Draw.bind_eq_ok.mp h
    rw [Draw.outcome_liftExcept] at hid
    obtain ⟨hlast, rfl⟩ := nextId_eq_ok.mp hid
    exact ⟨c, cs, hc, hlast, by simpa using hcs, (Except.ok.inj h).symm⟩
  · rintro ⟨c, cs, hc, hlast, hcs, rfl⟩
    have hid : nextId start id = .ok (id + 1) := nextId_eq_ok.mpr ⟨hlast, rfl⟩
    refine Draw.bind_eq_ok.mpr ⟨c, hc, Draw.bind_eq_ok.mpr ⟨id + 1, by simp [hid], ?_⟩⟩
    exact Draw.bind_eq_ok.mpr ⟨cs, by simpa using hcs, rfl⟩

theorem drawFrom_cons_eq_error :
    (drawFrom start id ((o, v) :: plan) : Draw σ Suite).outcome w = .error fault ↔
      (TestCase.draw id o v : Draw σ TestCase).outcome w = .error fault ∨
      ∃ c, (TestCase.draw id o v : Draw σ TestCase).outcome w = .ok c ∧
        (UInt64.size ≤ id.toNat + 1 ∧ fault = .idOverflow start ∨
          id.toNat + 1 < UInt64.size ∧ (drawFrom start (id + 1) plan).outcome
            ((TestCase.draw id o v : Draw σ TestCase).rest w) = .error fault) := by
  rw [drawFrom]
  constructor
  · intro h
    rcases Draw.bind_eq_error.mp h with h | ⟨c, hc, h⟩
    · exact .inl h
    refine .inr ⟨c, hc, ?_⟩
    rcases Draw.bind_eq_error.mp h with h | ⟨id', hid, h⟩
    · rw [Draw.outcome_liftExcept] at h
      exact .inl (nextId_eq_error.mp h)
    rw [Draw.outcome_liftExcept] at hid
    obtain ⟨hlast, rfl⟩ := nextId_eq_ok.mp hid
    rcases Draw.bind_eq_error.mp h with h | ⟨cs, -, h⟩
    · exact .inr ⟨hlast, by simpa using h⟩
    · cases h
  · rintro (h | ⟨c, hc, hover | ⟨hlast, h⟩⟩)
    · exact Draw.bind_eq_error.mpr (.inl h)
    · refine Draw.bind_eq_error.mpr (.inr ⟨c, hc, Draw.bind_eq_error.mpr (.inl ?_)⟩)
      rw [Draw.outcome_liftExcept, nextId_eq_error.mpr hover]
    · have hid : nextId start id = .ok (id + 1) := nextId_eq_ok.mpr ⟨hlast, rfl⟩
      refine Draw.bind_eq_error.mpr (.inr ⟨c, hc, Draw.bind_eq_error.mpr (.inr ⟨id + 1, ?_, ?_⟩)⟩)
      · rw [Draw.outcome_liftExcept, hid]
      · exact Draw.bind_eq_error.mpr (.inl (by simpa using h))

/-- **A suite is made exactly if each of its cases can be and the numbers last.** Each case takes
one number, and one more must be left at the end. -/
theorem exists_drawFrom_eq_ok :
    (∃ suite, (drawFrom start id plan : Draw σ Suite).outcome w = .ok suite) ↔
      (∀ entry ∈ plan, TestCase.Drawable σ entry.1 entry.2) ∧
        id.toNat + plan.length < UInt64.size := by
  -- the number and the state of the source move along the plan
  induction plan generalizing id w with
  | nil =>
    have hid : id.toNat < UInt64.size := id.toNat_lt_size
    simp [drawFrom, hid]
  | cons entry plan ih =>
    rw [List.forall_mem_cons, List.length_cons]
    constructor
    · rintro ⟨suite, h⟩
      obtain ⟨c, cs, hc, hlast, hcs, -⟩ := drawFrom_cons_eq_ok.mp h
      obtain ⟨hdrawable, hrest⟩ := ih.mp ⟨cs, hcs⟩
      rw [toNat_add_one hlast] at hrest
      exact ⟨⟨⟨id, w, c, hc⟩, hdrawable⟩, by omega⟩
    · rintro ⟨⟨hfirst, hdrawable⟩, hrest⟩
      have hlast : id.toNat + 1 < UInt64.size := by omega
      obtain ⟨c, hc⟩ := hfirst.exists_draw id w
      obtain ⟨cs, hcs⟩ := ih.mpr ⟨hdrawable, by rw [toNat_add_one hlast]; omega⟩
      exact ⟨c :: cs, drawFrom_cons_eq_ok.mpr ⟨c, cs, hc, hlast, hcs, rfl⟩⟩

/-- A suite has a case for each entry of its plan. -/
theorem length_of_drawFrom (h : (drawFrom start id plan : Draw σ Suite).outcome w = .ok suite) :
    suite.length = plan.length := by
  induction plan generalizing id w suite with
  | nil =>
    cases h
    rfl
  | cons entry plan ih =>
    obtain ⟨c, cs, -, -, hcs, rfl⟩ := drawFrom_cons_eq_ok.mp h
    rw [List.length_cons, List.length_cons, ih hcs]

/-- Every case of a suite is drawn for an entry of its plan. -/
theorem exists_draw_of_mem {c : TestCase}
    (h : (drawFrom start id plan : Draw σ Suite).outcome w = .ok suite) (hc : c ∈ suite) :
    ∃ entry ∈ plan, ∃ id' w',
      (TestCase.draw id' entry.1 entry.2 : Draw σ TestCase).outcome w' = .ok c := by
  induction plan generalizing id w suite with
  | nil =>
    cases h
    cases hc
  | cons entry plan ih =>
    obtain ⟨first, cs, hfirst, -, hcs, rfl⟩ := drawFrom_cons_eq_ok.mp h
    rcases List.mem_cons.mp hc with rfl | hc
    · exact ⟨entry, List.mem_cons_self, id, w, hfirst⟩
    · obtain ⟨entry', hentry, hdraw⟩ := ih hcs hc
      exact ⟨entry', List.mem_cons_of_mem entry hentry, hdraw⟩

/-- A suite fails where one of its cases fails, or because the numbers do not last. -/
theorem fault_of_drawFrom (hplan : Planned check plan)
    (h : (drawFrom start id plan : Draw σ Suite).outcome w = .error fault) :
    (∃ base, fault = .unsupportedBaseType base) ∨
      (∃ signature name expected found,
        fault = .staticReferenceShape signature name expected found) ∨
      fault = .idOverflow start := by
  induction plan generalizing id w with
  | nil => cases h
  | cons entry plan ih =>
    obtain ⟨o, v⟩ := entry
    obtain ⟨ho, hv⟩ := hplan (o, v) List.mem_cons_self
    rcases drawFrom_cons_eq_error.mp h with h | ⟨c, -, ⟨-, hfault⟩ | ⟨-, h⟩⟩
    · rcases TestCase.fault_of_draw ho hv h with h | h
      · exact .inl h
      · exact .inr (.inl ⟨o.text, h⟩)
    · exact .inr (.inr hfault)
    · exact ih (fun entry h => hplan entry (List.mem_cons_of_mem _ h)) h

/-! ## The plan of some overloads -/

theorem planned_plan (hos : ∀ o ∈ os, o.Expanded) : Planned check (Suite.plan check os) := by
  intro entry hentry
  obtain ⟨o, ho, hentry⟩ := List.mem_flatMap.mp hentry
  obtain ⟨v, hv, rfl⟩ := List.mem_map.mp hentry
  exact ⟨hos o ho, hv⟩

theorem length_ofOverload (check : Checking) (o : Overload) :
    (Variant.ofOverload check o).length = if o.hasPointer then 6 else 1 := by
  unfold Variant.ofOverload
  split
  · rfl
  · cases check <;> rfl

theorem length_plan (check : Checking) (os : List Overload) :
    (Suite.plan check os).length = Overload.caseCount os := by
  induction os with
  | nil => rfl
  | cons o os ih =>
    rw [Suite.plan, List.flatMap_cons, List.length_append, List.length_map, length_ofOverload,
      Overload.caseCount, ← ih, Suite.plan]

/-- Every overload has a variant, so a plan mentions all of them. -/
theorem forall_plan {P : Overload → Prop} :
    (∀ entry ∈ Suite.plan check os, P entry.1) ↔ ∀ o ∈ os, P o := by
  constructor
  · intro h o ho
    have hpos : 0 < (Variant.ofOverload check o).length := by
      rw [length_ofOverload]
      split <;> omega
    obtain ⟨v, hv⟩ := List.exists_mem_of_length_pos hpos
    exact h (o, v) (List.mem_flatMap.mpr ⟨o, ho, List.mem_map_of_mem hv⟩)
  · intro h entry hentry
    obtain ⟨o, ho, hentry⟩ := List.mem_flatMap.mp hentry
    obtain ⟨v, -, rfl⟩ := List.mem_map.mp hentry
    exact h o ho

/-- The suite of expanded overloads is made exactly if each of them is testable and the numbers
last. -/
theorem exists_draw_eq_ok (hos : ∀ o ∈ os, o.Expanded) :
    (∃ suite, (draw start check os : Draw σ Suite).outcome w = .ok suite) ↔
      (∀ o ∈ os, o.Testable check) ∧
        start.toNat + Overload.caseCount os < UInt64.size := by
  have : Nonempty σ := ⟨w⟩
  have hdrawable : (∀ entry ∈ Suite.plan check os, TestCase.Drawable σ entry.1 entry.2) ↔
      ∀ entry ∈ Suite.plan check os, entry.1.Testable check := by
    refine forall₂_congr fun entry hentry => ?_
    obtain ⟨ho, hv⟩ := planned_plan hos entry hentry
    exact TestCase.drawable_iff_testable ho hv
  rw [draw, exists_drawFrom_eq_ok, hdrawable, forall_plan, length_plan]

end Suite

/-! ## Two overloads that can be tested -/

namespace Overload

/-- An overload without a pointer. -/
def sin : Overload :=
  ⟨.ofKeys "sycl" "sin" "float" ["float"], .leaf "float" "float" "scalar" "float" 1,
    [.leaf "float" "float" "scalar" "float" 1]⟩

/-- An overload that writes through its second argument. -/
def fract : Overload :=
  ⟨{ Signature.ofKeys "sycl" "fract" "float" ["float", "float"] with pointers := [2] },
    .leaf "float" "float" "scalar" "float" 1,
    [.leaf "float" "float" "scalar" "float" 1, .leaf "float" "float" "scalar" "float" 1]⟩

theorem expanded_of_mem_samples : ∀ o ∈ [sin, fract], o.Expanded := by
  intro o ho
  rcases List.mem_pair.mp ho with rfl | rfl
  · exact ⟨⟨none, rfl⟩, rfl, rfl⟩
  · exact ⟨⟨some 1, rfl⟩, rfl, rfl⟩

theorem testable_of_mem_samples (check : Checking) : ∀ o ∈ [sin, fract], o.Testable check := by
  intro o ho
  rcases List.mem_pair.mp ho with rfl | rfl <;> exact ⟨by decide, fun _ _ => nofun⟩

/-- One case of `sin` and six of `fract` are made wherever seven numbers are left, and one more. -/
theorem exists_draw_samples (check : Checking) (start : UInt64) (w : Ramp)
    (h : start.toNat + 7 < UInt64.size) :
    ∃ suite, (Suite.draw start check [sin, fract] : Draw Ramp Suite).outcome w = .ok suite :=
  (Suite.exists_draw_eq_ok expanded_of_mem_samples).mpr ⟨testable_of_mem_samples check, h⟩

theorem drawable_of_mem_plan (check : Checking) :
    ∀ entry ∈ Suite.plan check [sin, fract], TestCase.Drawable Ramp entry.1 entry.2 :=
  (Suite.exists_drawFrom_eq_ok.mp (exists_draw_samples check 0 ⟨0, 1⟩ (by decide))).1

end Overload

end OverloadSuite
