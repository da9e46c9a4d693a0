import OverloadSuite.Proofs.Literal.Consumption
import OverloadSuite.Proofs.TestCase.Inputs

/-!
# What test cases take from a source

A case whose overload or variant is rejected takes nothing. All others take the literals of their
arguments, up to the first one of an unsupported type if there is one, whether or not the result can
be known from them afterwards. A suite that fails has taken what its cases take, up to and with the
one that it fails at.
-/

namespace OverloadSuite

/-! ## The cases that exist -/

/-- The variants of an overload with or without a pointer argument. With one there is memory for it
and a decoration; without one a case that only makes the call is in private memory, and one that
verifies the result is in none. -/
def Variant.Suits (hasPointer : Bool) (v : Variant) : Prop :=
  hasPointer = true ∧ v.memory ≠ .noPointer ∧ v.decoration.isSome = true ∨
    hasPointer = false ∧ v.check = .plain ∧ v.memory = .privateSpace ∨
    hasPointer = false ∧ v.check = .verified ∧ v.memory = .noPointer

theorem Variant.flaw?_eq_none {hasPointer : Bool} {v : Variant} :
    v.flaw? hasPointer = none ↔ v.Suits hasPointer := by
  obtain ⟨memory, check, decoration⟩ := v
  cases hasPointer with
  | false => cases memory <;> cases check <;> simp [flaw?, Suits]
  | true => cases memory <;> cases check <;> cases decoration <;> simp [flaw?, Suits]

/-- An overload admits a variant if it has at most one pointer, which is one of its arguments, and
the variant suits it. -/
structure Overload.Admits (o : Overload) (v : Variant) : Prop where
  pointers : o.template.pointers = [] ∨ ∃ index, o.template.pointers = [index] ∧
    1 ≤ index.toNat ∧ index.toNat ≤ o.template.argKeys.length
  variant : v.Suits o.hasPointer

namespace TestCase

open Literal

variable {σ : Type} [WordSource σ] {w : σ} {id : UInt64} {o : Overload} {v : Variant}
  {pointer : Option Nat} {fault : Fault}

theorem exists_checkedPointer_eq_ok :
    (∃ pointer, checkedPointer o v = .ok pointer) ↔ o.Admits v := by
  simp only [checkedPointer_eq_ok, exists_and_right, Signature.exists_pointerIndex_eq_ok,
    Variant.flaw?_eq_none]
  exact ⟨fun h => ⟨h.1, h.2⟩, fun h => ⟨h.pointers, h.variant⟩⟩

/-- The faults of what a case does not exist for. -/
def rejections : List Finding := [.tooManyPointerArgs, .pointerIndexOutOfRange, .invalidVariant]

/-- The faults of a static reference. -/
def referenceFaults : List Finding := [.staticReferenceArity, .staticReferenceShape]

theorem code_of_checkedPointer (h : checkedPointer o v = .error fault) :
    fault.code ∈ rejections := by
  rcases checkedPointer_eq_error h with h | ⟨flaw, rfl⟩
  · rcases Signature.pointerIndex_eq_error h with ⟨index, rfl⟩ | rfl <;>
      simp [Fault.code, rejections]
  · simp [Fault.code, rejections]

theorem code_of_knownResult {inputs : List (List String)}
    (h : knownResult o inputs = .error fault) : fault.code ∈ referenceFaults := by
  rcases knownResult_eq_error h with h | ⟨_, -, -, rfl⟩
  · obtain ⟨_, -, -, rfl⟩ := Signature.checkReference_eq_error h
    simp [Fault.code, referenceFaults]
  · simp [Fault.code, referenceFaults]

/-! ## One case -/

theorem draw_of_rejected (h : checkedPointer o v = .error fault) (id : UInt64) (w : σ) :
    (draw id o v : Draw σ TestCase).outcome w = .error fault ∧
      (draw id o v : Draw σ TestCase).rest w = w := by
  rw [draw_eq, h]
  exact ⟨rfl, rfl⟩

/-- Once the variant is found to exist, a case takes words for its arguments only. -/
theorem rest_draw_of_checked (h : checkedPointer o v = .ok pointer) :
    (draw id o v : Draw σ TestCase).rest w =
      (Literal.drawArguments o.argTypes : Draw σ _).rest w := by
  rw [draw_eq, Draw.rest_bind (a := pointer) (by simp [h]), Draw.rest_liftExcept]
  cases hinputs : (Literal.drawArguments o.argTypes : Draw σ _).outcome w with
  | error fault => exact Draw.rest_bind_error hinputs
  | ok inputs => rw [Draw.rest_bind hinputs, Draw.rest_bind_pure, Draw.rest_liftExcept]

theorem draw_eq_error_of_arguments (h : checkedPointer o v = .ok pointer)
    (hinputs : (Literal.drawArguments o.argTypes : Draw σ _).outcome w = .error fault) :
    (draw id o v : Draw σ TestCase).outcome w = .error fault := by
  rw [draw_eq]
  refine Draw.bind_eq_error.mpr (.inr ⟨pointer, by simp [h], Draw.bind_eq_error.mpr (.inl ?_)⟩)
  rwa [Draw.rest_liftExcept]

theorem fault_of_checked (hpointer : checkedPointer o v = .ok pointer)
    (h : (draw id o v : Draw σ TestCase).outcome w = .error fault) :
    (∃ t ∈ o.argTypes, ¬ Supported t ∧ fault = .unsupportedBaseType t.base) ∨
      fault.code ∈ referenceFaults := by
  rcases draw_eq_error h with h | ⟨t, ht, hnone, rfl⟩ | ⟨inputs, -, h⟩
  · rw [hpointer] at h
    cases h
  · exact .inl ⟨t, ht, not_supported.mpr hnone, rfl⟩
  · exact .inr (code_of_knownResult h)

/-- A case of a variant that exists is not rejected later. -/
theorem code_notMem_rejections (hpointer : checkedPointer o v = .ok pointer)
    (h : (draw id o v : Draw σ TestCase).outcome w = .error fault) : fault.code ∉ rejections := by
  rcases fault_of_checked hpointer h with ⟨t, -, -, rfl⟩ | hcode
  · simp [Fault.code, rejections]
  · have hdisjoint : ∀ code ∈ referenceFaults, code ∉ rejections := by decide
    exact hdisjoint _ hcode

/-- What a case takes from a state of the source, and the faults that it stops with. -/
structure Accounted (id : UInt64) (o : Overload) (v : Variant) (w : σ) : Prop where
  /-- It is rejected exactly if the overload does not admit the variant, -/
  rejected : (∃ fault, (draw id o v : Draw σ TestCase).outcome w = .error fault ∧
    fault.code ∈ rejections) ↔ ¬ o.Admits v
  /-- and then, whatever the argument types are, nothing is taken. -/
  untouched : ¬ o.Admits v → (draw id o v : Draw σ TestCase).rest w = w
  /-- Otherwise it stops at the first argument of an unsupported type, if there is one, with the
  literals of the arguments before it taken. -/
  unsupported : o.Admits v → (∃ t ∈ o.argTypes, ¬ Supported t) → ∃ earlier t later,
    o.argTypes = earlier ++ t :: later ∧ (∀ t' ∈ earlier, Supported t') ∧ ¬ Supported t ∧
      (draw id o v : Draw σ TestCase).outcome w = .error (.unsupportedBaseType t.base) ∧
      (draw id o v : Draw σ TestCase).rest w = afterArguments earlier w
  /-- If there is none the literals of all arguments are taken, -/
  supported : o.Admits v → (∀ t ∈ o.argTypes, Supported t) →
    (draw id o v : Draw σ TestCase).rest w = afterArguments o.argTypes w
  /-- and only a static reference can fail after that. -/
  reference : o.Admits v → (∀ t ∈ o.argTypes, Supported t) → ∀ fault,
    (draw id o v : Draw σ TestCase).outcome w = .error fault → fault.code ∈ referenceFaults

theorem accounted_of_rejected (h : checkedPointer o v = .error fault) : Accounted id o v w := by
  have hadmits : ¬ o.Admits v := by
    rw [← exists_checkedPointer_eq_ok, h]
    simp
  obtain ⟨houtcome, hrest⟩ := draw_of_rejected h id w
  exact {
    rejected := ⟨fun _ => hadmits, fun _ => ⟨fault, houtcome, code_of_checkedPointer h⟩⟩
    untouched := fun _ => hrest
    unsupported := fun h => absurd h hadmits
    supported := fun h => absurd h hadmits
    reference := fun h => absurd h hadmits }

theorem accounted_of_checked (h : checkedPointer o v = .ok pointer) : Accounted id o v w := by
  have hadmits : o.Admits v := exists_checkedPointer_eq_ok.mp ⟨pointer, h⟩
  exact {
    rejected := by
      constructor
      · rintro ⟨fault, houtcome, hcode⟩
        exact absurd hcode (code_notMem_rejections h houtcome)
      · exact fun hnot => absurd hadmits hnot
    untouched := fun hnot => absurd hadmits hnot
    unsupported := fun _ ⟨t', ht', hsome⟩ => by
      rcases supported_or_exists_first o.argTypes with
        hall | ⟨earlier, t, later, hsplit, hearlier, ht⟩
      · exact absurd (hall t' ht') hsome
      obtain ⟨houtcome, hrest⟩ := drawArguments_stops hearlier ht later w
      rw [← hsplit] at houtcome hrest
      exact ⟨earlier, t, later, hsplit, hearlier, ht, draw_eq_error_of_arguments h houtcome,
        (rest_draw_of_checked h).trans hrest⟩
    supported := fun _ hall => (rest_draw_of_checked h).trans (rest_drawArguments hall w)
    reference := fun _ hall fault houtcome => by
      rcases fault_of_checked h houtcome with ⟨t, ht, hnot, -⟩ | hcode
      · exact absurd (hall t ht) hnot
      · exact hcode }

theorem accounted (id : UInt64) (o : Overload) (v : Variant) (w : σ) : Accounted id o v w := by
  cases h : checkedPointer o v with
  | ok pointer => exact accounted_of_checked h
  | error fault => exact accounted_of_rejected h

end TestCase

/-! ## The cases of a suite -/

/-- An overload whose second argument is of an unsupported type. -/
def Overload.odd : Overload :=
  ⟨.ofKeys "sycl" "odd" "float" ["float", "quad"], .leaf "float" "float" "scalar" "float" 1,
    [.leaf "float" "float" "scalar" "float" 1, .leaf "quad" "quad" "scalar" "quad" 1]⟩

namespace Suite

open TestCase

variable {σ : Type} [WordSource σ] {w : σ} {start id : UInt64} {o : Overload}
  {v : Variant} {plan done : List (Overload × Variant)} {suite : Suite} {fault : Fault}

/-- The state after the literals of all cases of a plan, in order. -/
def afterPlan (plan : List (Overload × Variant)) (w : σ) : σ :=
  plan.foldl (fun w entry => Literal.afterArguments entry.1.argTypes w) w

/-- A suite that is numbered from `id` on stops at the entry `(o, v)` of its plan behind the entries
`done`: their cases can be made and their literals are taken, and then the case of the entry fails,
or there is no number left after it. -/
structure StopsAt (start id : UInt64) (done : List (Overload × Variant)) (o : Overload)
    (v : Variant) (w : σ) (fault : Fault) (w' : σ) : Prop where
  made : ∀ entry ∈ done, Drawable σ entry.1 entry.2
  numbered : id.toNat + done.length < UInt64.size
  fails : (TestCase.draw (id + UInt64.ofNat done.length) o v : Draw σ TestCase).outcome
      (afterPlan done w) = .error fault ∨
    Drawable σ o v ∧ UInt64.size ≤ id.toNat + done.length + 1 ∧ fault = .idOverflow start
  rest : w' = (TestCase.draw (id + UInt64.ofNat done.length) o v : Draw σ TestCase).rest
    (afterPlan done w)

theorem rest_of_drawable {c : TestCase}
    (hc : (TestCase.draw id o v : Draw σ TestCase).outcome w = .ok c) :
    (TestCase.draw id o v : Draw σ TestCase).rest w = Literal.afterArguments o.argTypes w := by
  obtain ⟨_, inputs, _, -, hinputs, -⟩ := draw_eq_ok.mp hc
  have hsupported := Literal.exists_drawArguments_eq_ok.mp ⟨inputs, hinputs⟩
  rw [rest_of_draw hc, Literal.rest_drawArguments hsupported]

theorem rest_of_drawFrom (h : (drawFrom start id plan : Draw σ Suite).outcome w = .ok suite) :
    (drawFrom start id plan : Draw σ Suite).rest w = afterPlan plan w := by
  induction plan generalizing id w suite with
  | nil => rfl
  | cons entry plan ih =>
    obtain ⟨c, cs, hc, hlast, hcs, -⟩ := drawFrom_cons_eq_ok.mp h
    rw [rest_drawFrom_cons hc (nextId_eq_ok.mpr ⟨hlast, rfl⟩), ih hcs, rest_of_drawable hc]
    rfl

/-- The first entry of a plan, which no other case has to be made for. -/
theorem stopsAt_first (hfails : (TestCase.draw id o v : Draw σ TestCase).outcome w = .error fault ∨
      Drawable σ o v ∧ UInt64.size ≤ id.toNat + 1 ∧ fault = .idOverflow start) :
    StopsAt start id [] o v w fault ((TestCase.draw id o v : Draw σ TestCase).rest w) := by
  have hid : id + UInt64.ofNat ([] : List (Overload × Variant)).length = id := by simp
  refine ⟨List.forall_mem_nil _, id.toNat_lt_size, ?_, ?_⟩
  · rw [hid]
    exact hfails
  · rw [hid]
    rfl

/-- One entry more in front, whose case is made. -/
theorem StopsAt.cons {o' : Overload} {v' : Variant} {c : TestCase} {w' : σ}
    (hc : (TestCase.draw id o' v' : Draw σ TestCase).outcome w = .ok c)
    (hlast : id.toNat + 1 < UInt64.size)
    (h : StopsAt start (id + 1) done o v ((TestCase.draw id o' v' : Draw σ TestCase).rest w) fault
      w') : StopsAt start id ((o', v') :: done) o v w fault w' := by
  have hid : id + UInt64.ofNat ((o', v') :: done).length = id + 1 + UInt64.ofNat done.length := by
    rw [List.length_cons, Nat.add_comm, UInt64.ofNat_add, ← UInt64.add_assoc]
    rfl
  have hafter : afterPlan ((o', v') :: done) w =
      afterPlan done ((TestCase.draw id o' v' : Draw σ TestCase).rest w) := by
    rw [rest_of_drawable hc]
    rfl
  have htoNat := toNat_add_one hlast
  exact {
    made := List.forall_mem_cons.mpr ⟨⟨id, w, c, hc⟩, h.made⟩
    numbered := by
      have := h.numbered
      rw [List.length_cons]
      omega
    fails := by
      rw [hid, hafter]
      refine h.fails.imp_right fun ⟨hdrawable, hover, hfault⟩ => ⟨hdrawable, ?_, hfault⟩
      rw [List.length_cons]
      omega
    rest := by rw [hid, hafter, h.rest] }

/-- A suite that fails stops at an entry of its plan. -/
theorem exists_stopsAt (h : (drawFrom start id plan : Draw σ Suite).outcome w = .error fault) :
    ∃ done o v left, plan = done ++ (o, v) :: left ∧
      StopsAt start id done o v w fault ((drawFrom start id plan : Draw σ Suite).rest w) := by
  induction plan generalizing id w with
  | nil => cases h
  | cons entry plan ih =>
    obtain ⟨o, v⟩ := entry
    rcases drawFrom_cons_eq_error.mp h with h | ⟨c, hc, ⟨hover, hfault⟩ | ⟨hlast, h⟩⟩
    · refine ⟨[], o, v, plan, rfl, ?_⟩
      rw [drawFrom, Draw.rest_bind_error h]
      exact stopsAt_first (.inl h)
    · refine ⟨[], o, v, plan, rfl, ?_⟩
      have hnext : (liftExcept (nextId start id) : Draw σ UInt64).outcome
          ((TestCase.draw id o v : Draw σ TestCase).rest w) = .error fault := by
        rw [Draw.outcome_liftExcept, nextId_eq_error.mpr ⟨hover, hfault⟩]
      rw [drawFrom, Draw.rest_bind hc, Draw.rest_bind_error hnext, Draw.rest_liftExcept]
      exact stopsAt_first (.inr ⟨⟨id, w, c, hc⟩, hover, hfault⟩)
    · obtain ⟨done, o', v', left, rfl, hstops⟩ := ih h
      refine ⟨(o, v) :: done, o', v', left, rfl, ?_⟩
      rw [rest_drawFrom_cons hc (nextId_eq_ok.mpr ⟨hlast, rfl⟩)]
      exact hstops.cons hc hlast

/-- **A rejected case takes nothing from the source, and one that fails later a known amount**: what
`TestCase.Accounted` says of every case, from every state. A suite takes what its cases take, in
order, and if it fails it stops at the first of them that does. -/
theorem draw_accounted :
    (∀ (id : UInt64) (o : Overload) (v : Variant) (w : σ), Accounted id o v w) ∧
      ∀ (start : UInt64) (check : Checking) (os : List Overload) (w : σ),
        (∀ suite, (draw start check os : Draw σ Suite).outcome w = .ok suite →
          (draw start check os : Draw σ Suite).rest w = afterPlan (Suite.plan check os) w) ∧
        ∀ fault, (draw start check os : Draw σ Suite).outcome w = .error fault →
          ∃ done o v left, Suite.plan check os = done ++ (o, v) :: left ∧
            StopsAt start start done o v w fault ((draw start check os : Draw σ Suite).rest w) := by
  refine ⟨accounted, fun start check os w => ⟨fun suite h => ?_, fun fault h => ?_⟩⟩
  · exact rest_of_drawFrom h
  · exact exists_stopsAt h

/-- A word for the case before it and one for its first argument are taken when it fails. -/
theorem draw_odd : (draw 0 .plain [.sin, .odd] : Draw Ramp Suite).outcome ⟨0, 1⟩ =
      .error (.unsupportedBaseType "quad") ∧
    ((draw 0 .plain [.sin, .odd] : Draw Ramp Suite).rest ⟨0, 1⟩).value = 2 := by
  decide +kernel

theorem draw_accounted_odd : ∃ done o v left,
    Suite.plan .plain [.sin, .odd] = done ++ (o, v) :: left ∧
      StopsAt 0 0 done o v ⟨0, 1⟩ (.unsupportedBaseType "quad")
        ((draw 0 .plain [.sin, .odd] : Draw Ramp Suite).rest ⟨0, 1⟩) :=
  ((draw_accounted (σ := Ramp)).2 0 .plain [.sin, .odd] ⟨0, 1⟩).2 _ draw_odd.1

end Suite

end OverloadSuite
