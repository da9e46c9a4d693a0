import OverloadSuite.Proofs.Signature.Lanes
import OverloadSuite.Proofs.TestCase.Success

/-!
# Expected results that are folded

A verified case without a pointer argument whose template names a static reference gives its
expected result by literals. There are as many as the return type has elements, and each is the
literal of an input in the same lane, as long as the first argument has a literal there. A first
argument that is shorter than another one, but has more than one element, leaves the literal empty:
the shape of the result does not show it, so the case is emitted all the same.
-/

namespace OverloadSuite

open Outcome

/-- The literals of an argument of this type reach a lane: a single one serves every lane. -/
def TypeEntry.HasLane (t : TypeEntry) (j : Nat) : Prop := t.dim.toNat = 1 ∨ j < t.dim.toNat

instance (t : TypeEntry) (j : Nat) : Decidable (t.HasLane j) :=
  inferInstanceAs (Decidable (t.dim.toNat = 1 ∨ j < t.dim.toNat))

/-- A literal that one of some arguments has in a lane. -/
def InLane (args : List (List String)) (j : Nat) (s : String) : Prop :=
  s ≠ "" ∧ ∃ literals ∈ args, laneOf? literals j = some s

namespace TestCase

/-- A case gives its expected result by literals of its inputs, the last statement before the call
of the harness. Where the first argument has no literal, neither has the result. -/
structure Folds (c : TestCase) (reference : Reference) (entries : List String) : Prop where
  emitted : c.block.preamble.getLast? =
    some (Statement.expectedValue c.overload.returnType entries).text
  length : entries.length = c.overload.returnType.dim.toNat
  lanes : ∀ j entry, entries[j]? = some entry → ∃ first, c.overload.argTypes.head? = some first ∧
    if first.HasLane j then InLane (c.inputs.take reference.arity) j entry else entry = ""

variable {σ : Type} [WordSource σ] {w : σ} {o : Overload} {v : Variant} {id : UInt64} {c : TestCase}
  {reference : Reference} {inputs : List (List String)} {entries : List String}

/-- A first argument that has all lanes of the result leaves no literal empty. -/
theorem Folds.forall_inLane_iff (h : c.Folds reference entries) :
    (∀ j entry, entries[j]? = some entry → InLane (c.inputs.take reference.arity) j entry) ↔
      ∀ first, c.overload.argTypes.head? = some first →
        first.dim.toNat = 1 ∨ c.overload.returnType.dim.toNat ≤ first.dim.toNat := by
  constructor
  · intro hall first hfirst
    by_contra hshort
    -- the lane just past the first argument
    have hlane : first.dim.toNat < entries.length := by
      rw [h.length]
      omega
    have hentry := List.getElem?_eq_getElem hlane
    obtain ⟨first', hfirst', hvalue⟩ := h.lanes _ _ hentry
    obtain rfl := Option.some.inj (hfirst.symm.trans hfirst')
    rw [if_neg (by rw [TypeEntry.HasLane]; omega)] at hvalue
    exact (hall _ _ hentry).1 hvalue
  · intro hserved j entry hentry
    obtain ⟨first, hfirst, hvalue⟩ := h.lanes j entry hentry
    have hlane : j < entries.length := (List.getElem?_eq_some_iff.mp hentry).1
    have hlength := h.length
    rw [if_pos] at hvalue
    · exact hvalue
    · rcases hserved first hfirst with hone | hlong
      · exact .inl hone
      · exact .inr (by omega)

/-- What a reference gives for inputs as many as the types have elements. -/
theorem lanes_apply {types : List TypeEntry} {j : Nat} {entry : String}
    (hlengths : inputs.map List.length = types.map fun t => t.dim.toNat)
    (hkept : ∀ literals ∈ inputs, ∀ s ∈ literals, Kept s)
    (hentry : (reference.apply inputs)[j]? = some entry) : ∃ first, types.head? = some first ∧
      if first.HasLane j then InLane (inputs.take reference.arity) j entry else entry = "" := by
  have hlane : j < (reference.apply inputs).length := (List.getElem?_eq_some_iff.mp hentry).1
  have harity : reference.arity ≤ inputs.length := by
    by_contra hfew
    rw [Reference.apply_of_length_lt (by omega)] at hlane
    cases hlane
  obtain ⟨literals, hmem, happly, hsome⟩ := Reference.exists_getElem?_apply harity hkept hlane
  have hliterals : literals ∈ inputs := List.mem_of_mem_take hmem
  obtain rfl : (laneOf? literals j).getD "" = entry := Option.some.inj (happly.symm.trans hentry)
  obtain ⟨input, inputs, rfl⟩ := List.exists_cons_of_ne_nil (List.ne_nil_of_mem hliterals)
  match types, hlengths with
  | first :: types, hlengths =>
    have hlength : input.length = first.dim.toNat := (List.cons.inj hlengths).1
    refine ⟨first, rfl, ?_⟩
    have hreaches : (laneOf? input j).isSome = true ↔ input.length = 1 ∨ j < input.length :=
      isSome_laneOf?
    rw [hlength, ← hsome input rfl] at hreaches
    cases hvalue : laneOf? literals j with
    | none =>
      rw [if_neg (by rw [TypeEntry.HasLane, ← hreaches, hvalue]; nofun)]
      rfl
    | some s =>
      rw [if_pos (by rw [TypeEntry.HasLane, ← hreaches, hvalue]; rfl)]
      exact ⟨(hkept literals hliterals s (mem_of_laneOf? hvalue)).ne_empty, literals, hmem, hvalue⟩

theorem preamble_getLast? (hpointer : c.pointer = none) (hcheck : c.variant.check = .verified)
    (hknown : c.known = some entries) : c.block.preamble.getLast? =
      some (Statement.expectedValue c.overload.returnType entries).text := by
  have hargument : c.pointerArgument? = none := by
    rw [pointerArgument?, hpointer]
    exact List.find?_eq_none.mpr fun _ _ => nofun
  have hpreamble : c.preamble = c.arguments.map c.dataOf ++ [c.expected] := by
    rw [preamble, hcheck, hargument]
  have hexpected : c.expected = .expectedValue c.overload.returnType entries := by
    rw [expected, hknown]
  show (c.preamble.map Statement.text).getLast? = _
  rw [hpreamble, hexpected, List.map_append]
  exact List.getLast?_concat

/-- **A folded reference gives a literal of its inputs in each lane that the first argument
has**, and an empty literal in any other. All lanes are served exactly if the first argument
has one element or as many as the result. A case is refused because an argument has no
literals, for the reference reads more arguments than there are, or for a result that is not as
wide as the widest argument read. -/
theorem draw_folds_reference (hpointers : o.template.pointers = [])
    (hreference : o.template.reference = some reference) (hcheck : v.check = .verified)
    (hmemory : v.memory = .noPointer) :
    (∀ c, (draw id o v : Draw σ TestCase).outcome w = .ok c →
      ∃ entries, c.known = some entries ∧ c.Folds reference entries ∧
        ((∀ j entry, entries[j]? = some entry → InLane (c.inputs.take reference.arity) j entry) ↔
          ∀ first, o.argTypes.head? = some first →
            first.dim.toNat = 1 ∨ o.returnType.dim.toNat ≤ first.dim.toNat)) ∧
    ∀ fault, (draw id o v : Draw σ TestCase).outcome w = .error fault →
      (∃ t ∈ o.argTypes, LiteralClass.ofBase? t.base = none ∧
        fault = .unsupportedBaseType t.base) ∨
      (o.template.argKeys.length < reference.arity ∧
        fault = .staticReferenceArity o.template.qualifiedName reference.name reference.arity
          o.template.argKeys.length) ∨
      (reference.laneCountOf o.argTypes ≠ o.returnType.dim.toNat ∧
        fault = .staticReferenceShape o.text reference.name o.returnType.dim.toNat
          (reference.laneCountOf o.argTypes)) := by
  have hpointer : checkedPointer o v = .ok none := by
    refine checkedPointer_eq_ok.mpr ⟨?_, ?_⟩
    · rw [Signature.pointerIndex, hpointers]
    · have hno : o.hasPointer = false := by rw [Overload.hasPointer, hpointers]; rfl
      simp only [Variant.flaw?, hno, hcheck, hmemory]
  constructor
  · intro c hc
    obtain ⟨pointer, inputs, known, hpointer', hinputs, hkept, rfl⟩ := draw_eq_ok.mp hc
    obtain rfl := Except.ok.inj (hpointer.symm.trans hpointer')
    rw [keptResult, if_pos ⟨hcheck, rfl⟩] at hkept
    obtain ⟨rfl, hlength⟩ := knownResult_eq_ok hreference hkept
    have hfolds : Folds ⟨id, o, v, none, inputs, some (reference.apply inputs)⟩ reference
        (reference.apply inputs) := by
      refine ⟨preamble_getLast? rfl hcheck rfl, hlength, fun _ _ hentry => ?_⟩
      exact lanes_apply (Literal.lengths_of_drawArguments hinputs)
        (Literal.kept_of_drawArguments hinputs) hentry
    exact ⟨reference.apply inputs, rfl, hfolds, hfolds.forall_inLane_iff⟩
  · intro fault hfault
    rcases draw_eq_error hfault with h | h | ⟨inputs, hinputs, h⟩
    · cases hpointer.symm.trans h
    · exact .inl h
    rcases knownResult_eq_error h with h | ⟨reference', hreference', hshape, rfl⟩
    · obtain ⟨reference', hreference', hfew, rfl⟩ := Signature.checkReference_eq_error h
      obtain rfl := Option.some.inj (hreference.symm.trans hreference')
      exact .inr (.inl ⟨hfew, rfl⟩)
    · obtain rfl := Option.some.inj (hreference.symm.trans hreference')
      rw [Reference.length_apply_eq (Literal.lengths_of_drawArguments hinputs)] at hshape ⊢
      exact .inr (.inr ⟨hshape, rfl⟩)

/-! ### The smaller of two vectors -/

/-- Vectors of two numbers. -/
def float2 : TypeEntry := .leaf "float2" "sycl::float2" "vector" "float" 2

/-- Vectors of four numbers. -/
def float4 : TypeEntry := .leaf "float4" "sycl::float4" "vector" "float" 4

/-- The smaller of two arguments, lane by lane, as a vector of four numbers. -/
def minimum (first second : TypeEntry) : Overload :=
  ⟨{ Signature.ofKeys "sycl" "min" "float4" [first.key, second.key] with reference := some .min },
    float4, [first, second]⟩

/-- A first argument of four elements serves all lanes, whatever the second one is. -/
theorem exists_folds_minimum : ∃ c entries,
    (draw 0 (minimum float4 float2) ⟨.noPointer, .verified, none⟩ : Draw Ramp TestCase).outcome
      ⟨0, 1⟩ = .ok c ∧ c.Folds .min entries ∧
      ∀ j entry, entries[j]? = some entry → InLane (c.inputs.take 2) j entry := by
  have hdraw : ((draw 0 (minimum float4 float2) ⟨.noPointer, .verified, none⟩ :
      Draw Ramp TestCase).outcome ⟨0, 1⟩).isOk = true := by decide +kernel
  cases hc : (draw 0 (minimum float4 float2) ⟨.noPointer, .verified, none⟩ :
      Draw Ramp TestCase).outcome ⟨0, 1⟩ with
  | error fault =>
    rw [hc] at hdraw
    cases hdraw
  | ok c =>
    obtain ⟨entries, -, hfolds, hserved⟩ := (draw_folds_reference rfl rfl rfl rfl).1 c hc
    refine ⟨c, entries, rfl, hfolds, hserved.mpr fun first hfirst => .inr ?_⟩
    obtain rfl := Option.some.inj hfirst
    exact Nat.le_refl 4

/-- A first argument of two elements leaves two literals of four empty. -/
theorem exists_empty_literal_minimum : ∃ c,
    (draw 0 (minimum float2 float4) ⟨.noPointer, .verified, none⟩ : Draw Ramp TestCase).outcome
      ⟨0, 1⟩ = .ok c ∧ c.known = some ["0.1", "0.1", "", ""] ∧
      c.block.preamble.getLast? =
        some "sycl_cts::resultRef<sycl::float4> ref = sycl::float4(0.1f, 0.1f, f, f);" ∧
      ¬ InLane (c.inputs.take 2) 2 "" := by
  have hdraw : ((draw 0 (minimum float2 float4) ⟨.noPointer, .verified, none⟩ :
      Draw Ramp TestCase).outcome ⟨0, 1⟩).map (fun c => (c.known, c.block.preamble.getLast?)) =
      .ok (some ["0.1", "0.1", "", ""],
        some "sycl_cts::resultRef<sycl::float4> ref = sycl::float4(0.1f, 0.1f, f, f);") := by
    decide +kernel
  cases hc : (draw 0 (minimum float2 float4) ⟨.noPointer, .verified, none⟩ :
      Draw Ramp TestCase).outcome ⟨0, 1⟩ with
  | error fault =>
    rw [hc] at hdraw
    cases hdraw
  | ok c =>
    rw [hc] at hdraw
    obtain ⟨hknown, hemitted⟩ := Prod.mk.inj (Except.ok.inj hdraw)
    exact ⟨c, rfl, hknown, hemitted, fun hlane => hlane.1 rfl⟩

end TestCase

end OverloadSuite
