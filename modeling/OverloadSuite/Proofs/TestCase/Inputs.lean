import OverloadSuite.Proofs.TestCase.Success

/-!
# What a suite draws

The inputs of a suite, and where it leaves the source of words, follow from the argument types and
from which overloads have a pointer. Names, result types, remarks, references, numbers and the check
mode have no say: every case takes its words once, and only for its arguments.
-/

namespace OverloadSuite

/-- Two overloads that draw alike: both have a pointer or neither does, and their arguments have the
same element types and numbers of elements. -/
structure Overload.DrawsLike (o o' : Overload) : Prop where
  pointer : o.hasPointer = o'.hasPointer
  args : (o.argTypes.map fun t => (t.base, t.dim)) = o'.argTypes.map fun t => (t.base, t.dim)

/-! ## How a case initialises its arguments -/

/-- The literals, as they are emitted, that a statement initialises a name with. -/
def Statement.literalsFor? (name : Name) : Statement → Option (List String)
  | .data type declared literals =>
    if declared = name then some (literals.map (· ++ Literal.suffix type.base)) else none
  | _ => none

namespace TestCase

/-- The name that holds the data of an argument: the input itself, or the
data behind the pointer. -/
def dataName (c : TestCase) (index : Nat) : Name :=
  if c.pointer = some index then .source else .input index

/-- A case initialises an argument with these literals, in the lambda or before it. -/
def Initializes (c : TestCase) (index : Nat) (literals : List String) : Prop :=
  ∃ s ∈ c.preamble ++ c.body, s.literalsFor? (c.dataName index) = some literals

variable {c : TestCase} {a : Argument} {index : Nat} {name : Name} {literals : List String}

theorem dataName_inj {i j : Nat} : c.dataName i = c.dataName j ↔ i = j := by
  constructor
  · intro h
    unfold dataName at h
    split at h <;> split at h <;> simp_all
  · rintro rfl
    rfl

theorem literalsFor?_dataOf : (c.dataOf a).literalsFor? name = some literals ↔
    c.dataName a.index = name ∧ a.literals.map (· ++ Literal.suffix a.type.base) = literals := by
  have hdata : (c.dataOf a).literalsFor? name = if c.dataName a.index = name then
      some (a.literals.map (· ++ Literal.suffix a.type.base)) else none := rfl
  rw [hdata]
  split <;> simp [*]

theorem mem_arguments : a ∈ c.arguments ↔
    c.overload.argTypes[a.index]? = some a.type ∧ c.inputs[a.index]? = some a.literals := by
  constructor
  · intro ha
    obtain ⟨i, hi, rfl⟩ := List.getElem_of_mem ha
    simp [arguments]
  · rintro ⟨htype, hliterals⟩
    refine List.mem_of_getElem? (i := a.index) ?_
    rw [arguments, List.getElem?_mapIdx, List.zip, List.getElem?_zipWith, htype, hliterals]
    rfl

/-- What the statements of the lambda are. -/
inductive InBody (c : TestCase) : Statement → Prop
  | data {a : Argument} (ha : a ∈ c.arguments) : InBody c (c.dataOf a)
  | pointer {a : Argument} (ha : a ∈ c.arguments) (hpointer : c.pointer = some a.index) :
    InBody c (.pointer a.type (.input a.index) c.variant.memory c.decoration)
  | assertion : InBody c (.assertion c.overload c.inputNames)
  | actual : InBody c (.actual c.overload c.inputNames)
  | returnBoth {a : Argument} (ha : a ∈ c.arguments) : InBody c (.returnBoth c.overload a.type)
  | returnCall : InBody c (.returnCall c.overload c.inputNames)

theorem inBody_of_mem {s : Statement} (hs : s ∈ c.body) : c.InBody s := by
  rw [body, List.append_assoc, List.mem_append, List.mem_append, List.mem_flatMap] at hs
  rcases hs with ⟨a, ha, hs⟩ | hs | hs
  · unfold declarations at hs
    split at hs
    · rcases List.mem_pair.mp hs with rfl | rfl
      · exact .data ha
      · exact .pointer ha ‹_›
    · rw [List.mem_singleton.mp hs]
      exact .data ha
  · split at hs
    · rw [List.mem_singleton.mp hs]
      exact .assertion
    · cases hs
  · unfold ending at hs
    split at hs
    · rename_i hpointer
      rcases List.mem_pair.mp hs with rfl | rfl
      · exact .actual
      · exact .returnBoth (List.mem_of_find?_eq_some hpointer)
    · rw [List.mem_singleton.mp hs]
      exact .returnCall

/-- What the statements before the call of the harness are. -/
inductive InPreamble (c : TestCase) : Statement → Prop
  | data {a : Argument} (ha : a ∈ c.arguments) : InPreamble c (c.dataOf a)
  | expected : InPreamble c c.expected
  | copy {a : Argument} (ha : a ∈ c.arguments) : InPreamble c (.copy a.type)
  | expectedCall : InPreamble c (.expectedCall c.overload c.referenceNames)

theorem inPreamble_of_mem {s : Statement} (hs : s ∈ c.preamble) : c.InPreamble s := by
  have hdata : s ∈ c.arguments.map c.dataOf → c.InPreamble s := by
    intro hs
    obtain ⟨a, ha, rfl⟩ := List.mem_map.mp hs
    exact .data ha
  unfold preamble at hs
  split at hs
  · cases hs
  · rename_i hpointer
    split at hs
    · cases hs
    · rw [List.mem_singleton.mp hs]
      exact .data (List.mem_of_find?_eq_some hpointer)
  · rcases List.mem_append.mp hs with hs | hs
    · exact hdata hs
    · rw [List.mem_singleton.mp hs]
      exact .expected
  · rename_i hpointer
    rcases List.mem_append.mp hs with hs | hs
    · exact hdata hs
    · rcases List.mem_pair.mp hs with rfl | rfl
      · exact .copy (List.mem_of_find?_eq_some hpointer)
      · exact .expectedCall

/-- Pointers, assertions and calls initialise nothing, so the lambda
initialises by its data only. -/
theorem exists_dataOf_of_mem_body {s : Statement} (hs : s ∈ c.body)
    (h : s.literalsFor? name = some literals) : ∃ a ∈ c.arguments, s = c.dataOf a := by
  cases inBody_of_mem hs with
  | data ha => exact ⟨_, ha, rfl⟩
  | pointer | assertion | actual | returnBoth | returnCall => cases h

/-- Neither do copies and expected results. -/
theorem exists_dataOf_of_mem_preamble {s : Statement} (hs : s ∈ c.preamble)
    (h : s.literalsFor? name = some literals) : ∃ a ∈ c.arguments, s = c.dataOf a := by
  cases inPreamble_of_mem hs with
  | data ha => exact ⟨_, ha, rfl⟩
  | expected =>
    unfold expected at h
    split at h <;> cases h
  | copy | expectedCall => cases h

/-- An argument is initialised with its input, with the suffixes of its element type. -/
theorem initializes_iff : c.Initializes index literals ↔ ∃ base input,
    (c.overload.argTypes.map (·.base))[index]? = some base ∧ c.inputs[index]? = some input ∧
      input.map (· ++ Literal.suffix base) = literals := by
  simp only [List.getElem?_map, Option.map_eq_some_iff]
  constructor
  · rintro ⟨s, hs, h⟩
    obtain ⟨a, ha, rfl⟩ : ∃ a ∈ c.arguments, s = c.dataOf a := by
      rcases List.mem_append.mp hs with hs | hs
      · exact exists_dataOf_of_mem_preamble hs h
      · exact exists_dataOf_of_mem_body hs h
    obtain ⟨hname, hliterals⟩ := literalsFor?_dataOf.mp h
    obtain rfl := dataName_inj.mp hname
    obtain ⟨htype, hinput⟩ := mem_arguments.mp ha
    exact ⟨_, _, ⟨_, htype, rfl⟩, hinput, hliterals⟩
  · rintro ⟨_, input, ⟨type, htype, rfl⟩, hinput, hliterals⟩
    have ha : ⟨index, type, input⟩ ∈ c.arguments := mem_arguments.mpr ⟨htype, hinput⟩
    have hmem : c.dataOf ⟨index, type, input⟩ ∈ c.declarations ⟨index, type, input⟩ := by
      rw [declarations]
      split <;> exact List.mem_cons_self
    have hbody : c.dataOf ⟨index, type, input⟩ ∈ c.body := by
      rw [body, List.append_assoc, List.mem_append]
      exact .inl (List.mem_flatMap.mpr ⟨_, ha, hmem⟩)
    exact ⟨_, List.mem_append_right _ hbody, literalsFor?_dataOf.mpr ⟨rfl, hliterals⟩⟩

end TestCase

/-- Arguments draw alike that have the same element types and numbers of elements. -/
theorem Literal.drawArguments_congr {σ : Type} [WordSource σ] {types types' : List TypeEntry}
    (h : (types.map fun t => (t.base, t.dim)) = types'.map fun t => (t.base, t.dim)) :
    (drawArguments types : Draw σ _) = drawArguments types' := by
  have hshape : ∀ types : List TypeEntry, (drawArguments types : Draw σ _) =
      (types.map fun t => (t.base, t.dim)).mapM fun (base, dim) => drawMany base dim.toNat := by
    intro types
    rw [List.mapM_map]
    rfl
  rw [hshape, hshape, h]

/-! ## Two cases -/

namespace TestCase

variable {σ : Type} [WordSource σ] {w : σ} {id id' : UInt64} {o o' : Overload} {v v' : Variant}
  {c c' : TestCase}

/-- A case takes words for its arguments only. -/
theorem rest_of_draw (h : (draw id o v : Draw σ TestCase).outcome w = .ok c) :
    (draw id o v : Draw σ TestCase).rest w =
      (Literal.drawArguments o.argTypes : Draw σ _).rest w := by
  obtain ⟨pointer, inputs, known, hpointer, hinputs, hknown, -⟩ := draw_eq_ok.mp h
  rw [draw_eq, Draw.rest_bind (a := pointer) (by simp [hpointer]), Draw.rest_liftExcept,
    Draw.rest_bind hinputs, Draw.rest_bind (a := known) (by simp [hknown])]
  simp

theorem rest_eq (ho : o.DrawsLike o') (h : (draw id o v : Draw σ TestCase).outcome w = .ok c)
    (h' : (draw id' o' v' : Draw σ TestCase).outcome w = .ok c') :
    (draw id o v : Draw σ TestCase).rest w = (draw id' o' v' : Draw σ TestCase).rest w := by
  rw [rest_of_draw h, rest_of_draw h', Literal.drawArguments_congr ho.args]

/-- Two cases for overloads that draw alike, with the same inputs, one for each argument. -/
structure TestsLike (c c' : TestCase) : Prop where
  overload : c.overload.DrawsLike c'.overload
  inputs : c.inputs = c'.inputs
  length : c.inputs.length = c.overload.argTypes.length

theorem testsLike_of_draw (ho : o.DrawsLike o')
    (h : (draw id o v : Draw σ TestCase).outcome w = .ok c)
    (h' : (draw id' o' v' : Draw σ TestCase).outcome w = .ok c') : c.TestsLike c' := by
  obtain ⟨_, inputs, _, -, hinputs, -, rfl⟩ := draw_eq_ok.mp h
  obtain ⟨_, inputs', _, -, hinputs', -, rfl⟩ := draw_eq_ok.mp h'
  have hlengths := congrArg List.length (Literal.lengths_of_drawArguments hinputs)
  rw [Literal.drawArguments_congr ho.args, hinputs'] at hinputs
  exact ⟨ho, (Except.ok.inj hinputs).symm, by simpa using hlengths⟩

/-- Such cases initialise each argument everywhere with the same literals. -/
theorem TestsLike.exists_initializes (h : c.TestsLike c') {index : Nat}
    (hindex : index < c.overload.argTypes.length) : ∃ literals,
      (∀ emitted, c.Initializes index emitted ↔ emitted = literals) ∧
      ∀ emitted, c'.Initializes index emitted ↔ emitted = literals := by
  -- the suffixes are those of the element types, on which the overloads agree
  have hbases : c.overload.argTypes.map (·.base) = c'.overload.argTypes.map (·.base) := by
    have hfst := congrArg (List.map Prod.fst) h.overload.args
    rwa [List.map_map, List.map_map] at hfst
  obtain ⟨base, hbase⟩ : ∃ base, (c.overload.argTypes.map (·.base))[index]? = some base := by
    simp [hindex]
  obtain ⟨input, hinput⟩ : ∃ input, c.inputs[index]? = some input := by
    simp [h.length, hindex]
  have hone : ∀ emitted, c.Initializes index emitted ↔
      emitted = input.map (· ++ Literal.suffix base) := by
    intro emitted
    rw [initializes_iff, hbase, hinput]
    simp [eq_comm]
  refine ⟨_, hone, fun emitted => ?_⟩
  rw [← hone, initializes_iff, initializes_iff, hbases, h.inputs]

end TestCase

/-! ## Two suites -/

namespace Suite

variable {σ : Type} [WordSource σ] {w : σ} {start start' id id' : UInt64} {check check' : Checking}
  {o : Overload} {v : Variant} {os os' : List Overload} {plan plan' : List (Overload × Variant)}
  {suite suite' : Suite} {c : TestCase}

theorem rest_drawFrom_cons (hc : (TestCase.draw id o v : Draw σ TestCase).outcome w = .ok c)
    (hid : nextId start id = .ok (id + 1)) :
    (drawFrom start id ((o, v) :: plan) : Draw σ Suite).rest w =
      (drawFrom start (id + 1) plan : Draw σ Suite).rest
        ((TestCase.draw id o v : Draw σ TestCase).rest w) := by
  rw [drawFrom, Draw.rest_bind hc, Draw.rest_bind (a := id + 1) (by simp [hid]),
    Draw.rest_liftExcept, Draw.rest_bind_pure]

/-- Plans that draw alike entry by entry take the same words, case by case. -/
theorem drawFrom_congr
    (hplan : List.Forall₂ (fun entry entry' => entry.1.DrawsLike entry'.1) plan plan')
    (h : (drawFrom start id plan : Draw σ Suite).outcome w = .ok suite)
    (h' : (drawFrom start' id' plan' : Draw σ Suite).outcome w = .ok suite') :
    (drawFrom start id plan : Draw σ Suite).rest w =
        (drawFrom start' id' plan' : Draw σ Suite).rest w ∧
      List.Forall₂ TestCase.TestsLike suite suite' := by
  induction hplan generalizing id id' w suite suite' with
  | nil =>
    cases h
    cases h'
    exact ⟨rfl, .nil⟩
  | @cons entry entry' plan plan' hentry hplan ih =>
    obtain ⟨c, cs, hc, hlast, hcs, rfl⟩ := drawFrom_cons_eq_ok.mp h
    obtain ⟨c', cs', hc', hlast', hcs', rfl⟩ := drawFrom_cons_eq_ok.mp h'
    -- both cases leave the source where the words of the same arguments end
    have hrest := TestCase.rest_eq hentry hc hc'
    rw [← hrest] at hcs'
    obtain ⟨hend, hcases⟩ := ih hcs hcs'
    refine ⟨?_, .cons (TestCase.testsLike_of_draw hentry hc hc') hcases⟩
    rw [rest_drawFrom_cons hc (nextId_eq_ok.mpr ⟨hlast, rfl⟩),
      rest_drawFrom_cons hc' (nextId_eq_ok.mpr ⟨hlast', rfl⟩), ← hrest, hend]

/-- Overloads that draw alike have as many variants, in every check mode. -/
theorem forall₂_plan (hos : List.Forall₂ Overload.DrawsLike os os') :
    List.Forall₂ (fun entry entry' => entry.1.DrawsLike entry'.1)
      (Suite.plan check os) (Suite.plan check' os') := by
  refine List.rel_flatMap hos fun o o' ho => ?_
  -- the variants themselves may differ, but the entries only need to match in number
  rw [List.forall₂_map_left_iff, List.forall₂_map_right_iff]
  refine List.forall₂_of_length_eq_of_get ?_ fun _ _ _ => ho
  rw [length_ofOverload, length_ofOverload, ho.pointer]

/-- **Inputs follow from the argument types and the pointers.** Two suites for overloads that draw
alike, made from the same state of the source, leave it in the same state, have as many cases, and
initialise each argument of each case with the same literals. Their numbers and check modes may
differ, and so may all else that the overloads say. -/
theorem draw_inputs_eq (hos : List.Forall₂ Overload.DrawsLike os os')
    (h : (draw start check os : Draw σ Suite).outcome w = .ok suite)
    (h' : (draw start' check' os' : Draw σ Suite).outcome w = .ok suite') :
    (draw start check os : Draw σ Suite).rest w =
        (draw start' check' os' : Draw σ Suite).rest w ∧
      suite.length = suite'.length ∧
      ∀ (k : Nat) (c c' : TestCase), suite[k]? = some c → suite'[k]? = some c' →
        c.inputs = c'.inputs ∧
        ∀ j < c.overload.argTypes.length, ∃ literals,
          (∀ emitted, c.Initializes j emitted ↔ emitted = literals) ∧
          ∀ emitted, c'.Initializes j emitted ↔ emitted = literals := by
  obtain ⟨hrest, hcases⟩ := drawFrom_congr (forall₂_plan hos) h h'
  refine ⟨hrest, hcases.length_eq, fun k c c' hc hc' => ?_⟩
  obtain ⟨hk, rfl⟩ := List.getElem?_eq_some_iff.mp hc
  obtain ⟨hk', rfl⟩ := List.getElem?_eq_some_iff.mp hc'
  have halike : TestCase.TestsLike suite[k] suite'[k] := hcases.get hk hk'
  exact ⟨halike.inputs, fun j hj => halike.exists_initializes hj⟩

/-- A plain suite and a verified one, numbered differently, test the same inputs. -/
theorem draw_inputs_eq_of_modes : ∃ suite suite',
    (Suite.draw 0 .plain [.sin, .fract] : Draw Ramp Suite).outcome ⟨0, 1⟩ = .ok suite ∧
      (Suite.draw 7 .verified [.sin, .fract] : Draw Ramp Suite).outcome ⟨0, 1⟩ = .ok suite' ∧
      suite.length = suite'.length ∧
      ∀ (k : Nat) (c c' : TestCase), suite[k]? = some c → suite'[k]? = some c' →
        c.inputs = c'.inputs := by
  have halike : List.Forall₂ Overload.DrawsLike [.sin, .fract] [.sin, .fract] :=
    .cons ⟨rfl, rfl⟩ (.cons ⟨rfl, rfl⟩ .nil)
  obtain ⟨suite, hsuite⟩ := Overload.exists_draw_samples .plain 0 ⟨0, 1⟩ (by decide)
  obtain ⟨suite', hsuite'⟩ := Overload.exists_draw_samples .verified 7 ⟨0, 1⟩ (by decide)
  obtain ⟨-, hlength, hinputs⟩ := draw_inputs_eq halike hsuite hsuite'
  refine ⟨suite, suite', hsuite, hsuite', hlength, ?_⟩
  intro k c c' hc hc'
  exact (hinputs k c c' hc hc').1

end Suite

end OverloadSuite
