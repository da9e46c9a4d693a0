import OverloadSuite.Proofs.Literal.Unmarked
import OverloadSuite.Proofs.TestCase.Folded
import OverloadSuite.Proofs.TestCase.Fragments
import OverloadSuite.Proofs.TestCase.Openings

/-!
# Brackets in emitted code

If the texts that an overload supplies are balanced, so is the source of every case that is drawn
for it: each statement on its own, the lambda, the call of the harness and the block. The comment
is not asked anything, for it is escaped into a literal.
-/

namespace OverloadSuite

open Text

/-! ## Blocks -/

namespace Block

variable {b : Block} {c : Char} {escape : List Char}

theorem Escapes.skips (h : Escapes c escape) : Scan.Skips .literal escape := by
  cases h with
  | quote | backslash | lineFeed => exact fun _ => rfl
  | self hquote hbackslash hfeed =>
    have hquote' : '"' ∉ [c] := by simpa using Ne.symm hquote
    have hbackslash' : '\\' ∉ [c] := by simpa using Ne.symm hbackslash
    exact Scan.skips_literal hquote' hbackslash'

theorem skips_escapeComment (comment : String) :
    Scan.Skips .literal (escapeComment comment).toList := by
  rw [toList_escapeComment]
  induction comment.toList with
  | nil => exact .nil .literal
  | cons c cs ih => exact (escapes c).skips.append ih

/-- A comment is passed over as a whole. -/
theorem skips_commentArgument (comment : Option String) :
    Scan.Skips .code (commentArgument comment).toList := by
  cases comment with
  | none => exact .nil .code
  | some comment =>
    have hcomma : Scan.Skips .code [',', ' '] := fun _ => rfl
    have hargument : (commentArgument (some comment)).toList =
        [',', ' '] ++ '"' :: ((escapeComment comment).toList ++ ['"']) := by
      simp [commentArgument]
    rw [hargument]
    exact hcomma.append (skips_escapeComment comment).quoted

/-- The parts of a block other than its comment are balanced. -/
structure Bracketed (b : Block) : Prop where
  preamble : ∀ s ∈ b.preamble, Balanced (marks s.toList)
  body : ∀ s ∈ b.body, Balanced (marks s.toList)
  returnType : Balanced (marks b.returnType.toList)
  accessor : ∀ accessor ∈ b.accessor, Balanced (marks accessor.toList)
  trailing : ∀ argument ∈ b.trailing, Balanced (marks argument.toList)
  accuracy : ∀ accuracy ∈ b.accuracy, Balanced (marks accuracy.toList)

/-- Indentation adds no brackets, and the lines of a statement lose none. -/
theorem marks_indentStatements {indent : String} (h : marks indent.toList = [])
    (statements : List String) : marks (indentStatements indent statements).toList =
      statements.flatMap fun s => marks s.toList := by
  have hline : ∀ line, marks (indentLine indent line).toList = marks line.toList := by
    intro line
    unfold indentLine
    split
    · simp_all [isMark]
    · simp [h, isMark]
  have hstatement : ∀ s, marks (indentStatement indent s).toList = marks s.toList := by
    intro s
    simp [indentStatement, List.flatMap_map, hline, marks_lines]
  simp [indentStatements, List.flatMap_map, hstatement]

theorem marks_harnessName (harness : Harness) : marks harness.name.toList = [] := by
  cases harness <;> simp [Harness.name, isMark]

/-- The marks of the call of the harness between its opening parenthesis and the comment. -/
def callMarks (b : Block) : List Char :=
  ['[', ']'] ++
    (b.accessor.toList.flatMap fun accessor => '(' :: (marks accessor.toList ++ [')'])) ++
    '\x7b' :: ((b.body.flatMap fun s => marks s.toList) ++ ['\x7d']) ++
    (b.trailing.flatMap fun argument => marks argument.toList) ++
    b.accuracy.toList.flatMap fun accuracy => marks accuracy.toList

/-- Before the comment two brackets are left open, that of the block and that of the call. -/
theorem marks_textBeforeComment (b : Block) : marks b.textBeforeComment.toList =
    '\x7b' :: ((b.preamble.flatMap fun s => marks s.toList) ++ marks b.returnType.toList ++
      '(' :: b.callMarks) := by
  have hid : marks (toString b.id).toList = [] := marks_toString b.id.toNat
  have hlog : marks (if b.harness.takesLog then "log," else "").toList = [] := by
    split <;> simp [isMark]
  have hhead : marks b.lambdaHead.toList = ['[', ']'] ++
      (b.accessor.toList.flatMap fun accessor => '(' :: (marks accessor.toList ++ [')'])) ++
      ['\x7b'] := by
    rw [lambdaHead]
    cases b.accessor <;> simp [isMark]
  have hmiddle : marks b.middle.toList =
      (b.trailing.flatMap fun argument => marks argument.toList) ++
      b.accuracy.toList.flatMap fun accuracy => marks accuracy.toList := by
    rw [middle]
    cases b.accuracy <;> simp [List.flatMap_map, isMark]
  have hpreamble : marks (indentStatements "  " b.preamble).toList =
      b.preamble.flatMap fun s => marks s.toList := marks_indentStatements (by simp [isMark]) _
  have hbody : marks (indentStatements "        " b.body).toList =
      b.body.flatMap fun s => marks s.toList := marks_indentStatements (by simp [isMark]) _
  rw [textBeforeComment, textBeforeId]
  simp [hpreamble, hbody, hhead, hmiddle, hid, hlog, marks_harnessName, isMark, callMarks]

theorem Bracketed.balanced_callMarks (h : b.Bracketed) : Balanced b.callMarks := by
  have hcapture : Balanced ['[', ']'] := Balanced.nil.enclosed .squares
  have haccessor : Balanced
      (b.accessor.toList.flatMap fun accessor => '(' :: (marks accessor.toList ++ [')'])) :=
    .flatMap fun accessor ha =>
      (h.accessor accessor (Option.mem_toList.mp ha)).enclosed .parentheses
  have hbody : Balanced ('\x7b' :: ((b.body.flatMap fun s => marks s.toList) ++ ['\x7d'])) :=
    (Balanced.flatMap h.body).enclosed .braces
  have haccuracy : Balanced (b.accuracy.toList.flatMap fun accuracy => marks accuracy.toList) :=
    .flatMap fun accuracy ha => h.accuracy accuracy (Option.mem_toList.mp ha)
  exact (((hcapture.append haccessor).append hbody).append (.flatMap h.trailing)).append haccuracy

/-- Up to the comment there is no backslash, and two closing brackets are due. -/
theorem Bracketed.run?_textBeforeComment (h : b.Bracketed) :
    Scan.run? ⟨[], .code⟩ b.textBeforeComment.toList = some ⟨[')', '\x7d'], .code⟩ := by
  have hbefore :
      Balanced ((b.preamble.flatMap fun s => marks s.toList) ++ marks b.returnType.toList) :=
    (Balanced.flatMap h.preamble).append h.returnType
  have hcall := h.balanced_callMarks
  have hbackslash : '\\' ∉ b.textBeforeComment.toList := by
    intro hmem
    have hmark : '\\' ∈ marks b.textBeforeComment.toList := List.mem_filter.mpr ⟨hmem, rfl⟩
    rw [marks_textBeforeComment, List.mem_cons, List.mem_append, List.mem_cons] at hmark
    rcases hmark with hopening | hmem | hopening | hmem
    · cases hopening
    · exact hbefore.no_backslash hmem
    · cases hopening
    · exact hcall.no_backslash hmem
  have hcode : Region.code ≠ .escaped := nofun
  have hopen : Scan.step? ⟨[], .code⟩ '\x7b' = some ⟨['\x7d'], .code⟩ := rfl
  have hcallOpen : Scan.step? ⟨['\x7d'], .code⟩ '(' = some ⟨[')', '\x7d'], .code⟩ := rfl
  rw [← Scan.run?_marks hbackslash hcode, marks_textBeforeComment, Scan.run?_cons, hopen,
    Option.bind_some, Scan.run?_append, hbefore.skips, Option.bind_some, Scan.run?_cons, hcallOpen]
  exact hcall.skips [')', '\x7d']

theorem Bracketed.wellBracketed (h : b.Bracketed) : WellBracketed b.text := by
  have htext : b.text = b.textBeforeComment ++ commentArgument b.comment ++ ");\n\x7d\n" :=
    text_eq_comment b b.comment
  rw [WellBracketed, htext, String.toList_append, String.toList_append, Scan.run?_append,
    Scan.run?_append, h.run?_textBeforeComment, Option.bind_some, skips_commentArgument]
  rfl

end Block

/-! ## Statements -/

/-- The texts that an overload supplies to emitted code, apart from its comment, are neat. -/
structure Overload.Neat (o : Overload) : Prop where
  scope : Text.Neat o.template.scope
  name : Text.Neat o.template.name
  types : ∀ t ∈ o.returnType :: o.argTypes, Text.Neat t.name
  accuracy : ∀ accuracy ∈ o.template.accuracy, Text.Neat accuracy

variable {o : Overload}

theorem Overload.Neat.inert_returnType (h : o.Neat) : Inert (marks o.returnType.name.toList) :=
  (h.types _ List.mem_cons_self).inert

theorem Overload.Neat.inert_qualifiedName (h : o.Neat) :
    Inert (marks o.template.qualifiedName.toList) := by
  have hmarks : marks o.template.qualifiedName.toList =
      marks o.template.scope.toList ++ marks o.template.name.toList := by
    simp [Signature.qualifiedName, isMark]
  rw [hmarks]
  exact h.scope.inert.append h.name.inert

theorem Name.marks_text (name : Name) : marks name.text.toList = [] := by
  cases name with
  | input | source | sourceCopy | expected | actual | accessor => simp [Name.text, isMark]

namespace Statement

/-- A statement about neat types and overloads, whose literals have no marks. -/
def Neat : Statement → Prop
  | data t _ literals | expectedValue t literals =>
    Text.Neat t.name ∧ ∀ s ∈ literals, marks s.toList = []
  | pointer t .. | copy t => Text.Neat t.name
  | assertion o _ | actual o _ | returnCall o _ | expectedCall o _ => o.Neat
  | returnBoth o t => o.Neat ∧ Text.Neat t.name

theorem marks_referenceArg (name : Name) : marks (referenceArg name).toList = [] := by
  cases name with
  | input index => exact Name.marks_text (.input index)
  | source | sourceCopy | expected | actual | accessor => simp [referenceArg, Name.text, isMark]

theorem marks_callText (function : String) (args : List String) :
    marks (callText function args).toList =
      marks function.toList ++ '(' :: ((args.flatMap fun s => marks s.toList) ++ [')']) := by
  simp [callText, marks_intercalate, List.flatMap_map, isMark]

theorem marks_applied (name : String) (args : List String) :
    marks (applied name args).toList =
      marks name.toList ++ args.flatMap fun s => marks s.toList := by
  simp [applied, marks_intercalate, List.flatMap_map, isMark]

theorem marks_call (o : Overload) (args : List Name) : marks (call o args).toList =
    marks o.template.qualifiedName.toList ++ ['(', ')'] := by
  simp [call, marks_callText, List.flatMap_map, Name.marks_text]

theorem marks_pointerText (pointee : TypeEntry) (name : Name) (memory : Memory)
    (decoration : Decoration) : marks (pointerText pointee name memory decoration).toList =
      marks pointee.name.toList ++ ['(', ')'] := by
  have hspace : marks memory.addressSpace.toList = [] := by
    cases memory <;> simp [Memory.addressSpace, isMark]
  have hcode : marks decoration.code.toList = [] := by
    cases decoration <;> decide +kernel
  unfold pointerText
  cases memory <;>
    simp [marks_applied, marks_callText, Name.marks_text, hspace, hcode, isMark]

theorem marks_expectedText (type : TypeEntry) (value : String) :
    marks (expectedText type value).toList = marks type.name.toList ++ marks value.toList := by
  simp [expectedText, marks_applied, Name.marks_text, isMark]

theorem marks_assertion (o : Overload) (args : List Name) :
    marks (assertion o args).text.toList =
      '(' :: ('(' :: (marks (call o args).toList ++ [')']) ++ marks o.returnType.name.toList ++
        '"' :: (marks (callText o.template.qualifiedName (o.argTypes.map (·.name))).toList ++
          marks o.returnType.name.toList ++ ['"']) ++ [')']) := by
  simp [← joined_fragments, fragments, Fragment.text, isMark, Function.comp_def]

theorem balanced_call (h : o.Neat) (args : List Name) : Balanced (marks (call o args).toList) := by
  rw [marks_call]
  exact h.inert_qualifiedName.toBalanced.append (Balanced.nil.enclosed .parentheses)

/-- The call is shown with its argument types in the message of the assertion, within a literal. -/
theorem balanced_assertion (h : o.Neat) (args : List Name) :
    Balanced (marks (assertion o args).text.toList) := by
  have hshown : Inert
      (marks (callText o.template.qualifiedName (o.argTypes.map (·.name))).toList) := by
    rw [marks_callText, List.flatMap_map]
    refine h.inert_qualifiedName.append (Inert.enclosed .parentheses (.flatMap fun t ht => ?_))
    exact (h.types t (List.mem_cons_of_mem _ ht)).inert
  have htype := h.inert_returnType
  have hcalled : Balanced ('(' :: (marks (call o args).toList ++ [')'])) :=
    (balanced_call h args).enclosed .parentheses
  rw [marks_assertion]
  exact ((hcalled.append htype.toBalanced).append (hshown.append htype).quoted).enclosed
    .parentheses

theorem Neat.balanced_text {s : Statement} (h : s.Neat) : Balanced (marks s.text.toList) := by
  have hpair : Balanced ['(', ')'] := Balanced.nil.enclosed .parentheses
  cases s with
  | data t name literals =>
    obtain ⟨ht, hliterals⟩ := h
    have hinitializer := Literal.marks_initializer hliterals t.base
    have hmarks : marks (data t name literals).text.toList = marks t.name.toList ++ ['(', ')'] := by
      simp [← joined_fragments, fragments, Fragment.text, Name.marks_text, hinitializer, isMark]
    rw [hmarks]
    exact ht.inert.toBalanced.append hpair
  | pointer t name memory decoration =>
    show Balanced (marks (pointerText t name memory decoration).toList)
    rw [marks_pointerText]
    exact (Text.Neat.inert h).toBalanced.append hpair
  | assertion o args => exact balanced_assertion h args
  | actual o args =>
    have hmarks : marks (actual o args).text.toList =
        marks o.returnType.name.toList ++ marks (call o args).toList := by
      simp [← joined_fragments, fragments, Fragment.text, Name.marks_text, isMark]
    rw [hmarks]
    exact h.inert_returnType.toBalanced.append (balanced_call h args)
  | returnBoth o t =>
    obtain ⟨ho, ht⟩ := h
    have hmarks : marks (returnBoth o t).text.toList =
        marks o.returnType.name.toList ++ marks t.name.toList ++ ['(', ')'] := by
      simp [← joined_fragments, fragments, Fragment.text, marks_callText, marks_applied,
        Name.marks_text, isMark]
    rw [hmarks]
    exact (ho.inert_returnType.append ht.inert).toBalanced.append hpair
  | returnCall o args =>
    have hmarks : marks (returnCall o args).text.toList = marks (call o args).toList := by
      simp [← joined_fragments, fragments, Fragment.text, isMark]
    rw [hmarks]
    exact balanced_call h args
  | copy t =>
    have hmarks : marks (copy t).text.toList = marks t.name.toList := by
      simp [← joined_fragments, fragments, Fragment.text, Name.marks_text, isMark]
    rw [hmarks]
    exact (Text.Neat.inert h).toBalanced
  | expectedValue t literals =>
    obtain ⟨ht, hliterals⟩ := h
    have hinitializer := Literal.marks_initializer hliterals t.base
    have hmarks : marks (expectedValue t literals).text.toList =
        marks t.name.toList ++ (marks t.name.toList ++ ['(', ')']) := by
      simp [← joined_fragments, fragments, Fragment.text, marks_expectedText, hinitializer, isMark]
    rw [hmarks]
    exact ht.inert.toBalanced.append (ht.inert.toBalanced.append hpair)
  | expectedCall o args =>
    have hmarks : marks (expectedCall o args).text.toList =
        marks o.returnType.name.toList ++ (marks o.template.name.toList ++ ['(', ')']) := by
      show marks (expectedText o.returnType
        (callText ("reference::" ++ o.template.name) (args.map referenceArg))).toList = _
      simp [marks_expectedText, marks_callText, List.flatMap_map, marks_referenceArg, isMark]
    rw [hmarks]
    exact h.inert_returnType.toBalanced.append (h.name.inert.toBalanced.append hpair)

end Statement

/-! ## Cases -/

namespace TestCase

variable {σ : Type} [WordSource σ] {w : σ} {id : UInt64} {v : Variant} {c : TestCase} {a : Argument}
  {s : Statement}

/-- No literal of a case has a bracket, a double quote or a backslash. -/
structure UnmarkedLiterals (c : TestCase) : Prop where
  inputs : ∀ literals ∈ c.inputs, ∀ s ∈ literals, marks s.toList = []
  known : ∀ literals ∈ c.known, ∀ s ∈ literals, marks s.toList = []

/-- What is not drawn is folded from what is, or left empty. -/
theorem unmarkedLiterals_of_draw (h : (draw id o v : Draw σ TestCase).outcome w = .ok c) :
    c.UnmarkedLiterals := by
  obtain ⟨pointer, inputs, known, -, hinputs, hkept, rfl⟩ := draw_eq_ok.mp h
  have hdrawn := Literal.marks_of_drawArguments hinputs
  refine ⟨hdrawn, fun literals hknown s hs => ?_⟩
  obtain rfl : known = some literals := hknown
  unfold keptResult at hkept
  split at hkept
  · cases hreference : o.template.reference with
    | none =>
      rw [knownResult, hreference] at hkept
      cases hkept
    | some reference =>
      obtain ⟨hfolded, -⟩ := knownResult_eq_ok hreference hkept
      obtain rfl := Option.some.inj hfolded
      obtain ⟨j, hentry⟩ := List.mem_iff_getElem?.mp hs
      obtain ⟨first, -, hlane⟩ := lanes_apply (Literal.lengths_of_drawArguments hinputs)
        (Literal.kept_of_drawArguments hinputs) hentry
      split at hlane
      · obtain ⟨-, literals, hliterals, hvalue⟩ := hlane
        exact hdrawn literals (List.mem_of_mem_take hliterals) s (mem_of_laneOf? hvalue)
      · rw [hlane]
        rfl
  · cases hkept

theorem neat_dataOf (ho : c.overload.Neat) (hc : c.UnmarkedLiterals) (ha : a ∈ c.arguments) :
    (c.dataOf a).Neat := by
  obtain ⟨htype, hliterals⟩ := mem_arguments.mp ha
  exact ⟨ho.types _ (List.mem_cons_of_mem _ (List.mem_of_getElem? htype)),
    hc.inputs _ (List.mem_of_getElem? hliterals)⟩

theorem neat_expected (ho : c.overload.Neat) (hc : c.UnmarkedLiterals) : c.expected.Neat := by
  unfold expected
  split
  · exact ⟨ho.types _ List.mem_cons_self, hc.known _ ‹_›⟩
  · exact ho

theorem neat_of_mem_preamble (ho : c.overload.Neat) (hc : c.UnmarkedLiterals)
    (hs : s ∈ c.preamble) : s.Neat := by
  cases inPreamble_of_mem hs with
  | data ha => exact neat_dataOf ho hc ha
  | expected => exact neat_expected ho hc
  | copy ha => exact (neat_dataOf ho hc ha).1
  | expectedCall => exact ho

theorem neat_of_mem_body (ho : c.overload.Neat) (hc : c.UnmarkedLiterals) (hs : s ∈ c.body) :
    s.Neat := by
  cases inBody_of_mem hs with
  | data ha => exact neat_dataOf ho hc ha
  | pointer ha _ => exact (neat_dataOf ho hc ha).1
  | returnBoth ha => exact ⟨ho, (neat_dataOf ho hc ha).1⟩
  | assertion | actual | returnCall => exact ho

theorem balanced_accessor (ho : c.overload.Neat) {accessor : String}
    (haccessor : c.accessor = some accessor) : Balanced (marks accessor.toList) := by
  obtain ⟨t, ht, rfl | rfl⟩ := accessor_eq_some haccessor <;>
  · have hname := (ho.types t (List.mem_cons_of_mem _ ht)).inert.toBalanced
    simpa [Statement.marks_applied, isMark] using hname

/-- The vector size that an accuracy is given has no marks, and neither has what it replaces. -/
theorem balanced_accuracy (ho : o.Neat) {accuracy : String}
    (haccuracy : TestCase.accuracy o = some accuracy) : Balanced (marks accuracy.toList) := by
  obtain ⟨s, hs, rfl⟩ := Option.map_eq_some_iff.mp haccuracy
  have hsize : marks (toString (vectorSize o)).toList = [] := marks_toString (vectorSize o).toNat
  rw [marks, filter_replaceAll (by decide) (by decide) hsize]
  exact (ho.accuracy s hs).inert.toBalanced

theorem bracketed_block (ho : c.overload.Neat) (hc : c.UnmarkedLiterals) : c.block.Bracketed where
  preamble text htext := by
    obtain ⟨s, hs, rfl⟩ := List.mem_map.mp htext
    exact (neat_of_mem_preamble ho hc hs).balanced_text
  body text htext := by
    obtain ⟨s, hs, rfl⟩ := List.mem_map.mp htext
    exact (neat_of_mem_body ho hc hs).balanced_text
  returnType := ho.inert_returnType.toBalanced
  accessor _ haccessor := balanced_accessor ho haccessor
  trailing argument hargument := by
    obtain ⟨name, -, rfl⟩ := List.mem_map.mp hargument
    rw [name.marks_text]
    exact .nil
  accuracy _ haccuracy := balanced_accuracy ho (accuracy_of_block haccuracy)

/-- One case, whatever its variant, its words and its comment are. -/
theorem wellBracketed_of_draw (ho : o.Neat)
    (h : (draw id o v : Draw σ TestCase).outcome w = .ok c) : WellBracketed c.source := by
  have hliterals := unmarkedLiterals_of_draw h
  obtain ⟨_, _, _, -, -, -, rfl⟩ := draw_eq_ok.mp h
  exact (bracketed_block ho hliterals).wellBracketed

end TestCase

/-! ## Suites -/

namespace Suite

variable {suite : Suite}

theorem wellBracketed_source (h : ∀ c ∈ suite, WellBracketed c.source) :
    WellBracketed suite.source := by
  have hskips : Scan.Skips .code suite.source.toList := by
    induction suite with
    | nil => exact .nil .code
    | cons c suite ih =>
      obtain ⟨hc, hsuite⟩ := List.forall_mem_cons.mp h
      have hsource : (source (c :: suite)).toList = c.source.toList ++ (source suite).toList := by
        simp [source]
      rw [hsource]
      exact (Scan.skips_of_wellBracketed hc).append (ih hsuite)
  exact hskips []

/-- **The source of every case is well bracketed** if the texts that its overload supplies are
balanced and have neither double quotes nor backslashes; the comment may be any text. Read from its
start, the source closes each bracket that it opens outside of string literals, in the right order,
and ends outside of them. So does the source of any suite of such cases. -/
theorem source_wellBracketed :
    (∀ (σ : Type) [WordSource σ] (w : σ) (id : UInt64) (o : Overload) (v : Variant) (c : TestCase),
      o.Neat → (TestCase.draw id o v : Draw σ TestCase).outcome w = .ok c →
        WellBracketed c.source) ∧
    ∀ suite : Suite,
      (∀ c ∈ suite, ∃ (σ : Type) (_ : WordSource σ) (w : σ) (id : UInt64) (o : Overload)
        (v : Variant), o.Neat ∧ (TestCase.draw id o v : Draw σ TestCase).outcome w = .ok c) →
      WellBracketed suite.source := by
  constructor
  · intro σ _ w id o v c ho hc
    exact TestCase.wellBracketed_of_draw ho hc
  · intro suite hdrawn
    refine wellBracketed_source fun c hc => ?_
    obtain ⟨σ, _, w, id, o, v, ho, hdraw⟩ := hdrawn c hc
    exact TestCase.wellBracketed_of_draw ho hdraw

/-- A comment that would close the literal, the call and the block if it were not escaped. -/
theorem source_wellBracketed_fract : ∃ (o : Overload) (c : TestCase),
    o.template.comment = some "\");\x7d[\\" ∧ o.template.accuracy = some "ulp[vecSize]" ∧
      (TestCase.draw 7 o ⟨.localSpace, .verified, some .decorated⟩ : Draw Ramp TestCase).outcome
        ⟨0, 1⟩ = .ok c ∧
      WellBracketed c.source ∧ WellBracketed (Suite.source [c, c]) := by
  let o : Overload := { Overload.fract with
    template := { Overload.fract.template with
      accuracy := some "ulp[vecSize]", comment := some "\");\x7d[\\" } }
  have ho : o.Neat := by
    constructor <;> decide
  obtain ⟨c, hc⟩ := Outcome.exists_ok_of_isOk
    (x := (TestCase.draw 7 o ⟨.localSpace, .verified, some .decorated⟩ :
      Draw Ramp TestCase).outcome ⟨0, 1⟩)
    (by decide +kernel)
  have hcase := source_wellBracketed.1 Ramp ⟨0, 1⟩ 7 o _ c ho hc
  refine ⟨o, c, rfl, rfl, hc, hcase, source_wellBracketed.2 [c, c] fun c' hc' => ?_⟩
  obtain rfl : c' = c := by simpa using hc'
  exact ⟨Ramp, inferInstance, _, _, o, _, ho, hc⟩

end Suite

end OverloadSuite
