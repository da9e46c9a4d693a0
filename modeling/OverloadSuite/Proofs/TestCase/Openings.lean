import OverloadSuite.Proofs.Decimal.ReadBack
import OverloadSuite.Proofs.TestCase.Comment
import OverloadSuite.Proofs.TestCase.Inputs
import OverloadSuite.Proofs.Text.Marker

/-!
# Where blocks begin

A block begins with an empty line and a line that is an opening brace alone. All of its other lines
are indented, empty, or something else than that brace, so a stream of blocks can be cut at these
openings into the blocks that it is made of.
-/

namespace OverloadSuite

open Text

namespace Text

theorem not_mem_endedLine {line : List Char} (hline : '\n' ∉ line) : '\n' ∉ endedLine line := by
  unfold endedLine
  split
  · simpa using List.not_mem_of_not_mem_cons hline
  · simpa using hline

theorem not_mem_of_mem_linesFrom {line cs l : List Char} (hline : '\n' ∉ line)
    (h : l ∈ linesFrom line cs) : '\n' ∉ l := by
  induction cs generalizing line with
  | nil =>
    unfold linesFrom at h
    split at h
    · cases h
    · rw [List.mem_singleton.mp h]
      simpa using hline
  | cons c cs ih =>
    by_cases hc : c = '\n'
    · subst hc
      rcases List.mem_cons.mp h with rfl | h
      · exact not_mem_endedLine hline
      · exact ih List.not_mem_nil h
    · rw [linesFrom] at h
      · refine ih ?_ h
        simp [hline, Ne.symm hc]
      · exact hc

/-- No line of a text has a line feed. -/
theorem not_mem_of_mem_lines {s l : String} (h : l ∈ lines s) : '\n' ∉ l.toList := by
  obtain ⟨line, hline, rfl⟩ := List.mem_map.mp h
  rw [String.toList_ofList]
  exact not_mem_of_mem_linesFrom List.not_mem_nil hline

end Text

namespace Block

/-- The parts of a block that stand in the middle of a line have no line feed. -/
structure SingleLined (b : Block) : Prop where
  returnType : '\n' ∉ b.returnType.toList
  accessor : ∀ accessor ∈ b.accessor, '\n' ∉ accessor.toList
  trailing : ∀ argument ∈ b.trailing, '\n' ∉ argument.toList
  accuracy : ∀ accuracy ∈ b.accuracy, '\n' ∉ accuracy.toList

/-- A line of a statement without the line feed at its end. -/
def indentedLine (indent line : String) : String := if line.isEmpty then "" else indent ++ line

/-- The lines of statements, indented. -/
def statementLines (indent : String) (statements : List String) : List (List Char) :=
  statements.flatMap fun s => (Text.lines s).map fun line => (indentedLine indent line).toList

/-- The line with the call of the harness. -/
def callLine (b : Block) : String :=
  "  " ++ b.harness.name ++ "<" ++ toString b.id ++ ", " ++ b.returnType ++ ">(" ++
    (if b.harness.takesLog then "log," else "")

/-- The parameter list of the lambda and its opening brace, without the line feed behind it. -/
def lambdaStart (b : Block) : String :=
  match b.accessor with
  | some accessor => "[=](" ++ accessor ++ " acc)\x7b"
  | none => "[=]\x7b"

/-- The line with which the lambda ends. -/
def lastLine (b : Block) : String := "      \x7d" ++ b.tail ++ ");"

/-- The lines of a block after the one with its opening brace. -/
def innerLines (b : Block) : List (List Char) :=
  statementLines "  " b.preamble ++ [b.callLine.toList, ("      " ++ b.lambdaStart).toList] ++
    statementLines "        " b.body ++ [b.lastLine.toList, ['\x7d']]

theorem indentLine_eq (indent line : String) :
    indentLine indent line = indentedLine indent line ++ "\n" := by
  unfold indentLine indentedLine
  split <;> rfl

theorem lambdaHead_eq (b : Block) : b.lambdaHead = b.lambdaStart ++ "\n" := by
  rw [lambdaHead, lambdaStart]
  cases b.accessor with
  | none => rfl
  | some accessor => simp [String.append_assoc]

theorem toList_indentStatements (indent : String) (statements : List String) :
    (indentStatements indent statements).toList =
      Text.joinLines (statementLines indent statements) := by
  have hstatement : ∀ s : String, (indentStatement indent s).toList =
      Text.joinLines ((Text.lines s).map fun line => (indentedLine indent line).toList) := by
    intro s
    simp [indentStatement, Text.joinLines, indentLine_eq, List.flatMap_map]
  simp [indentStatements, statementLines, hstatement, Text.joinLines, List.flatMap_map,
    List.flatMap_assoc]

/-- A block is an empty line, a line with the opening brace alone, and its other lines. -/
theorem toList_text (b : Block) :
    b.text.toList = '\n' :: Text.joinLines (['\x7b'] :: b.innerLines) := by
  simp [text, textBeforeId, textAfterId, lambdaHead_eq, toList_indentStatements, Text.joinLines,
    innerLines, callLine, lastLine]

/-! ## No other line is the opening brace -/

variable {b : Block} {l : List Char}

/-- A line that is not mistaken for the opening of a block. -/
def Inner (l : List Char) : Prop := '\n' ∉ l ∧ ['\x7b'] ≠ l

theorem inner_of_mem_statementLines (spaces : Nat) {statements : List String}
    (h : l ∈ statementLines (String.ofList (List.replicate (spaces + 1) ' ')) statements) :
    Inner l := by
  obtain ⟨s, -, h⟩ := List.mem_flatMap.mp h
  obtain ⟨line, hline, rfl⟩ := List.mem_map.mp h
  have hfeed := not_mem_of_mem_lines hline
  unfold indentedLine
  split
  · exact ⟨List.not_mem_nil, List.cons_ne_nil _ _⟩
  · simp [Inner, hfeed, List.replicate_succ]

theorem not_mem_name (harness : Harness) : '\n' ∉ harness.name.toList := by
  cases harness <;> decide

theorem not_mem_toString (n : Nat) : '\n' ∉ (toString n).toList := by
  intro h
  cases Decimal.isDigit_of_mem_toString h

theorem inner_callLine (h : b.SingleLined) : Inner b.callLine.toList := by
  have hname := not_mem_name b.harness
  have hid : '\n' ∉ (toString b.id).toList := not_mem_toString b.id.toNat
  have htype := h.returnType
  have hlog : '\n' ∉ (if b.harness.takesLog then "log," else "").toList := by
    split <;> decide
  simp [Inner, callLine, hname, hid, htype, hlog]

theorem inner_lambdaStart (h : b.SingleLined) : Inner ("      " ++ b.lambdaStart).toList := by
  rw [lambdaStart]
  cases haccessor : b.accessor with
  | none => simp [Inner]
  | some accessor =>
    have hfeed := h.accessor accessor haccessor
    simpa [Inner] using hfeed

theorem not_mem_middle (h : b.SingleLined) : '\n' ∉ b.middle.toList := by
  have htrailing := h.trailing
  rw [middle]
  cases haccuracy : b.accuracy with
  | none => simpa using htrailing
  | some accuracy =>
    have hfeed := h.accuracy accuracy haccuracy
    simpa [hfeed] using htrailing

theorem not_mem_commentArgument (comment : Option String) :
    '\n' ∉ (commentArgument comment).toList := by
  cases comment with
  | none => simp [commentArgument]
  | some comment =>
    have hinside := (spells_flatMap comment.toList).no_line_feed
    simpa [commentArgument, toList_escapeComment] using hinside

theorem inner_lastLine (h : b.SingleLined) : Inner b.lastLine.toList := by
  have hmiddle := not_mem_middle h
  have hcomment := not_mem_commentArgument b.comment
  simp [Inner, lastLine, tail_eq, hmiddle, hcomment]

theorem inner_of_mem_innerLines (h : b.SingleLined) (hl : l ∈ b.innerLines) : Inner l := by
  simp only [innerLines, List.mem_append, List.mem_cons, List.not_mem_nil, or_false] at hl
  rcases hl with ((hl | rfl | rfl) | hl) | rfl | rfl
  · exact inner_of_mem_statementLines 1 hl
  · exact inner_callLine h
  · exact inner_lambdaStart h
  · exact inner_of_mem_statementLines 7 hl
  · exact inner_lastLine h
  · simp [Inner]

/-! ## Streams of blocks -/

variable {blocks : List Block}

/-- The text with which a block begins. -/
def opening : String := "\n\x7b\n"

/-- The text of blocks, one after the other. -/
def stream (blocks : List Block) : String := String.join (blocks.map text)

@[simp] theorem toList_stream_nil : (stream []).toList = [] := rfl

@[simp] theorem toList_stream_cons (b : Block) (blocks : List Block) :
    (stream (b :: blocks)).toList = b.text.toList ++ (stream blocks).toList := by
  rw [stream, List.map_cons, String.join_cons, String.toList_append]
  rfl

theorem opening_prefix_text (b : Block) : opening.toList <+: b.text.toList := by
  rw [toList_text]
  exact ⟨joinLines b.innerLines, by simp [opening, joinLines]⟩

/-- A stream is empty or begins with an opening. -/
theorem stream_eq_nil_or (blocks : List Block) :
    (stream blocks).toList = [] ∨ opening.toList <+: (stream blocks).toList := by
  cases blocks with
  | nil => exact .inl rfl
  | cons b blocks =>
    rw [toList_stream_cons]
    exact .inr ((opening_prefix_text b).trans (List.prefix_append _ _))

theorem exists_stream_eq_cons (h : blocks ≠ []) :
    ∃ tail, (stream blocks).toList = '\n' :: tail := by
  obtain ⟨b, blocks, rfl⟩ := List.exists_cons_of_ne_nil h
  rw [toList_stream_cons, toList_text]
  exact ⟨_, rfl⟩

theorem exists_stream_eq_append (h : blocks ≠ []) :
    ∃ init, (stream blocks).toList = init ++ ['\n'] := by
  induction blocks with
  | nil => exact absurd rfl h
  | cons b blocks ih =>
    rw [toList_stream_cons]
    by_cases hnil : blocks = []
    · subst hnil
      obtain ⟨init, hinit⟩ := exists_joinLines_eq_append ['\x7b'] b.innerLines
      exact ⟨'\n' :: init, by simp [toList_text, hinit]⟩
    · obtain ⟨init, hinit⟩ := ih hnil
      exact ⟨b.text.toList ++ init, by simp [hinit]⟩

/-- No opening begins in a block after its first character, whatever blocks follow. -/
theorem free_text (h : b.SingleLined) (blocks : List Block) :
    Free opening.toList (stream blocks).toList (joinLines (['\x7b'] :: b.innerLines)) := by
  refine free_joinLines (by decide) (by decide) (fun l hl => inner_of_mem_innerLines h hl) ?_
  rcases stream_eq_nil_or blocks with hnil | ⟨rest, hrest⟩
  · rw [hnil]
    exact fun h => by cases List.prefix_nil.mp h
  · rw [← hrest]
    exact fun h => by cases (List.cons_prefix_cons.mp h).1

/-- The openings in a stream are the beginnings of its blocks. -/
theorem placesIn_stream (h : ∀ b ∈ blocks, b.SingleLined) :
    placesIn opening.toList (stream blocks).toList =
      (List.range blocks.length).map fun k => (stream (blocks.take k)).length := by
  induction blocks with
  | nil => rfl
  | cons b blocks ih =>
    obtain ⟨hb, hblocks⟩ := List.forall_mem_cons.mp h
    have hopens := (opening_prefix_text b).trans (List.prefix_append _ (stream blocks).toList)
    have hlength : ∀ k, (stream ((b :: blocks).take (k + 1))).length =
        (stream (blocks.take k)).length + b.text.toList.length := by
      intro k
      rw [List.take_succ_cons]
      simp only [← String.length_toList, toList_stream_cons, List.length_append, Nat.add_comm]
    rw [List.length_cons, List.range_succ_eq_map, List.map_cons, List.map_map]
    simp only [Function.comp_def, hlength, toList_stream_cons]
    rw [toList_text] at hopens ⊢
    rw [placesIn_opened hopens (free_text hb blocks), ih hblocks, List.map_map]
    rfl

/-- A stream is cut at its openings into the texts of its blocks. -/
theorem cutsIn_stream (h : ∀ b ∈ blocks, b.SingleLined) :
    cutsIn opening.toList (stream blocks).toList = blocks.map fun b => b.text.toList := by
  induction blocks with
  | nil => rfl
  | cons b blocks ih =>
    obtain ⟨hb, hblocks⟩ := List.forall_mem_cons.mp h
    rw [toList_stream_cons, List.map_cons, ← ih hblocks, toList_text]
    exact cutsIn_opened (by decide) (free_text hb blocks) (stream_eq_nil_or blocks)

theorem placesOf_stream (h : ∀ b ∈ blocks, b.SingleLined) :
    placesOf opening (stream blocks) =
      (List.range blocks.length).map fun k => (stream (blocks.take k)).length :=
  placesIn_stream h

theorem cutBefore_stream (h : ∀ b ∈ blocks, b.SingleLined) :
    cutBefore opening (stream blocks) = blocks.map text := by
  rw [cutBefore, cutsIn_stream h, List.map_map]
  exact List.map_congr_left fun b _ => String.ofList_toList

end Block

/-! ## Streams of test cases -/

/-- The type names and the accuracy of an overload have no line feed. -/
structure Overload.SingleLined (o : Overload) : Prop where
  types : ∀ t ∈ o.returnType :: o.argTypes, '\n' ∉ t.name.toList
  accuracy : ∀ accuracy ∈ o.template.accuracy, '\n' ∉ accuracy.toList

namespace TestCase

variable {c : TestCase} {a : Argument}

theorem type_mem_argTypes (ha : a ∈ c.arguments) : a.type ∈ c.overload.argTypes :=
  List.mem_of_getElem? (mem_arguments.mp ha).1

theorem type_mem_of_pointerArgument? (h : c.pointerArgument? = some a) :
    a.type ∈ c.overload.argTypes :=
  type_mem_argTypes (List.mem_of_find?_eq_some h)

/-- The accessor of shared memory is that of the pointer's type. -/
theorem accessor_eq_some {accessor : String} (h : c.accessor = some accessor) :
    ∃ t ∈ c.overload.argTypes,
      accessor = applied "sycl::local_accessor" [t.name, "1"] ∨
      accessor = applied "sycl::accessor"
        [t.name, "1", "sycl::access_mode::read_write", "sycl::target::device"] := by
  unfold TestCase.accessor at h
  split at h
  · rename_i a _ ha
    exact ⟨a.type, type_mem_of_pointerArgument? ha, .inl (Option.some.inj h).symm⟩
  · rename_i a _ ha
    exact ⟨a.type, type_mem_of_pointerArgument? ha, .inr (Option.some.inj h).symm⟩
  · cases h

/-- A block has the accuracy of its overload or none. -/
theorem accuracy_of_block {accuracy : String} (h : c.block.accuracy = some accuracy) :
    TestCase.accuracy c.overload = some accuracy := by
  rw [block] at h
  split at h
  · exact h
  · cases h

theorem not_mem_accessor (h : c.overload.SingleLined) {accessor : String}
    (haccessor : c.accessor = some accessor) : '\n' ∉ accessor.toList := by
  obtain ⟨t, ht, rfl | rfl⟩ := accessor_eq_some haccessor <;>
  · have hname := h.types t (List.mem_cons_of_mem _ ht)
    simp [applied, String.intercalate_cons_cons, hname]

theorem not_mem_nameText (name : Name) : '\n' ∉ name.text.toList := by
  cases name with
  | input index =>
    have hindex := Block.not_mem_toString index
    simpa [Name.text] using hindex
  | source | sourceCopy | expected | actual | accessor => simp [Name.text]

theorem not_mem_accuracy {o : Overload} (h : o.SingleLined) {accuracy : String}
    (haccuracy : TestCase.accuracy o = some accuracy) : '\n' ∉ accuracy.toList := by
  obtain ⟨s, hs, rfl⟩ := Option.map_eq_some_iff.mp haccuracy
  have hsize : (toString (vectorSize o)).toList.filter (· == '\n') = [] := by
    refine List.filter_eq_nil_iff.mpr fun c hc hfeed => ?_
    rw [beq_iff_eq.mp hfeed] at hc
    exact Block.not_mem_toString (vectorSize o).toNat hc
  intro hmem
  have hkept :
      '\n' ∈ (replaceAll "vecSize" (toString (vectorSize o)) s).toList.filter (· == '\n') :=
    List.mem_filter.mpr ⟨hmem, rfl⟩
  rw [filter_replaceAll (by decide) (by decide) hsize] at hkept
  exact h.accuracy s hs (List.mem_filter.mp hkept).1

theorem singleLined_block (h : c.overload.SingleLined) : c.block.SingleLined where
  returnType := h.types _ List.mem_cons_self
  accessor _ haccessor := not_mem_accessor h haccessor
  trailing argument hargument := by
    obtain ⟨name, -, rfl⟩ := List.mem_map.mp hargument
    exact not_mem_nameText name
  accuracy _ haccuracy := not_mem_accuracy h (accuracy_of_block haccuracy)

end TestCase

namespace Suite

theorem source_eq_stream (suite : Suite) :
    suite.source = Block.stream (suite.map TestCase.block) := by
  rw [source, Block.stream, List.map_map]
  rfl

variable {σ : Type} [WordSource σ] {w : σ} {start : UInt64} {check : Checking} {os : List Overload}
  {suite : Suite}

theorem singleLined_of_draw (hos : ∀ o ∈ os, o.SingleLined)
    (h : (draw start check os : Draw σ Suite).outcome w = .ok suite) :
    ∀ b ∈ suite.map TestCase.block, b.SingleLined := by
  intro b hb
  obtain ⟨c, hc, rfl⟩ := List.mem_map.mp hb
  obtain ⟨entry, hentry, id, w', hdraw⟩ := exists_draw_of_mem h hc
  obtain ⟨pointer, inputs, known, -, -, -, rfl⟩ := TestCase.draw_eq_ok.mp hdraw
  exact TestCase.singleLined_block (forall_plan.mpr hos entry hentry)

theorem cutBefore_source (hos : ∀ o ∈ os, o.SingleLined)
    (h : (draw start check os : Draw σ Suite).outcome w = .ok suite) :
    cutBefore Block.opening suite.source = suite.map TestCase.source := by
  rw [source_eq_stream, Block.cutBefore_stream (singleLined_of_draw hos h), List.map_map]
  rfl

theorem length_placesOf_source (hos : ∀ o ∈ os, o.SingleLined)
    (h : (draw start check os : Draw σ Suite).outcome w = .ok suite) :
    (placesOf Block.opening suite.source).length = suite.length := by
  rw [source_eq_stream, Block.placesOf_stream (singleLined_of_draw hos h)]
  simp

/-- **A stream can be cut back into its blocks.** If what stands in the middle of a line has no line
feed, the opening of a block occurs at the first character of each block and nowhere else, whatever
lines the statements and whatever text the comments have. So the source of a suite
has as many openings as the suite has cases, and two suites with the same source have
the same cases' sources. -/
theorem source_cuts_into_blocks :
    (∀ blocks : List Block, (∀ b ∈ blocks, b.SingleLined) →
      placesOf Block.opening (Block.stream blocks) = (List.range blocks.length).map
        (fun k => (Block.stream (blocks.take k)).length) ∧
      cutBefore Block.opening (Block.stream blocks) = blocks.map Block.text) ∧
    ∀ (σ σ' : Type) [WordSource σ] [WordSource σ'] (w : σ) (w' : σ') (start start' : UInt64)
      (check check' : Checking) (os os' : List Overload) (suite suite' : Suite),
      (∀ o ∈ os ++ os', o.SingleLined) →
      (draw start check os : Draw σ Suite).outcome w = .ok suite →
      (draw start' check' os' : Draw σ' Suite).outcome w' = .ok suite' →
      (placesOf Block.opening suite.source).length = suite.length ∧
        cutBefore Block.opening suite.source = suite.map TestCase.source ∧
        (suite.source = suite'.source →
          suite.map TestCase.source = suite'.map TestCase.source) := by
  constructor
  · intro blocks hblocks
    exact ⟨Block.placesOf_stream hblocks, Block.cutBefore_stream hblocks⟩
  · intro σ σ' _ _ w w' start start' check check' os os' suite suite' hlines h h'
    obtain ⟨hos, hos'⟩ := List.forall_mem_append.mp hlines
    refine ⟨length_placesOf_source hos h, cutBefore_source hos h, fun hsource => ?_⟩
    rw [← cutBefore_source hos h, ← cutBefore_source hos' h', hsource]

/-- A block with braces on lines of their own in its statements and in its comment. -/
theorem source_cuts_into_blocks_braces : ∃ b : Block, b.preamble = ["\x7b\n\x7b\n\x7d\n\x7d"] ∧
    b.comment = some "\n\x7b\n" ∧
    placesOf Block.opening (Block.stream [b, b]) = [0, b.text.length] ∧
    cutBefore Block.opening (Block.stream [b, b]) = [b.text, b.text] := by
  let b : Block := ⟨0, .check, "float", ["\x7b\n\x7b\n\x7d\n\x7d"], none, [], ["ref"], none,
    some "\n\x7b\n"⟩
  have hb : b.SingleLined := by
    constructor <;> simp [b]
  obtain ⟨hplaces, hcuts⟩ := source_cuts_into_blocks.1 [b, b] (by simp [hb])
  exact ⟨b, rfl, rfl, by simpa [Block.stream, List.range_succ] using hplaces, hcuts⟩

end Suite

end OverloadSuite
