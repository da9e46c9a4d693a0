import OverloadSuite.TestCase.Block

/-!
# Comments in emitted code

A comment is the last argument of the harness, as a string literal. Whatever characters it has, the
literal ends where it should and reads back as the comment, so that blocks with different comments
have different texts.
-/

namespace OverloadSuite

namespace Block

/-! ## String literals -/

/-- The inside of a string literal and the text behind it, read from just after the opening quote. A
backslash takes the next character with it; the first other double quote closes the literal. -/
def splitLiteral? : List Char → Option (List Char × List Char)
  | [] => none
  | '"' :: cs => some ([], cs)
  | '\\' :: c :: cs => (splitLiteral? cs).map fun (inside, rest) => ('\\' :: c :: inside, rest)
  | c :: cs => (splitLiteral? cs).map fun (inside, rest) => (c :: inside, rest)

/-- What the inside of a string literal stands for, read from left to right. After a backslash there
is a double quote, another backslash, or an `n` for a line feed; every other character stands for
itself. -/
def unescape? : List Char → Option (List Char)
  | [] => some []
  | '\\' :: '"' :: cs => (unescape? cs).map ('"' :: ·)
  | '\\' :: '\\' :: cs => (unescape? cs).map ('\\' :: ·)
  | '\\' :: 'n' :: cs => (unescape? cs).map ('\n' :: ·)
  | '\\' :: _ => none
  | c :: cs => (unescape? cs).map (c :: ·)

/-- The inside of a string literal that spells a comment. -/
structure Spells (inside comment : List Char) : Prop where
  no_line_feed : '\n' ∉ inside
  /-- A double quote has a backslash before it. -/
  escaped : ∀ before after, inside = before ++ '"' :: after → before.getLast? = some '\\'
  /-- The literal is closed by the first double quote behind its inside. -/
  closes : ∀ rest, splitLiteral? (inside ++ '"' :: rest) = some (inside, rest)
  unescapes : unescape? inside = some comment

/-- How a character stands in a string literal. -/
inductive Escapes : Char → List Char → Prop
  | quote : Escapes '"' ['\\', '"']
  | backslash : Escapes '\\' ['\\', '\\']
  | lineFeed : Escapes '\n' ['\\', 'n']
  | self {c : Char} (hquote : c ≠ '"') (hbackslash : c ≠ '\\') (hfeed : c ≠ '\n') : Escapes c [c]

variable {c : Char} {escape inside comment : List Char}

theorem escapes (c : Char) : Escapes c (escapeCommentChar c) := by
  unfold escapeCommentChar
  split
  · exact .quote
  · exact .backslash
  · exact .lineFeed
  · exact .self ‹_› ‹_› ‹_›

theorem Escapes.splitLiteral?_append (h : Escapes c escape) (cs : List Char) :
    splitLiteral? (escape ++ cs) =
      (splitLiteral? cs).map fun (inside, rest) => (escape ++ inside, rest) := by
  cases h with
  | quote | backslash | lineFeed => rfl
  | self hquote hbackslash hfeed => simp [splitLiteral?, hbackslash]

theorem Escapes.unescape?_append (h : Escapes c escape) (cs : List Char) :
    unescape? (escape ++ cs) = (unescape? cs).map (c :: ·) := by
  cases h with
  | quote | backslash | lineFeed => rfl
  | self hquote hbackslash hfeed => simp [unescape?, hbackslash]

/-- A double quote stands in the escaped form of a character only behind a backslash. -/
theorem Escapes.getLast?_eq {before after : List Char} (h : Escapes c escape)
    (hquote : escape = before ++ '"' :: after) : before.getLast? = some '\\' := by
  cases h with
  | quote | backslash | lineFeed =>
    rcases before with _ | ⟨d, _ | ⟨e, before⟩⟩
    · simp at hquote
    · obtain ⟨rfl, -⟩ := List.cons.inj hquote
      rfl
    · simp at hquote
  | self hself =>
    rcases before with _ | ⟨d, before⟩
    · exact absurd (List.cons.inj hquote).1 hself
    · simp at hquote

theorem Spells.nil : Spells [] [] :=
  ⟨List.not_mem_nil, by simp, fun _ => rfl, rfl⟩

/-- One more character in front of a comment. -/
theorem Spells.cons (hc : Escapes c escape) (h : Spells inside comment) :
    Spells (escape ++ inside) (c :: comment) := by
  refine ⟨?_, ?_, ?_, ?_⟩
  · have hescape : '\n' ∉ escape := by
      cases hc with
      | quote | backslash | lineFeed => decide
      | self _ _ hfeed => simpa using Ne.symm hfeed
    simp [hescape, h.no_line_feed]
  · intro before after hsplit
    rcases List.append_eq_append_iff.mp hsplit with ⟨more, rfl, hinside⟩ | ⟨more, hescape, hrest⟩
    · simp [List.getLast?_append, h.escaped more after hinside]
    · cases more with
      | nil => cases h.escaped [] after hrest.symm
      | cons d more =>
        obtain ⟨rfl, -⟩ := List.cons.inj hrest
        exact hc.getLast?_eq hescape
  · intro rest
    rw [List.append_assoc, hc.splitLiteral?_append, h.closes rest]
    rfl
  · rw [hc.unescape?_append, h.unescapes]
    rfl

theorem spells_flatMap (comment : List Char) :
    Spells (comment.flatMap escapeCommentChar) comment := by
  induction comment with
  | nil => exact .nil
  | cons c comment ih => exact ih.cons (escapes c)

/-! ## The literal in a block -/

variable {b : Block}

/-- A comment as an argument of the harness. -/
def commentArgument : Option String → String
  | some comment => ", \"" ++ escapeComment comment ++ "\""
  | none => ""

/-- The arguments of the harness between the lambda and the comment. -/
def middle (b : Block) : String :=
  String.join (b.trailing.map (", " ++ ·)) ++
    (match b.accuracy with | some accuracy => ", " ++ accuracy | none => "")

theorem tail_eq (b : Block) : b.tail = b.middle ++ commentArgument b.comment := by
  unfold tail
  cases b.comment <;> rfl

/-- The text of a block before its comment. -/
def textBeforeComment (b : Block) : String :=
  b.textBeforeId ++ toString b.id ++ ", " ++ b.returnType ++ ">(" ++
    (if b.harness.takesLog then "log," else "") ++ "\n" ++ "      " ++ b.lambdaHead ++
    indentStatements "        " b.body ++ "      \x7d" ++ b.middle

/-- The comment stands in one place of the text, shortly before its end. -/
theorem text_eq_comment (b : Block) (comment : Option String) :
    ({ b with comment } : Block).text =
      b.textBeforeComment ++ commentArgument comment ++ ");\n\x7d\n" := by
  rw [text, textAfterId, tail_eq, textBeforeComment]
  simp only [String.append_assoc]
  rfl

theorem toList_escapeComment (comment : String) :
    (escapeComment comment).toList = comment.toList.flatMap escapeCommentChar :=
  String.toList_ofList

theorem escapeComment_injective : Function.Injective escapeComment := by
  intro comment comment' h
  have hspells := (spells_flatMap comment.toList).unescapes
  rw [← toList_escapeComment, h, toList_escapeComment,
    (spells_flatMap comment'.toList).unescapes] at hspells
  exact String.toList_inj.mp (Option.some.inj hspells).symm

theorem commentArgument_injective : Function.Injective commentArgument := by
  intro comment comment' h
  cases comment with
  | none =>
    cases comment' with
    | none => rfl
    | some comment' => simp [commentArgument] at h
  | some comment =>
    cases comment' with
    | none => simp [commentArgument] at h
    | some comment' =>
      have hinside : escapeComment comment = escapeComment comment' := by
        simpa [commentArgument] using h
      rw [escapeComment_injective hinside]

/-- **A comment reaches the text of its block as a string literal**, between the other arguments and
the end of the call. The literal has no line feed, is closed by its final quote, and reads back as
the comment. A block that differs only in its comment, or has none, has another text. -/
theorem text_spells_comment {comment : String} (h : b.comment = some comment) :
    (∃ before inside, b.text = before ++ ", \"" ++ inside ++ "\");\n\x7d\n" ∧
      Spells inside.toList comment.toList) ∧
    ∀ comment', comment' ≠ some comment →
      ({ b with comment := comment' } : Block).text ≠ b.text := by
  have htext : b.text = b.textBeforeComment ++ commentArgument (some comment) ++ ");\n\x7d\n" := by
    rw [← text_eq_comment, ← h]
  constructor
  · refine ⟨b.textBeforeComment, escapeComment comment, ?_, ?_⟩
    · rw [htext, commentArgument]
      simp only [String.append_assoc]
      rfl
    · rw [toList_escapeComment]
      exact spells_flatMap comment.toList
  · intro comment' hne heq
    rw [htext, text_eq_comment] at heq
    have hargument : commentArgument comment' = commentArgument (some comment) := by
      simpa using heq
    exact hne (commentArgument_injective hargument)

/-- A comment with a double quote and a line feed that ends in a backslash. -/
theorem text_spells_comment_backslash : ∃ b : Block, b.comment = some "\"\n\\" ∧
    (∃ before inside, b.text = before ++ ", \"" ++ inside ++ "\");\n\x7d\n" ∧
      Spells inside.toList "\"\n\\".toList) ∧
    ({ b with comment := none } : Block).text ≠ b.text := by
  let b : Block := ⟨7, .check, "float", [], none, [], ["ref"], some "4", some "\"\n\\"⟩
  obtain ⟨hspelled, hdiffers⟩ := text_spells_comment (b := b) rfl
  exact ⟨b, rfl, hspelled, hdiffers none nofun⟩

end Block

end OverloadSuite
