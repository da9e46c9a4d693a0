import OverloadSuite.Json.Printer
import OverloadSuite.Proofs.Json.Tokens

/-!
# The texts of JSON values

Cutting the text of a value into tokens, be it compact or indented, gives the tokens of the value,
so that the text is read as the value again. A number is the only token that does not end by itself:
it is complete once a mark, a blank or the end of the text comes after it.
-/

namespace OverloadSuite.Json

namespace Lexer

variable {ts tokens tokens' : List Token} {token : Token} {lexer lexer' : Lexer}
  {pieces : List Piece} {c : Char} {text text' blanks : List Char} {level : Nat} {value : Json}
  {items : List Json} {members : List (Option String × Json)}

/-! ## Characters one after the other -/

/-- Cuts characters one after the other. -/
def run? (lexer : Lexer) (cs : List Char) : Option Lexer := (cs.map some).foldlM step? lexer

theorem run?_nil (lexer : Lexer) : lexer.run? [] = some lexer := rfl

theorem run?_cons (lexer : Lexer) (c : Char) (cs : List Char) :
    lexer.run? (c :: cs) = (lexer.step? (some c)).bind (·.run? cs) := rfl

theorem run?_append (lexer : Lexer) (cs cs' : List Char) :
    lexer.run? (cs ++ cs') = (lexer.run? cs).bind (·.run? cs') := by
  rw [run?, List.map_append]
  exact List.foldlM_append

/-! ## Strings -/

theorem hexDigit?_digitChar : ∀ n < 16, hexDigit? (Nat.digitChar n) = some n := by decide

/-- A character reads itself from what is written for it. -/
theorem run?_escapeChar (ts : List Token) (pieces : List Piece) (c : Char) :
    run? ⟨ts, .string pieces⟩ (escapeChar c) = some ⟨ts, .string (.scalar c :: pieces)⟩ := by
  unfold escapeChar
  split
  case h_8 hquote hslash _ _ _ _ _ =>
    split
    · rename_i hcontrol
      have hhigh := hexDigit?_digitChar (c.toNat / 16) (by omega)
      have hlow := hexDigit?_digitChar (c.toNat % 16) (by omega)
      have hvalue : 16 * (c.toNat / 16) + c.toNat % 16 = c.toNat := by omega
      have hunit : unitPiece c.toNat = .scalar c := by
        rw [unitPiece, if_neg (by omega), Char.ofNat_toNat]
      show run? ⟨ts, .hex pieces 1 0⟩
        [Nat.digitChar (c.toNat / 16), Nat.digitChar (c.toNat % 16)] = _
      simp [run?_cons, run?_nil, step?, hhigh, hlow, hvalue, hunit]
    · rename_i hplain
      show (inString? ts pieces c).bind (·.run? []) = _
      rw [inString?, if_neg hquote, if_neg hslash, if_neg hplain]
      rfl
  all_goals rfl

theorem run?_flatMap_escapeChar (ts : List Token) (pieces : List Piece) (cs : List Char) :
    run? ⟨ts, .string pieces⟩ (cs.flatMap escapeChar) =
      some ⟨ts, .string ((cs.map Piece.scalar).reverse ++ pieces)⟩ := by
  induction cs generalizing pieces with
  | nil => rfl
  | cons c cs ih =>
    rw [List.flatMap_cons, run?_append, run?_escapeChar, Option.bind_some, ih]
    simp

theorem join?_scalars (text cs : List Char) :
    Piece.join? text (cs.map Piece.scalar) = some (cs.reverse ++ text) := by
  induction cs generalizing text with
  | nil => rfl
  | cons c cs ih => simp [Piece.join?, ih]

/-- A string is cut into its token. -/
theorem run?_stringText (ts : List Token) (s : String) :
    run? ⟨ts, .between⟩ (stringText (some s)) = some ⟨.string (some s) :: ts, .between⟩ := by
  have hjoin : Piece.join? [] (s.toList.map Piece.scalar).reverse = some s.toList := by
    rw [← List.map_reverse, join?_scalars]
    simp
  show (run? ⟨ts, .string []⟩ (s.toList.flatMap escapeChar ++ ['"'])) = _
  rw [run?_append, run?_flatMap_escapeChar]
  simp [run?_cons, run?_nil, step?, inString?, hjoin]

/-! ## Numbers -/

theorem start?_digitChar : ∀ n < 10, mark? (Nat.digitChar n) = none ∧
    NumberPart.start? (Nat.digitChar n) = some (if n = 0 then .zero else .whole) := by decide

/-- The digits of a number are under way as a whole part, or as the zero that must stand alone. -/
theorem run?_toDigits (ts : List Token) (n : Nat) : run? ⟨ts, .between⟩ (Nat.toDigits 10 n) =
    some ⟨ts, .number (if n = 0 then .zero else .whole) (Nat.toDigits 10 n).reverse⟩ := by
  induction n using Nat.strongRecOn with
  | ind n ih =>
    by_cases hsmall : n < 10
    · obtain ⟨hmark, hstart⟩ := start?_digitChar n hsmall
      rw [Nat.toDigits_of_lt_base hsmall]
      simp [run?_cons, run?_nil, step?, begin?, hmark, hstart]
    · have hdigit : (Nat.digitChar (n % 10)).isDigit = true := by
        rw [Nat.isDigit_digitChar]
        simp
        omega
      have hhigh : n / 10 ≠ 0 := by omega
      have hn : n ≠ 0 := by omega
      rw [Nat.toDigits_of_base_le (by omega) (by omega), run?_append, ih (n / 10) (by omega)]
      simp [run?_cons, run?_nil, step?, NumberPart.next?, hhigh, hn, hdigit]

theorem numberToken_toDigits (n : Nat) : numberToken (Nat.toDigits 10 n).reverse = .natural n := by
  have hdigits : (Nat.toDigits 10 n).all Char.isDigit = true :=
    List.all_eq_true.mpr fun c hc => Nat.isDigit_of_mem_toDigits (by omega) (by omega) hc
  have hvalue : Decimal.digitsValue (Nat.toDigits 10 n) = n := by
    rw [Decimal.digitsValue_eq_foldl]
    exact Nat.ofDigitChars_toDigits (by omega) (by omega)
  simp [numberToken, hdigits, hvalue]

/-! ## Values -/

/-- The tokens are complete, but for a natural number that ends with the next mark or the text. -/
inductive Settled : List Token → Lexer → Prop
  | between (ts : List Token) : Settled ts ⟨ts, .between⟩
  | number (ts : List Token) (n : Nat) : Settled (.natural n :: ts)
      ⟨ts, .number (if n = 0 then .zero else .whole) (Nat.toDigits 10 n).reverse⟩

theorem Settled.step?_mark {token : Token} (h : Settled ts lexer) (hmark : mark? c = some token) :
    lexer.step? (some c) = some ⟨token :: ts, .between⟩ := by
  have hbegin : ∀ ts : List Token, begin? ts c = some ⟨token :: ts, .between⟩ := by
    intro ts
    simp only [begin?, hmark]
  cases h with
  | between => exact hbegin ts
  | number ts n =>
    have hnext : ∀ part : NumberPart, part = .zero ∨ part = .whole → part.next? c = none := by
      unfold mark? at hmark
      split at hmark <;> first | (rintro part (rfl | rfl) <;> rfl) | cases hmark
    by_cases hn : n = 0 <;>
      simp [step?, hn, hnext, NumberPart.complete, hbegin, ← numberToken_toDigits]

theorem Settled.finish? (h : Settled ts lexer) : lexer.finish? = some ts.reverse := by
  cases h with
  | between => rfl
  | number ts n => by_cases hn : n = 0 <;>
      simp [Lexer.finish?, hn, NumberPart.complete, ← numberToken_toDigits]

/-- Blanks are passed over. -/
def IsBlank (c : Char) : Prop := c = ' ' ∨ c = '\t' ∨ c = '\n' ∨ c = '\r'

theorem begin?_of_isBlank (h : IsBlank c) (ts : List Token) :
    begin? ts c = some ⟨ts, .between⟩ := by
  rcases h with rfl | rfl | rfl | rfl <;> rfl

/-- A blank completes the tokens. -/
theorem Settled.step?_blank (h : Settled ts lexer) (hblank : IsBlank c) :
    lexer.step? (some c) = some ⟨ts, .between⟩ := by
  cases h with
  | between => exact begin?_of_isBlank hblank ts
  | number ts n =>
    have hnext : ∀ part : NumberPart, part = .zero ∨ part = .whole → part.next? c = none := by
      rintro part (rfl | rfl) <;> rcases hblank with rfl | rfl | rfl | rfl <;> rfl
    by_cases hn : n = 0 <;>
      simp [step?, hn, hnext, NumberPart.complete, begin?_of_isBlank hblank,
        ← numberToken_toDigits]

theorem run?_blanks (hblanks : ∀ c ∈ blanks, IsBlank c) (ts : List Token) :
    run? ⟨ts, .between⟩ blanks = some ⟨ts, .between⟩ := by
  induction blanks with
  | nil => rfl
  | cons c blanks ih =>
    obtain ⟨hblank, hblanks⟩ := List.forall_mem_cons.mp hblanks
    rw [run?_cons, (Settled.between ts).step?_blank hblank, Option.bind_some]
    exact ih hblanks

/-! ## Texts that are cut into tokens -/

/-- A text is cut into tokens, wherever it comes between other tokens. -/
def Cuts (text : List Char) (tokens : List Token) : Prop := ∀ ts : List Token, ∃ lexer,
  run? ⟨ts, .between⟩ text = some lexer ∧ Settled (tokens.reverse ++ ts) lexer

namespace Cuts

theorem nil : Cuts [] [] := fun ts => ⟨_, rfl, .between ts⟩

theorem string (s : String) : Cuts (stringText (some s)) [.string (some s)] :=
  fun ts => ⟨_, run?_stringText ts s, .between _⟩

theorem natural (n : Nat) : Cuts (Nat.toDigits 10 n) [.natural n] :=
  fun ts => ⟨_, run?_toDigits ts n, .number ts n⟩

theorem mark_cons (hmark : mark? c = some token) (h : Cuts text tokens) :
    Cuts (c :: text) (token :: tokens) := by
  intro ts
  obtain ⟨lexer, hrun, hsettled⟩ := h (token :: ts)
  refine ⟨lexer, ?_, by simpa using hsettled⟩
  rw [run?_cons, (Settled.between ts).step?_mark hmark, Option.bind_some, hrun]

/-- A mark between two texts completes the tokens of the first one. -/
theorem append_mark (h : Cuts text tokens) (hmark : mark? c = some token)
    (h' : Cuts text' tokens') : Cuts (text ++ c :: text') (tokens ++ token :: tokens') := by
  intro ts
  obtain ⟨lexer, hrun, hsettled⟩ := h ts
  obtain ⟨lexer', hrun', hsettled'⟩ := h' (token :: (tokens.reverse ++ ts))
  refine ⟨lexer', ?_, by simpa using hsettled'⟩
  rw [run?_append, hrun, Option.bind_some, run?_cons, hsettled.step?_mark hmark, Option.bind_some,
    hrun']

theorem blanks_append (hblanks : ∀ c ∈ blanks, IsBlank c) (h : Cuts text tokens) :
    Cuts (blanks ++ text) tokens := by
  intro ts
  obtain ⟨lexer, hrun, hsettled⟩ := h ts
  refine ⟨lexer, ?_, hsettled⟩
  rw [run?_append, run?_blanks hblanks, Option.bind_some, hrun]

/-- Blanks at the end complete the tokens, if there are any. -/
theorem append_blanks (h : Cuts text tokens) (hblanks : ∀ c ∈ blanks, IsBlank c) :
    Cuts (text ++ blanks) tokens := by
  intro ts
  obtain ⟨lexer, hrun, hsettled⟩ := h ts
  cases blanks with
  | nil => exact ⟨lexer, by rw [List.append_nil, hrun], hsettled⟩
  | cons c blanks =>
    obtain ⟨hblank, hblanks⟩ := List.forall_mem_cons.mp hblanks
    refine ⟨_, ?_, .between _⟩
    rw [run?_append, hrun, Option.bind_some, run?_cons, hsettled.step?_blank hblank,
      Option.bind_some, run?_blanks hblanks]

/-- The name of a member, which its value follows. -/
theorem named (name : String) (h : Cuts text tokens) :
    Cuts (stringText (some name) ++ ':' :: text) (.string (some name) :: .colon :: tokens) :=
  (string name).append_mark rfl h

/-- An array, by the text of its items. -/
theorem array (h : Cuts text tokens) :
    Cuts ('[' :: (text ++ [']'])) (.openArray :: (tokens ++ [.closeArray])) :=
  (h.append_mark rfl nil).mark_cons rfl

/-- An object, by the text of its members. -/
theorem object (h : Cuts text tokens) :
    Cuts ('\x7b' :: (text ++ ['\x7d'])) (.openObject :: (tokens ++ [.closeObject])) :=
  (h.append_mark rfl nil).mark_cons rfl

end Cuts

/-! ## Compact texts -/

theorem cuts_compactItems (hitems : ∀ item ∈ items, Cuts (compactText item) item.tokens) :
    Cuts (compactItems items) (itemTokens items) := by
  induction items with
  | nil => exact .nil
  | cons item items ih =>
    obtain ⟨hitem, hrest⟩ := List.forall_mem_cons.mp hitems
    cases items with
    | nil => exact hitem
    | cons next items => exact hitem.append_mark rfl (ih hrest)

theorem cuts_compactMembers (hnames : ∀ m ∈ members, m.1.isSome = true)
    (hmembers : ∀ m ∈ members, Cuts (compactText m.2) m.2.tokens) :
    Cuts (compactMembers members) (memberTokens members) := by
  induction members with
  | nil => exact .nil
  | cons member members ih =>
    obtain ⟨name, value⟩ := member
    obtain ⟨hname, hothers⟩ := List.forall_mem_cons.mp hnames
    obtain ⟨hvalue, hrest⟩ := List.forall_mem_cons.mp hmembers
    obtain ⟨name, rfl⟩ := Option.isSome_iff_exists.mp hname
    cases members with
    | nil => exact hvalue.named name
    | cons next members => exact (hvalue.named name).append_mark (c := ',') rfl (ih hothers hrest)

/-- The compact text of a value is cut into its tokens. -/
theorem cuts_compactText (h : value.Textual) : Cuts (compactText value) value.tokens := by
  induction h with
  | null => exact fun ts => ⟨_, rfl, .between _⟩
  | bool b => cases b <;> exact fun ts => ⟨_, rfl, .between _⟩
  | natural n => exact .natural n
  | string s => exact .string s
  | array hitems ih => exact (cuts_compactItems ih).array
  | object hnames hmembers ih => exact (cuts_compactMembers hnames ih).object

/-! ## Indented texts -/

theorem isBlank_of_mem_newLine (h : c ∈ newLine level) : IsBlank c := by
  rcases List.mem_cons.mp h with rfl | h
  · exact .inr (.inr (.inl rfl))
  · exact .inl (List.eq_of_mem_replicate h)

theorem Cuts.newLine_append (h : Cuts text tokens) (level : Nat) :
    Cuts (newLine level ++ text) tokens :=
  .blanks_append (fun _ => isBlank_of_mem_newLine) h

theorem Cuts.append_newLine (h : Cuts text tokens) (level : Nat) :
    Cuts (text ++ newLine level) tokens :=
  h.append_blanks fun _ => isBlank_of_mem_newLine

/-- The name of a member, which its value follows after a blank. -/
theorem Cuts.named_blank (name : String) (h : Cuts text tokens) :
    Cuts (stringText (some name) ++ ':' :: ' ' :: text)
      (.string (some name) :: .colon :: tokens) := by
  have hblank : ∀ c ∈ [' '], IsBlank c := by simp [IsBlank]
  exact (h.blanks_append hblank).named name

/-- Items on lines of their own, from the first one on. -/
theorem cuts_indentedItems {item : Json}
    (hitems : ∀ other ∈ item :: items, Cuts (indentedText level other) other.tokens) :
    Cuts (indentedText level item ++ indentedItems level items) (itemTokens (item :: items)) := by
  induction items generalizing item with
  | nil =>
    rw [indentedItems, List.append_nil]
    exact hitems item List.mem_cons_self
  | cons next items ih =>
    obtain ⟨hitem, hrest⟩ := List.forall_mem_cons.mp hitems
    have hlines := (ih hrest).newLine_append level
    rw [← List.append_assoc] at hlines
    exact hitem.append_mark (c := ',') rfl hlines

/-- Members on lines of their own, from the first one on. -/
theorem cuts_indentedMembers {name : Option String}
    (hnames : ∀ m ∈ (name, value) :: members, m.1.isSome = true)
    (hmembers : ∀ m ∈ (name, value) :: members, Cuts (indentedText level m.2) m.2.tokens) :
    Cuts (stringText name ++ ':' :: ' ' :: indentedText level value ++
      indentedMembers level members) (memberTokens ((name, value) :: members)) := by
  induction members generalizing name value with
  | nil =>
    obtain ⟨name, rfl⟩ := Option.isSome_iff_exists.mp (hnames _ List.mem_cons_self)
    rw [indentedMembers, List.append_nil]
    exact (hmembers _ List.mem_cons_self).named_blank name
  | cons next members ih =>
    obtain ⟨hname, hothers⟩ := List.forall_mem_cons.mp hnames
    obtain ⟨hvalue, hrest⟩ := List.forall_mem_cons.mp hmembers
    obtain ⟨name, rfl⟩ := Option.isSome_iff_exists.mp hname
    have hlines := (ih hothers hrest).newLine_append level
    rw [← List.append_assoc, ← List.append_assoc] at hlines
    exact (hvalue.named_blank name).append_mark (c := ',') rfl hlines

/-- The indented text of a value is cut into its tokens at every level. -/
theorem cuts_indentedText (h : value.Textual) (level : Nat) :
    Cuts (indentedText level value) value.tokens := by
  -- what is inside a value stands one level further in
  induction h generalizing level with
  | null => exact fun ts => ⟨_, rfl, .between _⟩
  | bool b => cases b <;> exact fun ts => ⟨_, rfl, .between _⟩
  | natural n => exact .natural n
  | string s => exact .string s
  | @array items hitems ih =>
    cases items with
    | nil => exact Cuts.nil.array
    | cons item items =>
      have hcuts := cuts_indentedItems fun other hother => ih other hother (level + 1)
      have hlines := (hcuts.newLine_append (level + 1)).append_newLine level
      simpa [indentedText, Json.tokens] using hlines.array
  | @object members hnames hmembers ih =>
    cases members with
    | nil => exact Cuts.nil.object
    | cons member members =>
      have hcuts := cuts_indentedMembers hnames fun other hother => ih other hother (level + 1)
      have hlines := (hcuts.newLine_append (level + 1)).append_newLine level
      simpa [indentedText, Json.tokens] using hlines.object

/-! ## Reading texts -/

theorem Cuts.tokens?_eq (h : Cuts text tokens) : tokens? (text.map some) = some tokens := by
  obtain ⟨lexer, hrun, hsettled⟩ := h []
  show (run? ⟨[], .between⟩ text).bind finish? = _
  rw [hrun, Option.bind_some, hsettled.finish?]
  simp

end Lexer

theorem parse?_of_cuts {value : Json} {text : String} (h : value.Textual)
    (hcuts : Lexer.Cuts text.toList value.tokens) : parse? text = some value := by
  show (Lexer.tokens? (text.toList.map some)).bind ofTokens? = _
  rw [hcuts.tokens?_eq, Option.bind_some, ofTokens?_tokens h]

/-- **A value is read from its compact text.** -/
theorem parse?_compact {value : Json} (h : value.Textual) : parse? value.compact = some value := by
  refine parse?_of_cuts h ?_
  rw [compact, String.toList_ofList]
  exact Lexer.cuts_compactText h

/-- **A value is read from its indented text**, also if a line feed ends it. -/
theorem parse?_indented {value : Json} (h : value.Textual) :
    parse? value.indented = some value ∧ parse? (value.indented ++ "\n") = some value := by
  have hcuts := Lexer.cuts_indentedText h 0
  constructor
  · refine parse?_of_cuts h ?_
    rw [indented, String.toList_ofList]
    exact hcuts
  · refine parse?_of_cuts h ?_
    rw [indented, String.toList_append, String.toList_ofList]
    exact hcuts.append_newLine 0

end OverloadSuite.Json
