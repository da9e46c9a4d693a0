import OverloadSuite.Json.Reader

/-!
# The tokens of JSON values

A value determines its tokens, and the reader finds the value in them again. The induction is on the
value: what the reader does with the tokens of a value depends on the open frames only through
`place?`.
-/

namespace OverloadSuite.Json

/-- A value that its text determines: every string denotes a text and every number is natural. -/
inductive Textual : Json → Prop
  | null : Textual .null
  | bool (b : Bool) : Textual (.bool b)
  | natural (n : Nat) : Textual (.natural n)
  | string (s : String) : Textual (.string (some s))
  | array {items : List Json} : (∀ item ∈ items, Textual item) → Textual (.array items)
  | object {members : List (Option String × Json)} : (∀ m ∈ members, m.1.isSome = true) →
      (∀ m ∈ members, Textual m.2) → Textual (.object members)

mutual

/-- The tokens of a value. -/
def tokens : Json → List Token
  | .null => [.null]
  | .bool b => [.bool b]
  | .natural n => [.natural n]
  | .number text => [.number text]
  | .string text => [.string text]
  | .array items => .openArray :: (itemTokens items ++ [.closeArray])
  | .object members => .openObject :: (memberTokens members ++ [.closeObject])

/-- The tokens of items, with commas between them. -/
def itemTokens : List Json → List Token
  | [] => []
  | [item] => tokens item
  | item :: items => tokens item ++ .comma :: itemTokens items

/-- The tokens of members, with commas between them. -/
def memberTokens : List (Option String × Json) → List Token
  | [] => []
  | [(name, value)] => .string name :: .colon :: tokens value
  | (name, value) :: members =>
    .string name :: .colon :: (tokens value ++ .comma :: memberTokens members)

end

/-- A value may come next. -/
def Expected.AdmitsValue (expected : Expected) : Prop := expected = .value ∨ expected = .itemOrEnd

/-- A name may come next. -/
def Expected.AdmitsName (expected : Expected) : Prop := expected = .name ∨ expected = .nameOrEnd

namespace Reader

variable {frames : List Frame} {expected : Expected} {token : Token}

/-- Reads tokens one after the other. -/
def run? (reader : Reader) (tokens : List Token) : Option Reader := tokens.foldlM step? reader

theorem run?_nil (reader : Reader) : reader.run? [] = some reader := rfl

theorem run?_cons (reader : Reader) (token : Token) (tokens : List Token) :
    reader.run? (token :: tokens) = (reader.step? token).bind (·.run? tokens) := rfl

theorem run?_append (reader : Reader) (tokens tokens' : List Token) :
    reader.run? (tokens ++ tokens') = (reader.run? tokens).bind (·.run? tokens') :=
  List.foldlM_append

theorem step?_of_admitsValue (h : expected.AdmitsValue) (htoken : token ≠ .closeArray) :
    step? ⟨frames, expected⟩ token = value? frames token := by
  rcases h with rfl | rfl
  · rfl
  · cases token <;> first | rfl | exact absurd rfl htoken

theorem step?_of_admitsName (h : expected.AdmitsName) (name : Option String) :
    step? ⟨frames, expected⟩ (.string name) = name? frames (.string name) := by
  rcases h with rfl | rfl <;> rfl

/-- A value as the reader takes it: its tokens put it where it belongs. -/
def Reads (value : Json) : Prop := ∀ (frames : List Frame) (expected : Expected),
  expected.AdmitsValue → run? ⟨frames, expected⟩ (tokens value) = place? frames value

/-- The items of an array collect in its frame, last first. -/
theorem run?_itemTokens {items : List Json} (hitems : ∀ item ∈ items, Reads item) (hne : items ≠ [])
    (done : List Json) (h : expected.AdmitsValue) :
    run? ⟨.array done :: frames, expected⟩ (itemTokens items) =
      some ⟨.array (items.reverse ++ done) :: frames, .commaOrEnd⟩ := by
  induction items generalizing done expected with
  | nil => exact absurd rfl hne
  | cons item items ih =>
    obtain ⟨hitem, hrest⟩ := List.forall_mem_cons.mp hitems
    cases items with
    | nil => exact hitem _ _ h
    | cons next items =>
      rw [itemTokens, run?_append, hitem _ _ h]
      · show run? ⟨.array (item :: done) :: frames, .value⟩ (itemTokens (next :: items)) = _
        rw [ih hrest (by simp) (item :: done) (.inl rfl)]
        simp
      · simp

/-- So do the members of an object. -/
theorem run?_memberTokens {members : List (Option String × Json)}
    (hmembers : ∀ m ∈ members, Reads m.2) (hne : members ≠ [])
    (done : List (Option String × Json)) (h : expected.AdmitsName) :
    run? ⟨.object done :: frames, expected⟩ (memberTokens members) =
      some ⟨.object (members.reverse ++ done) :: frames, .commaOrEnd⟩ := by
  induction members generalizing done expected with
  | nil => exact absurd rfl hne
  | cons member members ih =>
    obtain ⟨name, value⟩ := member
    obtain ⟨hvalue, hrest⟩ := List.forall_mem_cons.mp hmembers
    have hname : ∀ ts : List Token, run? ⟨.object done :: frames, expected⟩
        (.string name :: .colon :: ts) = run? ⟨.member done name :: frames, .value⟩ ts := by
      intro ts
      rw [run?_cons, step?_of_admitsName h]
      rfl
    cases members with
    | nil =>
      rw [memberTokens, hname]
      exact hvalue _ _ (.inl rfl)
    | cons next members =>
      rw [memberTokens, hname, run?_append, hvalue _ _ (.inl rfl)]
      · show run? ⟨.object ((name, value) :: done) :: frames, .name⟩
          (memberTokens (next :: members)) = _
        rw [ih hrest (by simp) ((name, value) :: done) (.inl rfl)]
        simp
      · simp

/-- The tokens of a value put it where it belongs. -/
theorem reads_of_textual {value : Json} (h : value.Textual) : Reads value := by
  induction h with
  | null | bool | natural | string =>
    intro frames expected hexpected
    rw [tokens, run?_cons, step?_of_admitsValue hexpected (by simp)]
    simp [value?, run?_nil]
  | @array items hitems ih =>
    intro frames expected hexpected
    rw [tokens, run?_cons, step?_of_admitsValue hexpected (by simp)]
    show run? ⟨.array [] :: frames, .itemOrEnd⟩ (itemTokens items ++ [.closeArray]) = _
    cases items with
    | nil => simp [itemTokens, run?_cons, run?_nil, step?, close?]
    | cons item items =>
      rw [run?_append, run?_itemTokens ih (by simp) [] (.inr rfl)]
      simp [run?_cons, run?_nil, step?, close?]
  | @object members hnames hmembers ih =>
    intro frames expected hexpected
    rw [tokens, run?_cons, step?_of_admitsValue hexpected (by simp)]
    show run? ⟨.object [] :: frames, .nameOrEnd⟩ (memberTokens members ++ [.closeObject]) = _
    cases members with
    | nil => simp [memberTokens, run?_cons, run?_nil, step?, close?]
    | cons member members =>
      rw [run?_append, run?_memberTokens ih (by simp) [] (.inr rfl)]
      simp [run?_cons, run?_nil, step?, close?]

end Reader

/-- **The reader undoes `tokens`.** -/
theorem ofTokens?_tokens {value : Json} (h : value.Textual) :
    ofTokens? (tokens value) = some value := by
  have hread : (tokens value).foldlM Reader.step? ⟨[], .value⟩ = some ⟨[], .nothing value⟩ :=
    Reader.reads_of_textual h [] .value (.inl rfl)
  simp [ofTokens?, hread]

end OverloadSuite.Json
