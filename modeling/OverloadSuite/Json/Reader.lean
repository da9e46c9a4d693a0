import OverloadSuite.Json.Lexer

/-!
Reading a JSON value from its tokens. The state is a stack of the arrays and objects that are still
open and what must come next, so values may be nested to any depth. A text holds exactly one value.
-/
namespace OverloadSuite.Json

/-- An open array or object with its complete parts, last first; the name of a member whose value
is still to come is kept beside them. -/
inductive Frame where
  | array (items : List Json)
  | object (members : List (Option String × Json))
  | member (members : List (Option String × Json)) (name : Option String)

/-- What must come next: a value, a value or the end of an empty array, a name or the end of an
empty object, a name, the colon after a name, a comma or an end, or nothing. -/
inductive Expected where
  | value
  | itemOrEnd
  | nameOrEnd
  | name
  | colon
  | commaOrEnd
  | nothing (value : Json)

/-- The open arrays and objects, innermost first, and what must come next. -/
structure Reader where
  frames : List Frame
  expected : Expected

namespace Reader

/-- A complete value goes into the innermost open frame, or is the value of the text. -/
def place? (frames : List Frame) (value : Json) : Option Reader :=
  match frames with
  | [] => some ⟨[], .nothing value⟩
  | .array items :: frames => some ⟨.array (value :: items) :: frames, .commaOrEnd⟩
  | .member members name :: frames =>
    some ⟨.object ((name, value) :: members) :: frames, .commaOrEnd⟩
  | .object _ :: _ => none

/-- A token where a value must come. -/
def value? (frames : List Frame) : Token → Option Reader
  | .openArray => some ⟨.array [] :: frames, .itemOrEnd⟩
  | .openObject => some ⟨.object [] :: frames, .nameOrEnd⟩
  | .null => place? frames .null
  | .bool b => place? frames (.bool b)
  | .natural n => place? frames (.natural n)
  | .number text => place? frames (.number text)
  | .string text => place? frames (.string text)
  | _ => none

/-- The end of an array or object, which must be the innermost one. -/
def close? (frames : List Frame) (token : Token) : Option Reader :=
  match frames, token with
  | .array items :: frames, .closeArray => place? frames (.array items.reverse)
  | .object members :: frames, .closeObject => place? frames (.object members.reverse)
  | _, _ => none

/-- A token where a name must come. -/
def name? (frames : List Frame) (token : Token) : Option Reader :=
  match frames, token with
  | .object members :: frames, .string name => some ⟨.member members name :: frames, .colon⟩
  | _, _ => none

/-- The state after one more token, if a value can go on with it. -/
def step? (reader : Reader) (token : Token) : Option Reader :=
  let frames := reader.frames
  match reader.expected, token with
  | .value, token => value? frames token
  | .itemOrEnd, .closeArray => close? frames .closeArray
  | .itemOrEnd, token => value? frames token
  | .nameOrEnd, .closeObject => close? frames .closeObject
  | .nameOrEnd, token => name? frames token
  | .name, token => name? frames token
  | .colon, .colon => some ⟨frames, .value⟩
  | .colon, _ => none
  | .commaOrEnd, .comma =>
    match frames with
    | .array _ :: _ => some ⟨frames, .value⟩
    | .object _ :: _ => some ⟨frames, .name⟩
    | _ => none
  | .commaOrEnd, token => close? frames token
  | .nothing _, _ => none

end Reader

/-- The value of tokens. -/
def ofTokens? (tokens : List Token) : Option Json := do
  match (← tokens.foldlM Reader.step? ⟨[], .value⟩).expected with
  | .nothing value => some value
  | _ => none

/-- The value of a text given as symbols. -/
def ofSymbols? (symbols : List Symbol) : Option Json := do
  ofTokens? (← Lexer.tokens? symbols)

/-- The value of a text. -/
def parse? (s : String) : Option Json := ofSymbols? (s.toList.map some)

/-- The value of a text that is given as bytes. -/
def parseBytes? (bytes : ByteArray) : Option Json := ofSymbols? (Symbol.ofBytes bytes)

end OverloadSuite.Json
