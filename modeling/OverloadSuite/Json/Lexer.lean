import OverloadSuite.Decimal.Read
import OverloadSuite.Json.Basic
import OverloadSuite.Json.Symbol

/-!
Cutting a JSON text into tokens, symbol by symbol. The state is the tokens that are complete and
what is known of the one under way, so reading a text in two parts is reading it at once. Blanks
between tokens are the space, the tab, the line feed and the carriage return.
-/
namespace OverloadSuite.Json

/-- What one place of a string denotes: a character, half of a surrogate pair, or a byte that is
part of no character. -/
inductive Piece where
  | scalar (c : Char)
  | half (n : Nat)
  | malformed
deriving DecidableEq, Repr

/-- The text of pieces, given last first, before `text`. Two halves make a character if the first
is a high one and the second a low one; a half alone denotes nothing. -/
def Piece.join? (text : List Char) : List Piece → Option (List Char)
  | [] => some text
  | .scalar c :: pieces => join? (c :: text) pieces
  | .half low :: .half high :: pieces =>
    if high < 0xDC00 ∧ 0xDC00 ≤ low then
      join? (Char.ofNat (0x10000 + (high - 0xD800) * 0x400 + (low - 0xDC00)) :: text) pieces
    else none
  | _ => none

/-- How far a number has been read. -/
inductive NumberPart where
  | minus
  | zero
  | whole
  | point
  | fraction
  | mark
  | markSign
  | exponent
deriving DecidableEq, Repr

namespace NumberPart

/-- The part that the first character of a number belongs to. -/
def start? (c : Char) : Option NumberPart :=
  if c = '-' then some minus
  else if c = '0' then some zero
  else if c.isDigit then some whole
  else none

/-- The part that a further character belongs to, if the number goes on with it. A whole part does
not begin with a zero and another digit. -/
def next? (part : NumberPart) (c : Char) : Option NumberPart :=
  match part with
  | minus => if c = '0' then some zero else if c.isDigit then some whole else none
  | zero => if c = '.' then some point else if c = 'e' ∨ c = 'E' then some mark else none
  | whole =>
    if c.isDigit then some whole
    else if c = '.' then some point else if c = 'e' ∨ c = 'E' then some mark else none
  | point => if c.isDigit then some fraction else none
  | fraction => if c.isDigit then some fraction else if c = 'e' ∨ c = 'E' then some mark else none
  | mark =>
    if c.isDigit then some exponent else if c = '+' ∨ c = '-' then some markSign else none
  | markSign => if c.isDigit then some exponent else none
  | exponent => if c.isDigit then some exponent else none

/-- A number may end here. -/
def complete : NumberPart → Bool
  | zero | whole | fraction | exponent => true
  | minus | point | mark | markSign => false

end NumberPart

/-- The token under way: none, a string with its pieces, last first, possibly within an escape, a
number with its characters, last first, or a word with the letters that must still come. -/
inductive Mode where
  | between
  | string (pieces : List Piece)
  | escape (pieces : List Piece)
  | hex (pieces : List Piece) (left value : Nat)
  | number (part : NumberPart) (text : List Char)
  | word (letters : List Char) (token : Token)
deriving DecidableEq, Repr

/-- The complete tokens, last first, and the token under way. -/
structure Lexer where
  tokens : List Token
  mode : Mode
deriving DecidableEq, Repr

namespace Lexer

/-- The token of a complete number, given last character first. -/
def numberToken (text : List Char) : Token :=
  let text := text.reverse
  if text.all Char.isDigit then .natural (Decimal.digitsValue text)
  else .number (String.ofList text)

/-- The character of an escape that is a single letter. -/
def escaped? : Char → Option Char
  | '"' => some '"'
  | '\\' => some '\\'
  | '/' => some '/'
  | 'b' => some '\x08'
  | 'f' => some '\x0c'
  | 'n' => some '\n'
  | 'r' => some '\r'
  | 't' => some '\t'
  | _ => none

/-- The value of a hexadecimal digit. -/
def hexDigit? (c : Char) : Option Nat :=
  if c.isDigit then some (c.toNat - '0'.toNat)
  else if 'a' ≤ c ∧ c ≤ 'f' then some (c.toNat - 'a'.toNat + 10)
  else if 'A' ≤ c ∧ c ≤ 'F' then some (c.toNat - 'A'.toNat + 10)
  else none

/-- What a number of four hexadecimal digits denotes. -/
def unitPiece (n : Nat) : Piece :=
  if 0xD800 ≤ n ∧ n < 0xE000 then .half n else .scalar (Char.ofNat n)

/-- The token that is a single character. -/
def mark? : Char → Option Token
  | '[' => some .openArray
  | ']' => some .closeArray
  | '\x7b' => some .openObject
  | '\x7d' => some .closeObject
  | ',' => some .comma
  | ':' => some .colon
  | _ => none

/-- A character between tokens: a blank, a whole token, or the beginning of one. -/
def begin? (tokens : List Token) (c : Char) : Option Lexer :=
  match mark? c with
  | some token => some ⟨token :: tokens, .between⟩
  | none =>
    match NumberPart.start? c with
    | some part => some ⟨tokens, .number part [c]⟩
    | none =>
      match c with
      | ' ' | '\t' | '\n' | '\r' => some ⟨tokens, .between⟩
      | '"' => some ⟨tokens, .string []⟩
      | 't' => some ⟨tokens, .word ['r', 'u', 'e'] (.bool true)⟩
      | 'f' => some ⟨tokens, .word ['a', 'l', 's', 'e'] (.bool false)⟩
      | 'n' => some ⟨tokens, .word ['u', 'l', 'l'] .null⟩
      | _ => none

/-- A character inside a string, which no control character may stand in. -/
def inString? (tokens : List Token) (pieces : List Piece) (c : Char) : Option Lexer :=
  if c = '"' then
    some ⟨.string ((Piece.join? [] pieces).map String.ofList) :: tokens, .between⟩
  else if c = '\\' then some ⟨tokens, .escape pieces⟩
  else if c.toNat < 0x20 then none
  else some ⟨tokens, .string (.scalar c :: pieces)⟩

/-- A character after a backslash. -/
def inEscape? (tokens : List Token) (pieces : List Piece) (c : Char) : Option Lexer :=
  if c = 'u' then some ⟨tokens, .hex pieces 3 0⟩
  else do return ⟨tokens, .string (.scalar (← escaped? c) :: pieces)⟩

/-- The state after one more symbol, if the text can go on with it. -/
def step? (lexer : Lexer) (symbol : Symbol) : Option Lexer :=
  let tokens := lexer.tokens
  match lexer.mode, symbol with
  | .string pieces, none => some ⟨tokens, .string (.malformed :: pieces)⟩
  | _, none => none
  | .between, some c => begin? tokens c
  | .string pieces, some c => inString? tokens pieces c
  | .escape pieces, some c => inEscape? tokens pieces c
  | .hex pieces left value, some c => do
    let value := 16 * value + (← hexDigit? c)
    match left with
    | 0 => return ⟨tokens, .string (unitPiece value :: pieces)⟩
    | left + 1 => return ⟨tokens, .hex pieces left value⟩
  | .number part text, some c =>
    match part.next? c with
    | some part => some ⟨tokens, .number part (c :: text)⟩
    | none => if part.complete then begin? (numberToken text :: tokens) c else none
  | .word letters token, some c =>
    match letters with
    | [] => none
    | [last] => if c = last then some ⟨token :: tokens, .between⟩ else none
    | letter :: letters => if c = letter then some ⟨tokens, .word letters token⟩ else none

/-- The tokens of a text that ends here. -/
def finish? (lexer : Lexer) : Option (List Token) :=
  match lexer.mode with
  | .between => some lexer.tokens.reverse
  | .number part text =>
    if part.complete then some (numberToken text :: lexer.tokens).reverse else none
  | _ => none

/-- The tokens of a text. -/
def tokens? (symbols : List Symbol) : Option (List Token) := do
  (← symbols.foldlM step? ⟨[], .between⟩).finish?

end Lexer

end OverloadSuite.Json
