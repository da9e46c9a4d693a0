import OverloadSuite.Json.Basic

/-!
Writing JSON values: a compact form without blanks, and an indented form with two spaces for each
level, one item or member on a line, and nothing between the brackets of an empty array or object.
-/
namespace OverloadSuite.Json

/-- A character of a string: quotes, backslashes and control characters are escaped. -/
def escapeChar (c : Char) : List Char :=
  match c with
  | '"' => ['\\', '"']
  | '\\' => ['\\', '\\']
  | '\x08' => ['\\', 'b']
  | '\x0c' => ['\\', 'f']
  | '\n' => ['\\', 'n']
  | '\r' => ['\\', 'r']
  | '\t' => ['\\', 't']
  | c =>
    if c.toNat < 0x20 then
      ['\\', 'u', '0', '0', Nat.digitChar (c.toNat / 16), Nat.digitChar (c.toNat % 16)]
    else [c]

/-- A string between quotes. One that denotes no text is written as half of a surrogate pair, which
denotes none either. -/
def stringText : Option String → List Char
  | some s => '"' :: s.toList.flatMap escapeChar ++ ['"']
  | none => ['"', '\\', 'u', 'd', '8', '0', '0', '"']

mutual

/-- The compact text of a value. -/
def compactText : Json → List Char
  | .null => ['n', 'u', 'l', 'l']
  | .bool true => ['t', 'r', 'u', 'e']
  | .bool false => ['f', 'a', 'l', 's', 'e']
  | .natural n => Nat.toDigits 10 n
  | .number text => text.toList
  | .string text => stringText text
  | .array items => '[' :: compactItems items ++ [']']
  | .object members => '\x7b' :: compactMembers members ++ ['\x7d']

/-- The compact text of items, with commas between them. -/
def compactItems : List Json → List Char
  | [] => []
  | [item] => compactText item
  | item :: items => compactText item ++ ',' :: compactItems items

/-- The compact text of members, with commas between them. -/
def compactMembers : List (Option String × Json) → List Char
  | [] => []
  | [(name, value)] => stringText name ++ ':' :: compactText value
  | (name, value) :: members =>
    stringText name ++ ':' :: compactText value ++ ',' :: compactMembers members

end

/-- A line feed and the blanks of a level. -/
def newLine (level : Nat) : List Char := '\n' :: List.replicate (2 * level) ' '

mutual

/-- The indented text of a value at a level. -/
def indentedText (level : Nat) : Json → List Char
  | .array (item :: items) =>
    '[' :: newLine (level + 1) ++ indentedText (level + 1) item ++
      indentedItems (level + 1) items ++ newLine level ++ [']']
  | .object ((name, value) :: members) =>
    '\x7b' :: newLine (level + 1) ++ stringText name ++ ':' :: ' ' ::
      indentedText (level + 1) value ++ indentedMembers (level + 1) members ++
      newLine level ++ ['\x7d']
  | .array [] => ['[', ']']
  | .object [] => ['\x7b', '\x7d']
  | .null => ['n', 'u', 'l', 'l']
  | .bool true => ['t', 'r', 'u', 'e']
  | .bool false => ['f', 'a', 'l', 's', 'e']
  | .natural n => Nat.toDigits 10 n
  | .number text => text.toList
  | .string text => stringText text

/-- The indented text of the items after the first. -/
def indentedItems (level : Nat) : List Json → List Char
  | [] => []
  | item :: items =>
    ',' :: newLine level ++ indentedText level item ++ indentedItems level items

/-- The indented text of the members after the first. -/
def indentedMembers (level : Nat) : List (Option String × Json) → List Char
  | [] => []
  | (name, value) :: members =>
    ',' :: newLine level ++ stringText name ++ ':' :: ' ' :: indentedText level value ++
      indentedMembers level members

end

/-- A value in the compact form. -/
def compact (value : Json) : String := String.ofList (compactText value)

/-- A value in the indented form. -/
def indented (value : Json) : String := String.ofList (indentedText 0 value)

end OverloadSuite.Json
