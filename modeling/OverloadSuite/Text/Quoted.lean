import OverloadSuite.Text.Unprintable

/-!
The quoted form in which messages show a text that came from outside: a double quote and a backslash
are escaped by a backslash, the four common control characters by a letter, and every other
unprintable character by its number in lower-case hexadecimal between braces.
-/
namespace OverloadSuite.Text

/-- How one character is shown between quotes. -/
def quotedChar (c : Char) : List Char :=
  match c with
  | '"' => ['\\', '"']
  | '\\' => ['\\', '\\']
  | '\n' => ['\\', 'n']
  | '\r' => ['\\', 'r']
  | '\t' => ['\\', 't']
  | '\x00' => ['\\', '0']
  | c =>
    if isUnprintable c then
      ['\\', 'u', '\x7b'] ++ Nat.toDigits 16 c.toNat ++ ['\x7d']
    else [c]

/-- A text between double quotes, in the form of messages. -/
def quoted (s : String) : String :=
  String.ofList ('"' :: s.toList.flatMap quotedChar ++ ['"'])

end OverloadSuite.Text
