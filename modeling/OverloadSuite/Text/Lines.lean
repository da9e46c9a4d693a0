/-!
The lines of a text. A line ends at a line feed, which is not part of it; neither is one carriage
return just before that line feed. Text after the last line feed is a line of its own, and an empty
rest is none.
-/
namespace OverloadSuite.Text

/-- A line that a line feed has ended, without the carriage return before it; the line is given
last character first. -/
def endedLine : List Char → List Char
  | '\r' :: line => line.reverse
  | line => line.reverse

/-- The lines that follow when `line`, last character first, has been read of the current one. -/
def linesFrom (line : List Char) : List Char → List (List Char)
  | [] => if line.isEmpty then [] else [line.reverse]
  | '\n' :: cs => endedLine line :: linesFrom [] cs
  | c :: cs => linesFrom (c :: line) cs

/-- The lines of a text, in order. -/
def lines (s : String) : List String :=
  (linesFrom [] s.toList).map String.ofList

end OverloadSuite.Text
