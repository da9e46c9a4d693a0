import OverloadSuite.Text.Lines

/-!
The layout of a block of emitted code. A block is a scope of its own: statements of the preamble,
then one call of a test harness with a lambda that holds the body, and the further arguments of that
call. Statements may have several lines, each of which is indented.
-/
namespace OverloadSuite

/-- The functions that run the lambda of a block. -/
inductive Harness where
  | run
  | runLocal
  | runGlobal
  | check
  | checkPrivate
  | checkLocal
  | checkGlobal
deriving DecidableEq, Repr

namespace Harness

/-- The name of a harness in emitted code. -/
def name : Harness → String
  | run => "test_function"
  | runLocal => "test_function_multi_ptr_local"
  | runGlobal => "test_function_multi_ptr_global"
  | check => "check_function"
  | checkPrivate => "check_function_multi_ptr_private"
  | checkLocal => "check_function_multi_ptr_local"
  | checkGlobal => "check_function_multi_ptr_global"

/-- A harness that checks reports to a log, which is its first argument. -/
def takesLog : Harness → Bool
  | run | runLocal | runGlobal => false
  | check | checkPrivate | checkLocal | checkGlobal => true

end Harness

/-- The parts of a block, as text. -/
structure Block where
  id : UInt64
  harness : Harness
  returnType : String
  preamble : List String
  accessor : Option String
  body : List String
  trailing : List String
  accuracy : Option String
  comment : Option String
deriving DecidableEq, Repr

namespace Block

/-- A character of a comment within a string literal. -/
def escapeCommentChar (c : Char) : List Char :=
  match c with
  | '"' => ['\\', '"']
  | '\\' => ['\\', '\\']
  | '\n' => ['\\', 'n']
  | c => [c]

/-- A comment as the inside of a string literal. -/
def escapeComment (s : String) : String := String.ofList (s.toList.flatMap escapeCommentChar)

/-- A line of a statement; an empty one is not indented. -/
def indentLine (indent line : String) : String :=
  if line.isEmpty then "\n" else indent ++ line ++ "\n"

/-- A statement with each of its lines indented. -/
def indentStatement (indent statement : String) : String :=
  String.join ((Text.lines statement).map (indentLine indent))

/-- Statements one after the other, indented. -/
def indentStatements (indent : String) (statements : List String) : String :=
  String.join (statements.map (indentStatement indent))

/-- The arguments of the harness after the lambda. -/
def tail (b : Block) : String :=
  String.join (b.trailing.map (", " ++ ·)) ++
    (match b.accuracy with | some accuracy => ", " ++ accuracy | none => "") ++
    (match b.comment with | some comment => ", \"" ++ escapeComment comment ++ "\"" | none => "")

/-- The parameter list of the lambda and its opening brace. -/
def lambdaHead (b : Block) : String :=
  match b.accessor with
  | some accessor => "[=](" ++ accessor ++ " acc)\x7b\n"
  | none => "[=]\x7b\n"

/-- The text of a block before its id. -/
def textBeforeId (b : Block) : String :=
  "\n\x7b\n" ++ indentStatements "  " b.preamble ++ "  " ++ b.harness.name ++ "<"

/-- The text of a block after its id. -/
def textAfterId (b : Block) : String :=
  ", " ++ b.returnType ++ ">(" ++ (if b.harness.takesLog then "log," else "") ++ "\n" ++
    "      " ++ b.lambdaHead ++ indentStatements "        " b.body ++ "      \x7d" ++ b.tail ++
    ");\n\x7d\n"

/-- The text of a block. -/
def text (b : Block) : String := b.textBeforeId ++ toString b.id ++ b.textAfterId

end Block

end OverloadSuite
