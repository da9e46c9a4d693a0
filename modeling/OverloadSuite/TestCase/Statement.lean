import OverloadSuite.Literal.Basic
import OverloadSuite.TestCase.Variant

/-!
The statements of emitted test cases. A statement knows which names it declares and which it uses,
besides its text.
-/
namespace OverloadSuite

/-- The names that emitted code declares: the inputs, the data behind the pointer argument, its copy
for the reference, the expected and the actual result, and the accessor of shared memory. -/
inductive Name where
  | input (index : Nat)
  | source
  | sourceCopy
  | expected
  | actual
  | accessor
deriving DecidableEq, Repr

/-- A name as emitted code spells it. -/
def Name.text : Name → String
  | input index => "inputData_" ++ toString index
  | source => "multiPtrSourceData"
  | sourceCopy => "refPtr"
  | expected => "ref"
  | actual => "res"
  | accessor => "acc"

/-- A type name that is applied to type arguments. -/
def applied (name : String) (args : List String) : String :=
  name ++ "<" ++ String.intercalate ", " args ++ ">"

/-- The call of a function with some names as arguments. -/
def callText (function : String) (args : List String) : String :=
  function ++ "(" ++ String.intercalate ", " args ++ ")"

/-- The statements of emitted code. -/
inductive Statement where
  /-- A variable of a type with literals for its elements. -/
  | data (type : TypeEntry) (name : Name) (literals : List String)
  /-- A pointer to the source data, or to the accessor's data in shared memory. -/
  | pointer (pointee : TypeEntry) (name : Name) (memory : Memory) (decoration : Decoration)
  /-- An assertion that the call has the return type of the overload. -/
  | assertion (overload : Overload) (args : List Name)
  /-- The actual result of the call. -/
  | actual (overload : Overload) (args : List Name)
  /-- The actual result and the source data are returned together. -/
  | returnBoth (overload : Overload) (pointee : TypeEntry)
  /-- The result of the call is returned. -/
  | returnCall (overload : Overload) (args : List Name)
  /-- A copy of the source data. -/
  | copy (pointee : TypeEntry)
  /-- The expected result, given by literals. -/
  | expectedValue (type : TypeEntry) (literals : List String)
  /-- The expected result of a reference function; the argument that stands for the pointer is the
  address of the copy. -/
  | expectedCall (overload : Overload) (args : List Name)
deriving DecidableEq, Repr

namespace Statement

/-- The call of an overload. -/
def call (o : Overload) (args : List Name) : String :=
  callText o.template.qualifiedName (args.map Name.text)

/-- The declaration of the expected result with its value. -/
def expectedText (type : TypeEntry) (value : String) : String :=
  applied "sycl_cts::resultRef" [type.name] ++ " " ++ Name.expected.text ++ " = " ++ value ++ ";"

/-- A name as an argument of a reference function. -/
def referenceArg : Name → String
  | .sourceCopy => "&" ++ Name.sourceCopy.text
  | name => name.text

/-- The value of a pointer: a cast of the source data's address, or the accessor. -/
def pointerText (pointee : TypeEntry) (name : Name) (memory : Memory) (decoration : Decoration) :
    String :=
  let spaceArgs := [memory.addressSpace, decoration.code]
  let type := applied "sycl::multi_ptr" (pointee.name :: spaceArgs)
  match memory with
  | .privateSpace =>
    type ++ " " ++ name.text ++ " = " ++
      callText (applied "sycl::address_space_cast" spaceArgs) ["&" ++ Name.source.text] ++ ";"
  | _ => type ++ " " ++ callText name.text [Name.accessor.text] ++ ";"

/-- The text of a statement. -/
def text : Statement → String
  | data type name literals =>
    type.name ++ " " ++ name.text ++ "(" ++ Literal.initializer type.base literals ++ ");"
  | pointer pointee name memory decoration => pointerText pointee name memory decoration
  | assertion o args =>
    "static_assert(std::is_same_v<decltype(" ++ call o args ++ "), " ++ o.returnType.name ++
      ">,\n    \"Error: Wrong return type of " ++
      callText o.template.qualifiedName (o.argTypes.map (·.name)) ++ ", not " ++
      o.returnType.name ++ "\");"
  | actual o args => o.returnType.name ++ " " ++ Name.actual.text ++ " = " ++ call o args ++ ";"
  | returnBoth o pointee =>
    "return " ++ callText (applied "privatePtrCheck" [o.returnType.name, pointee.name])
      [Name.actual.text, Name.source.text] ++ ";"
  | returnCall o args => "return " ++ call o args ++ ";"
  | copy pointee =>
    pointee.name ++ " " ++ Name.sourceCopy.text ++ " = " ++ Name.source.text ++ ";"
  | expectedValue type literals =>
    expectedText type (type.name ++ "(" ++ Literal.initializer type.base literals ++ ")")
  | expectedCall o args =>
    expectedText o.returnType (callText ("reference::" ++ o.template.name) (args.map referenceArg))

/-- The names that a statement declares. -/
def declares : Statement → List Name
  | data _ name _ | pointer _ name _ _ => [name]
  | actual .. => [.actual]
  | copy _ => [.sourceCopy]
  | expectedValue .. | expectedCall .. => [.expected]
  | assertion .. | returnBoth .. | returnCall .. => []

/-- The names that a statement uses. -/
def uses : Statement → List Name
  | data .. | expectedValue .. => []
  | pointer _ _ .privateSpace _ | copy _ => [.source]
  | pointer .. => [.accessor]
  | returnBoth .. => [.actual, .source]
  | assertion _ args | actual _ args | returnCall _ args | expectedCall _ args => args

end Statement

end OverloadSuite
