import OverloadSuite.Text.Marker
import OverloadSuite.TestCase.Block
import OverloadSuite.TestCase.Statement

/-!
Test cases. A case is an overload, a variant and the literals of its inputs; its statements and its
source text follow from these. The inputs are declared inside the lambda, and again before it where
the expected result or shared memory needs them.
-/
namespace OverloadSuite

/-- A test case with its inputs, one list of literals for each argument. The pointer argument is
counted from zero. A result that is known from the inputs is given by its literals. -/
structure TestCase where
  id : UInt64
  overload : Overload
  variant : Variant
  pointer : Option Nat
  inputs : List (List String)
  known : Option (List String)
deriving DecidableEq, Repr

namespace TestCase

/-- An argument of a case: its place, its type and its literals. -/
structure Argument where
  index : Nat
  type : TypeEntry
  literals : List String
deriving DecidableEq, Repr

/-- The arguments of a case, in order. -/
def arguments (c : TestCase) : List Argument :=
  (c.overload.argTypes.zip c.inputs).mapIdx fun index (type, literals) => { index, type, literals }

/-- The pointer argument of a case. -/
def pointerArgument? (c : TestCase) : Option Argument :=
  c.arguments.find? fun a => c.pointer == some a.index

/-- The names of the inputs, in order. -/
def inputNames (c : TestCase) : List Name := c.arguments.map fun a => .input a.index

/-- The data of an argument: the input itself, or the data behind the pointer. -/
def dataOf (c : TestCase) (a : Argument) : Statement :=
  .data a.type (if c.pointer = some a.index then .source else .input a.index) a.literals

/-- The decoration of the pointer. -/
def decoration (c : TestCase) : Decoration := c.variant.decoration.getD .undecorated

/-- What the lambda declares for an argument. -/
def declarations (c : TestCase) (a : Argument) : List Statement :=
  if c.pointer = some a.index then
    [c.dataOf a, .pointer a.type (.input a.index) c.variant.memory c.decoration]
  else [c.dataOf a]

/-- The end of the body. A verified case in private memory returns the data behind the pointer
together with the result. -/
def ending (c : TestCase) : List Statement :=
  match c.variant.check, c.variant.memory, c.pointerArgument? with
  | .verified, .privateSpace, some a =>
    [.actual c.overload c.inputNames, .returnBoth c.overload a.type]
  | _, _, _ => [.returnCall c.overload c.inputNames]

/-- The statements of the lambda. -/
def body (c : TestCase) : List Statement :=
  c.arguments.flatMap c.declarations ++
    (if c.variant.check = .verified then [.assertion c.overload c.inputNames] else []) ++ c.ending

/-- The expected result of a case without a pointer argument. -/
def expected (c : TestCase) : Statement :=
  match c.known with
  | some literals => .expectedValue c.overload.returnType literals
  | none => .expectedCall c.overload c.inputNames

/-- The inputs as the reference function of a case with a pointer argument takes them. -/
def referenceNames (c : TestCase) : List Name :=
  c.arguments.map fun a => if c.pointer = some a.index then .sourceCopy else .input a.index

/-- The statements before the call of the harness. -/
def preamble (c : TestCase) : List Statement :=
  match c.variant.check, c.pointerArgument? with
  | .plain, none => []
  | .plain, some a => if c.variant.memory = .privateSpace then [] else [c.dataOf a]
  | .verified, none => c.arguments.map c.dataOf ++ [c.expected]
  | .verified, some a =>
    c.arguments.map c.dataOf ++ [.copy a.type, .expectedCall c.overload c.referenceNames]

/-- The names passed to the harness after the lambda. -/
def trailing (c : TestCase) : List Name :=
  let data := if c.variant.memory = .privateSpace then [] else [Name.source]
  match c.variant.check, c.pointerArgument? with
  | .plain, none => []
  | .plain, some _ => data
  | .verified, none => [.expected]
  | .verified, some _ => data ++ [.expected, .sourceCopy]

/-- The type of the accessor that the lambda takes in shared memory. -/
def accessor (c : TestCase) : Option String :=
  match c.variant.memory, c.pointerArgument? with
  | .localSpace, some a => some (applied "sycl::local_accessor" [a.type.name, "1"])
  | .globalSpace, some a =>
    some (applied "sycl::accessor"
      [a.type.name, "1", "sycl::access_mode::read_write", "sycl::target::device"])
  | _, _ => none

/-- The harness of a case. -/
def harness (c : TestCase) : Harness :=
  match c.variant.check, c.variant.memory with
  | .plain, .localSpace => .runLocal
  | .plain, .globalSpace => .runGlobal
  | .plain, _ => .run
  | .verified, .noPointer => .check
  | .verified, .privateSpace => .checkPrivate
  | .verified, .localSpace => .checkLocal
  | .verified, .globalSpace => .checkGlobal

/-- The number that `vecSize` in an accuracy stands for: the elements of the first argument, or of
the result if there are no arguments. -/
def vectorSize (o : Overload) : UInt32 :=
  match o.argTypes with
  | t :: _ => t.dim
  | [] => o.returnType.dim

/-- The accuracy of a verified case, with the vector size filled in. -/
def accuracy (o : Overload) : Option String :=
  o.template.accuracy.map (Text.replaceAll "vecSize" (toString (vectorSize o)))

/-- The block of a case. -/
def block (c : TestCase) : Block where
  id := c.id
  harness := c.harness
  returnType := c.overload.returnType.name
  preamble := c.preamble.map Statement.text
  accessor := c.accessor
  body := c.body.map Statement.text
  trailing := c.trailing.map Name.text
  accuracy := if c.variant.check = .verified then accuracy c.overload else none
  comment := if c.variant.check = .verified then c.overload.template.comment else none

/-- The source text of a case. -/
def source (c : TestCase) : String := c.block.text

/-- The decoration that a report shows: none without a pointer argument. -/
def shownDecoration (c : TestCase) : Option Decoration :=
  if c.pointer.isSome then c.variant.decoration else none

end TestCase

end OverloadSuite
