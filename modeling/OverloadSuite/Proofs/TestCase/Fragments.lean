import OverloadSuite.TestCase.Statement

/-!
# Names in emitted text

The text of a statement in fragments: fixed text, text that the overload and its inputs give, and
names. The names that a statement declares and uses are exactly those of its fragments, and no fixed
text holds a name as a word of its own.
-/

namespace OverloadSuite

/-! ## Fragments -/

/-- What a name in emitted text is there for. -/
inductive Role where
  | declaration
  | use
deriving DecidableEq, Repr

/-- A part of the text of a statement. -/
inductive Fragment where
  | fixed (text : String)
  /-- A type, a function or the inside of an initializer. -/
  | given (text : String)
  | mention (role : Role) (name : Name)
deriving DecidableEq, Repr

namespace Fragment

/-- A fragment as emitted code has it. -/
def text : Fragment → String
  | fixed text | given text => text
  | mention _ name => name.text

/-- The name in a role, if a fragment is one. -/
def name? (role : Role) : Fragment → Option Name
  | mention role' name => if role' = role then some name else none
  | _ => none

/-- The text that fragments make up. -/
def joined (fragments : List Fragment) : String := String.join (fragments.map text)

/-- The names in a role among fragments, in order. -/
def namesIn (role : Role) (fragments : List Fragment) : List Name :=
  fragments.filterMap (name? role)

/-- Items with commas between them. -/
def listed (items : List (List Fragment)) : List Fragment := List.intercalate [fixed ", "] items

variable {role : Role} {items : List (List Fragment)} {fragments : List Fragment}

@[simp] theorem joined_nil : joined [] = "" := rfl

@[simp] theorem joined_cons (fragment : Fragment) (fragments : List Fragment) :
    joined (fragment :: fragments) = fragment.text ++ joined fragments := String.join_cons

@[simp] theorem joined_append (fragments fragments' : List Fragment) :
    joined (fragments ++ fragments') = joined fragments ++ joined fragments' := by
  rw [joined, List.map_append, String.join_append]
  rfl

@[simp] theorem joined_listed (items : List (List Fragment)) :
    joined (listed items) = String.intercalate ", " (items.map joined) := by
  induction items with
  | nil => rfl
  | cons item items ih =>
    cases items with
    | nil => simp [listed]
    | cons next items =>
      rw [List.map_cons, List.map_cons, String.intercalate_cons_cons, ← List.map_cons, ← ih]
      simp [listed, List.intercalate_cons_cons, text, String.append_assoc]

@[simp] theorem namesIn_nil : namesIn role [] = [] := rfl

@[simp] theorem namesIn_fixed (text : String) :
    namesIn role (fixed text :: fragments) = namesIn role fragments := rfl

@[simp] theorem namesIn_given (text : String) :
    namesIn role (given text :: fragments) = namesIn role fragments := rfl

@[simp] theorem namesIn_mention (role' : Role) (n : Name) :
    namesIn role (mention role' n :: fragments) =
      if role' = role then n :: namesIn role fragments else namesIn role fragments := by
  by_cases h : role' = role <;> simp [namesIn, name?, h]

@[simp] theorem namesIn_append (fragments fragments' : List Fragment) :
    namesIn role (fragments ++ fragments') = namesIn role fragments ++ namesIn role fragments' :=
  List.filterMap_append

@[simp] theorem namesIn_listed (items : List (List Fragment)) :
    namesIn role (listed items) = items.flatMap (namesIn role) := by
  induction items with
  | nil => rfl
  | cons item items ih =>
    cases items with
    | nil => simp [listed]
    | cons next items =>
      rw [List.flatMap_cons, ← ih]
      simp [listed, List.intercalate_cons_cons]

/-! ## Words -/

/-- A character of a word. -/
def isWordChar (c : Char) : Bool := c.isAlphanum || c == '_'

/-- The words of a text, which are its identifiers and numbers. -/
def words (text : String) : List String :=
  ((text.toList.splitOnP fun c => !isWordChar c).filter (!·.isEmpty)).map String.ofList

/-- A word that a name is spelled as. -/
def spellsName (word : String) : Bool :=
  word ∈ ["multiPtrSourceData", "refPtr", "ref", "res", "acc"] ||
    "inputData_".toList.isPrefixOf word.toList

/-- A fragment of fixed text that holds no name as a word. -/
def isPlain : Fragment → Bool
  | fixed text => (words text).all fun word => !spellsName word
  | _ => true

@[simp] theorem isPlain_given (text : String) : (given text).isPlain = true := rfl

@[simp] theorem isPlain_mention (role : Role) (n : Name) : (mention role n).isPlain = true := rfl

theorem all_listed (items : List (List Fragment)) :
    (listed items).all isPlain = items.all fun item => item.all isPlain := by
  have hcomma : (fixed ", ").isPlain = true := by decide +kernel
  induction items with
  | nil => rfl
  | cons item items ih =>
    cases items with
    | nil => simp [listed]
    | cons next items =>
      rw [List.all_cons, ← ih]
      simp [listed, List.intercalate_cons_cons, hcomma]

end Fragment

/-! ## Statements -/

namespace Statement

open Fragment

/-- A type name applied to type arguments. -/
def appliedFragments (name : String) (args : List (List Fragment)) : List Fragment :=
  [fixed name, fixed "<"] ++ listed args ++ [fixed ">"]

/-- A function called with arguments. -/
def calledFragments (function : List Fragment) (args : List (List Fragment)) : List Fragment :=
  function ++ [fixed "("] ++ listed args ++ [fixed ")"]

/-- A name as an argument. -/
def argument (name : Name) : List Fragment := [mention .use name]

/-- A name as an argument of a reference function. -/
def referenceArgument : Name → List Fragment
  | .sourceCopy => [fixed "&", mention .use .sourceCopy]
  | name => argument name

/-- The call of an overload. -/
def callFragments (o : Overload) (args : List Name) : List Fragment :=
  calledFragments [given o.template.qualifiedName] (args.map argument)

/-- The declaration of the expected result with its value. -/
def expectedFragments (type : TypeEntry) (value : List Fragment) : List Fragment :=
  appliedFragments "sycl_cts::resultRef" [[given type.name]] ++
    [fixed " ", mention .declaration .expected, fixed " = "] ++ value ++ [fixed ";"]

/-- A pointer with its value. -/
def pointerFragments (pointee : TypeEntry) (name : Name) (memory : Memory)
    (decoration : Decoration) : List Fragment :=
  let spaceArgs := [[fixed memory.addressSpace], [fixed decoration.code]]
  let type := appliedFragments "sycl::multi_ptr" ([given pointee.name] :: spaceArgs)
  match memory with
  | .privateSpace =>
    type ++ [fixed " ", mention .declaration name, fixed " = "] ++
      calledFragments (appliedFragments "sycl::address_space_cast" spaceArgs)
        [[fixed "&", mention .use .source]] ++ [fixed ";"]
  | _ =>
    type ++ [fixed " "] ++
      calledFragments [mention .declaration name] [[mention .use .accessor]] ++ [fixed ";"]

/-- The fragments of a statement, in the order of its text. -/
def fragments : Statement → List Fragment
  | data type name literals =>
    [given type.name, fixed " ", mention .declaration name, fixed "(",
      given (Literal.initializer type.base literals), fixed ");"]
  | pointer pointee name memory decoration => pointerFragments pointee name memory decoration
  | assertion o args =>
    [fixed "static_assert(std::is_same_v<decltype("] ++ callFragments o args ++
      [fixed "), ", given o.returnType.name, fixed ">,\n    \"Error: Wrong return type of "] ++
      calledFragments [given o.template.qualifiedName] (o.argTypes.map fun t => [given t.name]) ++
      [fixed ", not ", given o.returnType.name, fixed "\");"]
  | actual o args =>
    [given o.returnType.name, fixed " ", mention .declaration .actual, fixed " = "] ++
      callFragments o args ++ [fixed ";"]
  | returnBoth o pointee =>
    [fixed "return "] ++ calledFragments (appliedFragments "privatePtrCheck"
      [[given o.returnType.name], [given pointee.name]]) ([.actual, .source].map argument) ++
      [fixed ";"]
  | returnCall o args => [fixed "return "] ++ callFragments o args ++ [fixed ";"]
  | copy pointee =>
    [given pointee.name, fixed " ", mention .declaration .sourceCopy, fixed " = ",
      mention .use .source, fixed ";"]
  | expectedValue type literals =>
    expectedFragments type [given type.name, fixed "(",
      given (Literal.initializer type.base literals), fixed ")"]
  | expectedCall o args =>
    expectedFragments o.returnType
      (calledFragments [fixed "reference::", given o.template.name] (args.map referenceArgument))

variable {role : Role}

@[simp] theorem joined_argument (name : Name) : joined (argument name) = name.text := by
  simp [argument, Fragment.text]

@[simp] theorem joined_referenceArgument (name : Name) :
    joined (referenceArgument name) = referenceArg name := by
  cases name <;> simp [referenceArgument, referenceArg, Fragment.text]

@[simp] theorem joined_appliedFragments (name : String) (args : List (List Fragment)) :
    joined (appliedFragments name args) = applied name (args.map joined) := by
  simp [appliedFragments, applied, Fragment.text, String.append_assoc]

@[simp] theorem joined_calledFragments (function : List Fragment) (args : List (List Fragment)) :
    joined (calledFragments function args) = callText (joined function) (args.map joined) := by
  simp [calledFragments, callText, Fragment.text, String.append_assoc]

@[simp] theorem joined_callFragments (o : Overload) (args : List Name) :
    joined (callFragments o args) = call o args := by
  have hargs : args.map (joined ∘ argument) = args.map Name.text :=
    List.map_congr_left fun name _ => joined_argument name
  simp [callFragments, call, Fragment.text, hargs]

@[simp] theorem joined_expectedFragments (type : TypeEntry) (value : List Fragment) :
    joined (expectedFragments type value) = expectedText type (joined value) := by
  simp [expectedFragments, expectedText, Fragment.text, String.append_assoc]

theorem joined_pointerFragments (pointee : TypeEntry) (name : Name) (memory : Memory)
    (decoration : Decoration) : joined (pointerFragments pointee name memory decoration) =
      pointerText pointee name memory decoration := by
  cases memory <;> simp [pointerFragments, pointerText, Fragment.text, String.append_assoc]

/-- **The fragments of a statement make up its text.** -/
theorem joined_fragments (s : Statement) : joined s.fragments = s.text := by
  cases s with
  | data type name literals =>
    show _ = type.name ++ " " ++ name.text ++ "(" ++ Literal.initializer type.base literals ++ ");"
    simp [fragments, Fragment.text, String.append_assoc]
  | pointer pointee name memory decoration =>
    exact joined_pointerFragments pointee name memory decoration
  | assertion o args =>
    have htypes : o.argTypes.map (joined ∘ fun t => [given t.name]) = o.argTypes.map (·.name) :=
      List.map_congr_left fun t _ => by simp [Fragment.text]
    show _ = "static_assert(std::is_same_v<decltype(" ++ call o args ++ "), " ++
      o.returnType.name ++ ">,\n    \"Error: Wrong return type of " ++
      callText o.template.qualifiedName (o.argTypes.map (·.name)) ++ ", not " ++
      o.returnType.name ++ "\");"
    simp [fragments, Fragment.text, htypes, String.append_assoc]
  | actual o args =>
    show _ = o.returnType.name ++ " " ++ Name.actual.text ++ " = " ++ call o args ++ ";"
    simp [fragments, Fragment.text, String.append_assoc]
  | returnBoth o pointee =>
    show _ = "return " ++ callText (applied "privatePtrCheck" [o.returnType.name, pointee.name])
      [Name.actual.text, Name.source.text] ++ ";"
    simp [fragments, Fragment.text, String.append_assoc]
  | returnCall o args =>
    show _ = "return " ++ call o args ++ ";"
    simp [fragments, Fragment.text, String.append_assoc]
  | copy pointee =>
    show _ = pointee.name ++ " " ++ Name.sourceCopy.text ++ " = " ++ Name.source.text ++ ";"
    simp [fragments, Fragment.text, String.append_assoc]
  | expectedValue type literals =>
    show _ = expectedText type (type.name ++ "(" ++ Literal.initializer type.base literals ++ ")")
    simp [fragments, Fragment.text, String.append_assoc]
  | expectedCall o args =>
    have hargs : args.map (joined ∘ referenceArgument) = args.map referenceArg :=
      List.map_congr_left fun name _ => joined_referenceArgument name
    show _ = expectedText o.returnType
      (callText ("reference::" ++ o.template.name) (args.map referenceArg))
    simp [fragments, Fragment.text, hargs]

@[simp] theorem namesIn_argument (name : Name) :
    namesIn role (argument name) = if .use = role then [name] else [] := by
  simp [argument]

@[simp] theorem namesIn_referenceArgument (name : Name) :
    namesIn role (referenceArgument name) = if .use = role then [name] else [] := by
  cases name <;> simp [referenceArgument]

@[simp] theorem namesIn_appliedFragments (name : String) (args : List (List Fragment)) :
    namesIn role (appliedFragments name args) = args.flatMap (namesIn role) := by
  simp [appliedFragments]

@[simp] theorem namesIn_calledFragments (function : List Fragment) (args : List (List Fragment)) :
    namesIn role (calledFragments function args) =
      namesIn role function ++ args.flatMap (namesIn role) := by
  simp [calledFragments]

@[simp] theorem namesIn_expectedFragments (type : TypeEntry) (value : List Fragment) :
    namesIn role (expectedFragments type value) =
      (if .declaration = role then [.expected] else []) ++ namesIn role value := by
  cases role <;> simp [expectedFragments]

@[simp] theorem all_isPlain_argument (name : Name) : (argument name).all isPlain = true := rfl

@[simp] theorem all_isPlain_referenceArgument (name : Name) :
    (referenceArgument name).all isPlain = true := by
  cases name with
  | sourceCopy => decide +kernel
  | input | source | expected | actual | accessor => rfl

@[simp] theorem all_isPlain_appliedFragments (name : String) (args : List (List Fragment)) :
    (appliedFragments name args).all isPlain =
      ((fixed name).isPlain && args.all fun arg => arg.all isPlain) := by
  have hfixed : (fixed "<").isPlain = true ∧ (fixed ">").isPlain = true := by decide +kernel
  simp [appliedFragments, all_listed, hfixed]

@[simp] theorem all_isPlain_calledFragments (function : List Fragment)
    (args : List (List Fragment)) : (calledFragments function args).all isPlain =
      (function.all isPlain && args.all fun arg => arg.all isPlain) := by
  have hfixed : (fixed "(").isPlain = true ∧ (fixed ")").isPlain = true := by decide +kernel
  simp [calledFragments, all_listed, hfixed]

end Statement

end OverloadSuite
