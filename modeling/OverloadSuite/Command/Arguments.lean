import OverloadSuite.Command.Batch

/-!
The arguments of the command line. The first one names a command; options are long names with their
value after an equals sign or as the next argument, in any order. Only `--function` may be given
more than once. Arguments are read from left to right and each value is checked where it is read, so
of a wrong argument and a wish for help the first one counts.
-/
namespace OverloadSuite

/-- What is asked for on the command line. -/
inductive Request where
  | generate (job : Job) (mode : OutputMode)
  | batch (manifest : String) (mode : OutputMode)
  | diagnostics
  | help
deriving DecidableEq, Repr

/-- What the value of an option is: a path, which is never empty, a start id, or any text. -/
inductive ValueKind where
  | path
  | startId
  | text
deriving DecidableEq, Repr

/-- The options of a command: those with a value, and those without. -/
structure OptionNames where
  valued : List (String × ValueKind)
  flags : List String

/-- The options that have been given, first one first, flags with an empty value. -/
abbrev Given := List (String × String)

namespace Arguments

/-- The options of the command that generates one output. -/
def generateOptions : OptionNames where
  valued := [("types", .path), ("functions", .path), ("selection", .path), ("start-id", .startId),
    ("function", .text), ("template", .path), ("out", .path), ("report-out", .path)]
  flags := ["verified", "check"]

/-- The options of the command that does the jobs of a manifest. -/
def batchOptions : OptionNames := { valued := [("manifest", .path)], flags := ["check"] }

/-- The only option that may be given more than once. -/
def repeatable (name : String) : Bool := name == "function"

/-- The name and the value of an argument of the form `name=value`. -/
def splitEquals (s : String) : String × Option String :=
  match s.toList.span (· != '=') with
  | (name, _ :: value) => (String.ofList name, some (String.ofList value))
  | (name, []) => (String.ofList name, none)

/-- An argument that can be the value of the option before it. -/
def isValue (arg : String) : Bool := !arg.startsWith "-" || arg == "-"

/-- An argument that asks for help: the long option, or short ones of which help is the first. -/
def asksForHelp (arg : String) : Bool := arg == "--help" || arg.startsWith "-h"

/-- The start id that a value denotes. -/
def startId? (value : String) : Option UInt64 :=
  (Decimal.readNat? UInt64.size value).map UInt64.ofNat

/-- A value that an option of a kind can have. -/
def acceptable (value : String) : ValueKind → Bool
  | .path => !value.isEmpty
  | .startId => (startId? value).isSome
  | .text => true

/-- One more option, in front of the others, unless it must not be given again. -/
def add? (given : Given) (name value : String) : Option Given :=
  if !repeatable name && (given.lookup name).isSome then none
  else some ((name, value) :: given)

/-- One more option with a value, which must be acceptable. -/
def addValued? (names : OptionNames) (given : Given) (name value : String) : Option Given := do
  if acceptable value (← names.valued.lookup name) then add? given name value else none

/-- The options that arguments give, after those in `given`, which stand last first; `none` inside
if help is asked for. -/
def read? (names : OptionNames) (given : Given) : List String → Option (Option Given)
  | [] | ["--"] => some (some given.reverse)
  | arg :: args =>
    if asksForHelp arg then some none
    else
      match arg.toList with
      | '-' :: '-' :: option =>
        match splitEquals (String.ofList option) with
        | (name, some value) => do
          read? names (← addValued? names given name value) args
        | (name, none) =>
          if name ∈ names.flags then do
            read? names (← add? given name "") args
          else
            match args with
            | value :: args =>
              if isValue value then do
                read? names (← addValued? names given name value) args
              else none
            | [] => none
      | _ => none

/-- Whether a flag is given. -/
def flag (given : Given) (name : String) : Bool := (given.lookup name).isSome

/-- What is done with the outputs. -/
def mode (given : Given) : OutputMode := if flag given "check" then .compare else .write

/-- The request to generate one output. -/
def generate? (given : Given) : Option Request := do
  let job : Job := {
    types := ← given.lookup "types"
    functions := ← given.lookup "functions"
    selection := given.lookup "selection"
    template := given.lookup "template"
    out := ← given.lookup "out"
    report := given.lookup "report-out"
    options := {
      startId := ((given.lookup "start-id").bind startId?).getD 0
      check := if flag given "verified" then .verified else .plain
      functions := (given.filter (·.1 == "function")).map (·.2) } }
  return .generate job (mode given)

/-- The request to do the jobs of a manifest. -/
def batch? (given : Given) : Option Request := do
  return .batch (← given.lookup "manifest") (mode given)

/-- The request that the options of a command make. -/
def command? (names : OptionNames) (request? : Given → Option Request) (args : List String) :
    Option Request := do
  match ← read? names [] args with
  | some given => request? given
  | none => some .help

/-- The request that arguments make, if they follow the rules. -/
def parse? : List String → Option Request
  | "generate" :: args => command? generateOptions generate? args
  | "batch" :: args => command? batchOptions batch? args
  | "diagnostics" :: args => command? ⟨[], []⟩ (fun _ => some .diagnostics) args
  | ["help"] => some .help
  | ["help", command] =>
    if command ∈ ["generate", "batch", "diagnostics", "help"] then some .help else none
  | arg :: _ => if asksForHelp arg then some .help else none
  | [] => none

end Arguments

end OverloadSuite
