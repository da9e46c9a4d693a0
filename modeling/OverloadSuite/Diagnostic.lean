import OverloadSuite.Json.Basic

/-!
Diagnostics. Every finding has a code, which fixes the phase it belongs to, how severe it is and
what help there is; a diagnostic adds the message of the case at hand. The catalog of all codes is
also a page of documentation.
-/
namespace OverloadSuite

/-- How severe a finding is: an error stops the run. -/
inductive Severity where
  | error
  | warning
deriving DecidableEq, Repr

/-- The part of a run to which a finding belongs. -/
inductive Phase where
  | load
  | resolve
  | expand
  | values
  | synthesize
deriving DecidableEq, Repr

/-- The kinds of findings. -/
inductive Finding where
  | schemaMismatch
  | duplicateType
  | malformedType
  | unknownType
  | typeCycle
  | unknownMutationRule
  | mutationTypeNotInSignature
  | tooManyPointerArgs
  | pointerIndexOutOfRange
  | unknownStaticReference
  | staticReferenceArity
  | staticReferenceShape
  | emptyExpansion
  | unsupportedBaseType
  | invalidVariant
  | idOverflow
deriving DecidableEq, Repr

namespace Severity

/-- The name of a severity. -/
def name : Severity → String
  | error => "Error"
  | warning => "Warning"

/-- The severity with a name. -/
def ofName? (s : String) : Option Severity := [error, warning].find? (·.name == s)

end Severity

namespace Phase

/-- The name of a phase. -/
def name : Phase → String
  | load => "Load"
  | resolve => "Resolve"
  | expand => "Expand"
  | values => "Values"
  | synthesize => "Synthesize"

/-- The phase with a name. -/
def ofName? (s : String) : Option Phase :=
  [load, resolve, expand, values, synthesize].find? (·.name == s)

end Phase

namespace Finding

/-- Every code, in ascending order of its number. -/
def all : List Finding := [
  schemaMismatch, duplicateType, malformedType, unknownType, typeCycle, unknownMutationRule,
  mutationTypeNotInSignature, tooManyPointerArgs, pointerIndexOutOfRange, unknownStaticReference,
  staticReferenceArity, staticReferenceShape, emptyExpansion, unsupportedBaseType, invalidVariant,
  idOverflow]

/-- The number under which a code is reported. -/
def number : Finding → String
  | schemaMismatch => "MG0001"
  | duplicateType => "MG0002"
  | malformedType => "MG0003"
  | unknownType => "MG0010"
  | typeCycle => "MG0011"
  | unknownMutationRule => "MG0100"
  | mutationTypeNotInSignature => "MG0101"
  | tooManyPointerArgs => "MG0110"
  | pointerIndexOutOfRange => "MG0111"
  | unknownStaticReference => "MG0120"
  | staticReferenceArity => "MG0121"
  | staticReferenceShape => "MG0122"
  | emptyExpansion => "MG0200"
  | unsupportedBaseType => "MG0300"
  | invalidVariant => "MG0400"
  | idOverflow => "MG0410"

/-- What the number of a code stands for, in one word. -/
def title : Finding → String
  | schemaMismatch => "SchemaMismatch"
  | duplicateType => "DuplicateType"
  | malformedType => "MalformedType"
  | unknownType => "UnknownType"
  | typeCycle => "TypeCycle"
  | unknownMutationRule => "UnknownMutationRule"
  | mutationTypeNotInSignature => "MutationTypeNotInSignature"
  | tooManyPointerArgs => "TooManyPointerArgs"
  | pointerIndexOutOfRange => "PointerIndexOutOfRange"
  | unknownStaticReference => "UnknownStaticReference"
  | staticReferenceArity => "StaticReferenceArity"
  | staticReferenceShape => "StaticReferenceShape"
  | emptyExpansion => "EmptyExpansion"
  | unsupportedBaseType => "UnsupportedBaseType"
  | invalidVariant => "InvalidVariant"
  | idOverflow => "IdOverflow"

/-- The name of a code in documents: its number and its title. -/
def name (code : Finding) : String := code.number ++ code.title

/-- The code with a name. -/
def ofName? (s : String) : Option Finding := all.find? (·.name == s)

/-- What a code says in general. -/
def summary : Finding → String
  | schemaMismatch => "catalog schema_version mismatch"
  | duplicateType => "duplicate type key in type catalog"
  | malformedType => "type entry violates the leaf/generic shape"
  | unknownType => "unknown type key"
  | typeCycle => "cycle in child_types"
  | unknownMutationRule => "unknown mutation rule"
  | mutationTypeNotInSignature => "mutation references a type absent from the signature"
  | tooManyPointerArgs => "more than one pointer argument"
  | pointerIndexOutOfRange => "pointer index out of range"
  | unknownStaticReference => "unknown static reference"
  | staticReferenceArity => "static reference needs more arguments than the signature has"
  | staticReferenceShape => "static reference result does not match the return type's dim"
  | emptyExpansion => "signature has no admissible overloads"
  | unsupportedBaseType => "unsupported base type for value generation"
  | invalidVariant => "invalid memory/check variant for signature"
  | idOverflow => "test id range exceeds u64"

/-- What can be done about a finding, where there is general advice. -/
def help? : Finding → Option String
  | unknownMutationRule => some "Use one of: dim, base_type, base_type_but_same_sizeof."
  | tooManyPointerArgs =>
    some "Split the entry: each signature may mark at most one pointer argument."
  | pointerIndexOutOfRange =>
    some "pntr_indx is 1-based over arg_types; 0 is reserved for the return type."
  | staticReferenceArity | staticReferenceShape =>
    some "Drop static_reference from the entry to compare against reference::<name> instead."
  | idOverflow => some "Lower --start-id (or the manifest start_id)."
  | emptyExpansion =>
    some "Check the selection (var_types/base_types/dimensions) and the mutation rules."
  | _ => none

/-- The phase in which a code arises. -/
def phase : Finding → Phase
  | schemaMismatch | duplicateType | malformedType | unknownStaticReference => .load
  | unknownType | typeCycle => .resolve
  | unknownMutationRule | mutationTypeNotInSignature | tooManyPointerArgs
  | pointerIndexOutOfRange | staticReferenceArity | emptyExpansion => .expand
  | unsupportedBaseType => .values
  | staticReferenceShape | invalidVariant | idOverflow => .synthesize

/-- Only a signature without overloads leaves the run going. -/
def severity : Finding → Severity
  | emptyExpansion => .warning
  | _ => .error

end Finding

/-- A finding about a case at hand. -/
structure Diagnostic where
  code : Finding
  phase : Phase
  severity : Severity
  message : String
  help : Option String
deriving DecidableEq, Repr

namespace Diagnostic

/-- The diagnostic of a code with a message. -/
def ofCode (code : Finding) (message : String) : Diagnostic :=
  { code, phase := code.phase, severity := code.severity, message, help := code.help? }

@[simp] theorem code_ofCode (code : Finding) (message : String) :
    (ofCode code message).code = code := rfl

/-- The text of a diagnostic, with its help on a second line. -/
def text (d : Diagnostic) : String :=
  let line := d.code.number ++ " " ++ d.phase.name ++ " " ++ d.severity.name ++ ": " ++ d.message
  match d.help with
  | some help => line ++ "\n  help: " ++ help
  | none => line

/-- The row of a code in the catalog page. -/
def catalogRow (code : Finding) : String :=
  "| " ++ String.intercalate " | "
    [code.number, code.phase.name, code.severity.name, code.summary, code.help?.getD ""] ++ " |\n"

/-- The page that lists every code. -/
def catalogPage : String :=
  "# mathgen diagnostics catalog\n\n" ++
  "This document is generated from `crates/mathgen-core/src/diagnostics.rs`.\n\n" ++
  "| Code | Phase | Severity | Message | Help |\n" ++
  "| ---- | ----- | -------- | ------- | ---- |\n" ++
  String.join (Finding.all.map catalogRow)

end Diagnostic

end OverloadSuite
