import OverloadSuite.Diagnostic
import OverloadSuite.Schema
import OverloadSuite.Text.Quoted

/-!
The faults that stop a run. Each one is a mistake in the documents or in the request, kept as its
cause; the wording and the diagnostic code follow from the cause.
-/
namespace OverloadSuite

/-- What is wrong with the shape of a type entry. -/
inductive Malformation where
  | leafWithChildren
  | leafWithoutBase
  | genericWithoutChildren
  | genericWithBase
deriving DecidableEq, Repr

/-- The wording of a malformation. -/
def Malformation.text : Malformation → String
  | leafWithChildren => "leaf type (dim > 0) must not list child_types"
  | leafWithoutBase => "leaf type (dim > 0) needs a base_type"
  | genericWithoutChildren => "generic type (dim == 0) needs at least one child type"
  | genericWithBase => "generic type (dim == 0) must not set base_type"

/-- Where a type key is mentioned: by a type entry, by a signature, or by whoever asks. -/
inductive Referrer where
  | entry (key : String)
  | signature (function : String)
  | request
deriving DecidableEq, Repr

/-- The wording of a place of mention. -/
def Referrer.text : Referrer → String
  | entry key => "type " ++ Text.quoted key
  | signature function => "signature " ++ function
  | request => "expansion request"

/-- Why a variant of a test case does not exist. -/
inductive VariantFlaw where
  | plainWithoutMemory
  | pointerWithoutMemory
  | sharedWithoutPointer
  | verifiedPrivateWithoutPointer
  | pointerWithoutDecoration
deriving DecidableEq, Repr

/-- The wording of a variant's flaw. -/
def VariantFlaw.text : VariantFlaw → String
  | plainWithoutMemory => "plain test cases have no no_ptr form"
  | pointerWithoutMemory => "pointer arguments need a memory space"
  | sharedWithoutPointer => "local and global variants need a pointer argument"
  | verifiedPrivateWithoutPointer => "verified cases without a pointer argument use no_ptr"
  | pointerWithoutDecoration => "pointer variants need a decoration"

/-- A cause for which a run stops. -/
inductive Fault where
  | schemaMismatch (schema : Schema) (found : String)
  | duplicateType (key : String)
  | malformedType (key : String) (malformation : Malformation)
  | unknownType (key : String) (referrer : Referrer)
  | typeCycle (key : String)
  | unknownMutationRule (function rule : String)
  | mutationTypeNotInSignature (function key : String)
  | tooManyPointerArgs (function : String) (count : Nat)
  | pointerIndexOutOfRange (function : String) (index : UInt64) (argCount : Nat)
  | unknownStaticReference (function name : String)
  | staticReferenceArity (function name : String) (expected found : Nat)
  | staticReferenceShape (signature name : String) (expected found : Nat)
  | unsupportedBaseType (baseType : String)
  | invalidVariant (function : String) (flaw : VariantFlaw)
  | idOverflow (startId : UInt64)
deriving DecidableEq, Repr

namespace Fault

/-- The code under which a fault is reported. -/
def code : Fault → Finding
  | schemaMismatch .. => .schemaMismatch
  | duplicateType .. => .duplicateType
  | malformedType .. => .malformedType
  | unknownType .. => .unknownType
  | typeCycle .. => .typeCycle
  | unknownMutationRule .. => .unknownMutationRule
  | mutationTypeNotInSignature .. => .mutationTypeNotInSignature
  | tooManyPointerArgs .. => .tooManyPointerArgs
  | pointerIndexOutOfRange .. => .pointerIndexOutOfRange
  | unknownStaticReference .. => .unknownStaticReference
  | staticReferenceArity .. => .staticReferenceArity
  | staticReferenceShape .. => .staticReferenceShape
  | unsupportedBaseType .. => .unsupportedBaseType
  | invalidVariant .. => .invalidVariant
  | idOverflow .. => .idOverflow

/-- The wording of a schema that is not the expected one. -/
def schemaMessage (schema : Schema) (found : String) : String :=
  schema.name ++ " schema_version mismatch: expected " ++ schema.version ++ " got " ++
    Text.quoted found

/-- The wording of a fault. -/
def message : Fault → String
  | schemaMismatch schema found => schemaMessage schema found
  | duplicateType key => "duplicate type key " ++ Text.quoted key
  | malformedType key malformation =>
    "malformed type " ++ Text.quoted key ++ ": " ++ malformation.text
  | unknownType key referrer =>
    "unknown type key " ++ Text.quoted key ++ " (referenced by " ++ referrer.text ++ ")"
  | typeCycle key => "cycle in child_types through " ++ Text.quoted key
  | unknownMutationRule function rule =>
    "unknown mutation rule " ++ Text.quoted rule ++ " in " ++ function
  | mutationTypeNotInSignature function key =>
    "mutation in " ++ function ++ " references type " ++ Text.quoted key ++
      " which is not in the signature"
  | tooManyPointerArgs function count =>
    function ++ " marks " ++ toString count ++ " pointer arguments; at most one is supported"
  | pointerIndexOutOfRange function index argCount =>
    function ++ " has pointer index " ++ toString index ++ " but only " ++ toString argCount ++
      " arguments"
  | unknownStaticReference function name =>
    "unknown static reference " ++ Text.quoted name ++ " in " ++ function
  | staticReferenceArity function name expected found =>
    "static reference " ++ Text.quoted name ++ " in " ++ function ++ " takes " ++
      toString expected ++ " arguments, signature has " ++ toString found
  | staticReferenceShape signature name expected found =>
    "static reference " ++ Text.quoted name ++ " for " ++ signature ++ " yields " ++
      toString found ++ " values, return type has dim " ++ toString expected
  | unsupportedBaseType baseType =>
    "unsupported base type for value generation: " ++ Text.quoted baseType
  | invalidVariant function flaw => "invalid variant for " ++ function ++ ": " ++ flaw.text
  | idOverflow startId => "test ids starting at " ++ toString startId ++ " overflow u64"

/-- The diagnostic of a fault. -/
def diagnostic (fault : Fault) : Diagnostic := .ofCode fault.code fault.message

end Fault

end OverloadSuite
