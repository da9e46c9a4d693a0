import OverloadSuite.Signature.Mutation
import OverloadSuite.Signature.Reference

/-!
Signatures: function templates over type keys, which may be generic. A valid signature has at most
one pointer argument, enough arguments for its static reference, and mutations between its own keys.
-/
namespace OverloadSuite

/-- A function template. Pointer positions count the arguments from one. -/
structure Signature where
  scope : String
  name : String
  returnKey : String
  argKeys : List String
  pointers : List UInt64
  mutations : List Mutation
  accuracy : Option String
  comment : Option String
  reference : Option Reference
deriving DecidableEq, Repr

namespace Signature

/-- The signature of a function without pointers, mutations and remarks. -/
def ofKeys (scope name returnKey : String) (argKeys : List String) : Signature :=
  { scope, name, returnKey, argKeys, pointers := [], mutations := [], accuracy := none,
    comment := none, reference := none }

/-- The name of the function with its scope. -/
def qualifiedName (s : Signature) : String := s.scope ++ "::" ++ s.name

/-- The keys of the arguments and then that of the return type. -/
def keys (s : Signature) : List String := s.argKeys ++ [s.returnKey]

/-- The pointer argument, counted from zero, if there is one. -/
def pointerIndex (s : Signature) : Except Fault (Option Nat) :=
  match s.pointers with
  | [] => .ok none
  | [index] =>
    if 1 ≤ index.toNat ∧ index.toNat ≤ s.argKeys.length then .ok (some (index.toNat - 1))
    else .error (.pointerIndexOutOfRange s.qualifiedName index s.argKeys.length)
  | pointers => .error (.tooManyPointerArgs s.qualifiedName pointers.length)

/-- The static reference must not read more arguments than there are. -/
def checkReference (s : Signature) : Except Fault Unit :=
  match s.reference with
  | some reference =>
    if s.argKeys.length < reference.arity then
      .error (.staticReferenceArity s.qualifiedName reference.name reference.arity
        s.argKeys.length)
    else .ok ()
  | none => .ok ()

/-- A key that a mutation mentions must be one of the signature's. -/
def checkKey (s : Signature) (key : String) : Except Fault Unit :=
  if key ∈ s.keys then .ok () else .error (.mutationTypeNotInSignature s.qualifiedName key)

/-- What a mutation demands. The rule's name is checked first, then the two keys. -/
def constraint (s : Signature) (m : Mutation) : Except Fault Constraint := do
  let rule ← PairRule.ofName s.qualifiedName m.rule
  s.checkKey m.base
  s.checkKey m.derived
  return { base := m.base, derived := m.derived, rule }

/-- What the mutations demand, in order. -/
def constraints (s : Signature) : Except Fault (List Constraint) := s.mutations.mapM s.constraint

end Signature

end OverloadSuite
