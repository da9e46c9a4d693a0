import OverloadSuite.Json.Record
import OverloadSuite.Signature.Basic

/-!
The document of a function catalog: the name of its schema and an entry for each signature. A static
reference is named there, and must be one of those that there are.
-/
namespace OverloadSuite

/-- A signature as a document holds it. -/
structure FunctionRecord where
  scope : String
  name : String
  returnKey : String
  argKeys : List String
  pointers : List UInt64
  mutations : List Mutation
  accuracy : Option String
  comment : Option String
  reference : Option String
deriving DecidableEq, Repr

/-- A function catalog as a document holds it. -/
structure FunctionsDocument where
  schemaVersion : String
  functions : List FunctionRecord
deriving DecidableEq, Repr

/-- The mutation that an array of three strings holds. -/
def Mutation.ofJson? : Json → Option Mutation
  | .array [base, derived, rule] => do
    return { base := ← base.text?, derived := ← derived.text?, rule := ← rule.text? }
  | _ => none

/-- The array of a mutation. -/
def Mutation.toJson (m : Mutation) : Json := .ofStrings [m.base, m.derived, m.rule]

namespace FunctionRecord

/-- The names of the fields of an entry. -/
def fieldNames : List String := [
  "namespace", "name", "ret_type", "arg_types", "pntr_indx", "mutations", "accuracy", "comment",
  "static_reference"]

/-- The scope of a function whose entry names none. -/
def defaultScope : String := "sycl"

/-- The entry that a record holds. -/
def ofJson? (json : Json) : Option FunctionRecord := do
  match ← json.fields? fieldNames 4 with
  | [scope, name, returnKey, argKeys, pointers, mutations, accuracy, comment, reference] => some {
      scope := ← Json.defaulted? defaultScope Json.text? scope
      name := ← Json.required? Json.text? name
      returnKey := ← Json.required? Json.text? returnKey
      argKeys := ← Json.required? (Json.list? Json.text?) argKeys
      pointers := ← Json.defaulted? [] (Json.list? Json.word64?) pointers
      mutations := ← Json.defaulted? [] (Json.list? Mutation.ofJson?) mutations
      accuracy := ← Json.optional? Json.text? accuracy
      comment := ← Json.optional? Json.text? comment
      reference := ← Json.optional? Json.text? reference }
  | _ => none

/-- The member of a field that is left out if it is absent. -/
def optionalMember (name : String) (value : Option String) : List (Option String × Json) :=
  (value.map fun s => Json.member name (.ofString s)).toList

/-- The member of a field that is left out if it is empty. -/
def listMember (name : String) (items : List Json) : List (Option String × Json) :=
  if items.isEmpty then [] else [Json.member name (.array items)]

/-- The record of an entry; absent remarks and empty lists of pointers and mutations are left
out. -/
def toJson (e : FunctionRecord) : Json :=
  .object (
    [Json.member "namespace" (.ofString e.scope), Json.member "name" (.ofString e.name),
      Json.member "ret_type" (.ofString e.returnKey),
      Json.member "arg_types" (.ofStrings e.argKeys)] ++
    listMember "pntr_indx" (e.pointers.map fun index => .natural index.toNat) ++
    listMember "mutations" (e.mutations.map Mutation.toJson) ++
    optionalMember "accuracy" e.accuracy ++ optionalMember "comment" e.comment ++
    optionalMember "static_reference" e.reference)

/-- The static reference that an entry names. -/
def namedReference (e : FunctionRecord) : Except Fault (Option Reference) :=
  match e.reference with
  | none => .ok none
  | some name =>
    match Reference.ofName? name with
    | some reference => .ok (some reference)
    | none => .error (.unknownStaticReference (e.scope ++ "::" ++ e.name) name)

/-- The signature of an entry, before it is checked. -/
def rawSignature (e : FunctionRecord) : Except Fault Signature := do
  return { scope := e.scope, name := e.name, returnKey := e.returnKey, argKeys := e.argKeys
           pointers := e.pointers, mutations := e.mutations, accuracy := e.accuracy
           comment := e.comment, reference := ← e.namedReference }

/-- The signature of an entry. Its static reference must find enough arguments. -/
def signature (e : FunctionRecord) : Except Fault Signature := do
  let s ← e.rawSignature
  s.checkReference
  return s

end FunctionRecord

namespace FunctionsDocument

/-- The document that a record holds. -/
def ofJson? (json : Json) : Option FunctionsDocument := do
  match ← json.fields? ["schema_version", "functions"] 2 with
  | [version, functions] => some {
      schemaVersion := ← Json.required? Json.text? version
      functions := ← Json.required? (Json.list? FunctionRecord.ofJson?) functions }
  | _ => none

/-- The record of a document. -/
def toJson (d : FunctionsDocument) : Json :=
  .object [Json.member "schema_version" (.ofString d.schemaVersion),
    Json.member "functions" (.array (d.functions.map FunctionRecord.toJson))]

/-- The signatures of a document, in order. -/
def signatures (d : FunctionsDocument) : Except Fault (List Signature) :=
  if Schema.functions.accepts d.schemaVersion then d.functions.mapM FunctionRecord.signature
  else .error (.schemaMismatch .functions d.schemaVersion)

end FunctionsDocument

end OverloadSuite
