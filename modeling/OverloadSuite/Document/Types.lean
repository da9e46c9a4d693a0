import OverloadSuite.Catalog.Basic
import OverloadSuite.Json.Record

/-!
The document of a type catalog: the name of its schema and the entries.
-/
namespace OverloadSuite

/-- A type catalog as a document holds it. -/
structure TypesDocument where
  schemaVersion : String
  types : List TypeEntry
deriving DecidableEq, Repr

namespace TypeEntry

/-- The entry that a record holds. -/
def ofJson? (json : Json) : Option TypeEntry := do
  match ← json.fields? ["key", "name", "var_type", "base_type", "dim", "child_types"] 5 with
  | [key, name, varType, baseType, dim, children] => some {
      key := ← Json.required? Json.text? key
      name := ← Json.required? Json.text? name
      varType := ← Json.required? Json.text? varType
      baseType := ← Json.optional? Json.text? baseType
      dim := ← Json.required? Json.word32? dim
      children := ← Json.defaulted? [] (Json.list? Json.text?) children }
  | _ => none

/-- The record of an entry; a missing element type and an empty list of children are left out. -/
def toJson (e : TypeEntry) : Json :=
  .object (
    [Json.member "key" (.ofString e.key), Json.member "name" (.ofString e.name),
      Json.member "var_type" (.ofString e.varType)] ++
    (e.baseType.map fun base => Json.member "base_type" (.ofString base)).toList ++
    [Json.member "dim" (.natural e.dim.toNat)] ++
    (if e.children.isEmpty then [] else [Json.member "child_types" (.ofStrings e.children)]))

end TypeEntry

namespace TypesDocument

/-- The document that a record holds. -/
def ofJson? (json : Json) : Option TypesDocument := do
  match ← json.fields? ["schema_version", "types"] 2 with
  | [version, types] => some {
      schemaVersion := ← Json.required? Json.text? version
      types := ← Json.required? (Json.list? TypeEntry.ofJson?) types }
  | _ => none

/-- The record of a document. -/
def toJson (d : TypesDocument) : Json :=
  .object [Json.member "schema_version" (.ofString d.schemaVersion),
    Json.member "types" (.array (d.types.map TypeEntry.toJson))]

/-- The catalog of a document. -/
def catalog (d : TypesDocument) : Except Fault Catalog :=
  if Schema.types.accepts d.schemaVersion then Catalog.ofList d.types
  else .error (.schemaMismatch .types d.schemaVersion)

end TypesDocument

end OverloadSuite
