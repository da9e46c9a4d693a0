import OverloadSuite.Catalog.Selection
import OverloadSuite.Json.Record

/-!
The document of a selection: the name of its schema and the three sets.
-/
namespace OverloadSuite

/-- A selection as a document holds it. -/
structure SelectionDocument where
  schemaVersion : String
  selection : Selection
deriving DecidableEq, Repr

namespace SelectionDocument

/-- The names of the fields of a selection. -/
def fieldNames : List String := ["schema_version", "var_types", "base_types", "dimensions"]

/-- The document that a record holds; its lists may be in any order and repeat items. -/
def ofJson? (json : Json) : Option SelectionDocument := do
  match ← json.fields? fieldNames 4 with
  | [version, varTypes, baseTypes, dimensions] => some {
      schemaVersion := ← Json.required? Json.text? version
      selection := {
        varTypes := .ofList (← Json.required? (Json.list? Json.text?) varTypes)
        baseTypes := .ofList (← Json.required? (Json.list? Json.text?) baseTypes)
        dimensions := .ofList (← Json.required? (Json.list? Json.word32?) dimensions) } }
  | _ => none

/-- The record of a document, with its lists in ascending order. -/
def toJson (d : SelectionDocument) : Json :=
  .object [Json.member "schema_version" (.ofString d.schemaVersion),
    Json.member "var_types" (.ofStrings d.selection.varTypes.toList),
    Json.member "base_types" (.ofStrings d.selection.baseTypes.toList),
    Json.member "dimensions"
      (.array (d.selection.dimensions.toList.map fun dim => .natural dim.toNat))]

/-- The selection of a document whose schema is the expected one. -/
def checked (d : SelectionDocument) : Except Fault Selection :=
  if Schema.selection.accepts d.schemaVersion then .ok d.selection
  else .error (.schemaMismatch .selection d.schemaVersion)

end SelectionDocument

end OverloadSuite
