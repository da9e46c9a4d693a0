import OverloadSuite.Json.Record
import OverloadSuite.Schema
import OverloadSuite.TestCase.Variant

/-!
The manifest of a batch: the name of its schema and an entry for each run, with the paths of its
documents and outputs and what is asked of it.
-/
namespace OverloadSuite

/-- A run of a batch. Without a start id it goes on from the run before it. -/
structure BatchEntry where
  types : String
  functions : String
  selection : Option String
  check : Checking
  startId : Option UInt64
  functionFilter : List String
  template : Option String
  out : String
  report : Option String
deriving DecidableEq, Repr

/-- The runs of a batch. -/
structure Manifest where
  schemaVersion : String
  entries : List BatchEntry
deriving DecidableEq, Repr

namespace BatchEntry

/-- The names of the fields of an entry. -/
def fieldNames : List String := [
  "types", "functions", "selection", "check", "start_id", "functions_filter", "template", "out",
  "report_out"]

/-- The check mode that a choice names. -/
def checkOfJson? (json : Json) : Option Checking := json.choice? >>= Checking.ofName?

/-- The entry that a record holds. -/
def ofJson? (json : Json) : Option BatchEntry := do
  match ← json.fields? fieldNames 8 with
  | [types, functions, selection, check, startId, functionFilter, template, out, report] => some {
      types := ← Json.required? Json.text? types
      functions := ← Json.required? Json.text? functions
      selection := ← Json.optional? Json.text? selection
      check := ← Json.defaulted? .plain checkOfJson? check
      startId := ← Json.optional? Json.word64? startId
      functionFilter := ← Json.defaulted? [] (Json.list? Json.text?) functionFilter
      template := ← Json.optional? Json.text? template
      out := ← Json.required? Json.text? out
      report := ← Json.optional? Json.text? report }
  | _ => none

end BatchEntry

/-- The manifest that a record holds. -/
def Manifest.ofJson? (json : Json) : Option Manifest := do
  match ← json.fields? ["schema_version", "entries"] 2 with
  | [version, entries] => some {
      schemaVersion := ← Json.required? Json.text? version
      entries := ← Json.required? (Json.list? BatchEntry.ofJson?) entries }
  | _ => none

end OverloadSuite
