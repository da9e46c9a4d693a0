import OverloadSuite.Diagnostic
import OverloadSuite.Json.Record

/-!
Diagnostics as records. Codes, phases and severities are written by name.
-/
namespace OverloadSuite.Diagnostic

/-- The diagnostic that a record holds. -/
def ofJson? (json : Json) : Option Diagnostic := do
  match ← json.fields? ["code", "phase", "severity", "message", "help"] 5 with
  | [code, phase, severity, message, help] => some {
      code := ← Json.required? Json.choice? code >>= Finding.ofName?
      phase := ← Json.required? Json.choice? phase >>= Phase.ofName?
      severity := ← Json.required? Json.choice? severity >>= Severity.ofName?
      message := ← Json.required? Json.text? message
      help := ← Json.optional? Json.text? help }
  | _ => none

/-- The record of a diagnostic; help that there is none of is written as null. -/
def toJson (d : Diagnostic) : Json :=
  .object [Json.member "code" (.ofString d.code.name), Json.member "phase" (.ofString d.phase.name),
    Json.member "severity" (.ofString d.severity.name),
    Json.member "message" (.ofString d.message),
    Json.member "help" ((d.help.map Json.ofString).getD .null)]

end OverloadSuite.Diagnostic
