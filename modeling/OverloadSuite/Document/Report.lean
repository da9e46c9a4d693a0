import OverloadSuite.Document.Diagnostic
import OverloadSuite.Run

/-!
The report of a run as a record.
-/
namespace OverloadSuite.Report

/-- The record of a report. -/
def toJson (r : Report) : Json :=
  .object [Json.member "schema_version" (.ofString Schema.report.version),
    Json.member "check" (.ofString r.check.name),
    Json.member "signature_count" (.natural r.overloadCount),
    Json.member "test_case_count" (.natural r.caseCount),
    Json.member "start_id" (.natural r.startId.toNat),
    Json.member "next_id" (.natural r.nextId.toNat),
    Json.member "diagnostics" (.array (r.diagnostics.map Diagnostic.toJson)),
    Json.member "sha256" (.ofString r.digest)]

end OverloadSuite.Report
