import OverloadSuite.Fault
import OverloadSuite.Workspace.Files

/-!
The failures of a command, by cause. The message of a failure leads from what was being done to the
reason why it could not be done. What a decoder finds wrong with a document is not kept: the message
of a document that cannot be decoded ends with its path.
-/
namespace OverloadSuite

/-- A cause for which a command fails. -/
inductive Failure where
  | unreadable (schema : Schema) (path : String) (error : SystemError)
  | undecodable (schema : Schema) (path : String)
  | rejected (schema : Schema) (path : String) (fault : Fault)
  | wrongManifest (found : String)
  | ungenerated (functions : String) (fault : Fault)
  | unreadableTemplate (path : String) (error : SystemError)
  | markerMissing (path : String)
  | unreadableOutput (path : String) (error : SystemError)
  | outputDiffers (path : String)
  | unmadeDirectory (path : String) (error : SystemError)
  | unwrittenOutput (path : String) (error : SystemError)
  | entry (index : Nat) (failure : Failure)
deriving DecidableEq, Repr

namespace Failure

/-- What a document that was decoded is called where its contents are rejected. -/
def subject : Schema → String
  | .types => "types catalog"
  | .functions => "functions catalog"
  | schema => schema.name

/-- The steps of a message, from the outermost context to the reason. A document that cannot be
decoded is named without the decoder's reason. -/
def steps : Failure → List String
  | unreadable schema path error => ["read " ++ schema.name, path, error.message]
  | undecodable schema path => ["parse " ++ schema.name ++ " JSON", path]
  | rejected schema path fault => [subject schema, path, fault.message]
  | wrongManifest found => [Fault.schemaMessage .manifest found]
  | ungenerated functions fault => ["generate from " ++ functions, fault.diagnostic.text]
  | unreadableTemplate path error => ["read template", path, error.message]
  | markerMissing path => ["template has no $TEST_CASES marker", path]
  | unreadableOutput path error => ["read existing output", path, error.message]
  | outputDiffers path => ["generated output differs", path]
  | unmadeDirectory path error => ["create output dir", path, error.message]
  | unwrittenOutput path error => ["write output", path, error.message]
  | entry index failure => ("manifest entry[" ++ toString index ++ "]") :: failure.steps

/-- The message of a failure. -/
def message (f : Failure) : String := String.intercalate ": " f.steps

end Failure

end OverloadSuite
