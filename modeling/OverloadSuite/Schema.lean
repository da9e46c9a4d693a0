import OverloadSuite.Text.Blank

/-!
The schemas of the documents that are read and written. A document names its schema with a version,
and blanks around that name do not count.
-/
namespace OverloadSuite

/-- A kind of document. -/
inductive Schema where
  | types
  | functions
  | selection
  | manifest
  | report
deriving DecidableEq, Repr

namespace Schema

/-- What a document of this kind is called. -/
def name : Schema → String
  | types => "types"
  | functions => "functions"
  | selection => "selection"
  | manifest => "manifest"
  | report => "report"

/-- The schema version that documents of this kind must name. -/
def version (schema : Schema) : String := "mathgen." ++ schema.name ++ "@0.1.0"

/-- A named schema version is the expected one. -/
def accepts (schema : Schema) (found : String) : Bool := Text.trim found == schema.version

end Schema

end OverloadSuite
