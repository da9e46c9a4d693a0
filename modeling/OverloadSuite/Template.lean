import OverloadSuite.Text.Marker

/-!
Templates: texts into which the emitted source is put, in place of a marker.
-/
namespace OverloadSuite.Template

/-- The text that the emitted source replaces. -/
def marker : String := "$TEST_CASES"

/-- A template with the source in place of each marker; a template needs at least one. -/
def fill? (template source : String) : Option String :=
  if Text.holds marker template then some (Text.replaceAll marker source template) else none

end OverloadSuite.Template
