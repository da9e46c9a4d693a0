/-!
JSON values and the tokens of their texts. A number that is written as digits only is kept as the
natural number it denotes, any other one as it is written. A string is `none` when what is written
between its quotes denotes no text: half of a surrogate pair, or bytes that are not UTF-8.
-/
namespace OverloadSuite

/-- A JSON value. Members keep the order in which they are written, repeated names included. -/
inductive Json where
  | null
  | bool (value : Bool)
  | natural (value : Nat)
  | number (text : String)
  | string (text : Option String)
  | array (items : List Json)
  | object (members : List (Option String × Json))
deriving Inhabited

namespace Json

/-- A token of a JSON text. -/
inductive Token where
  | openArray
  | closeArray
  | openObject
  | closeObject
  | comma
  | colon
  | null
  | bool (value : Bool)
  | natural (value : Nat)
  | number (text : String)
  | string (text : Option String)
deriving DecidableEq, Repr

/-- The string value of a text. -/
def ofString (s : String) : Json := .string (some s)

/-- The array of the strings of a list of texts. -/
def ofStrings (ss : List String) : Json := .array (ss.map ofString)

/-- A member with a given name. -/
def member (name : String) (value : Json) : Option String × Json := (some name, value)

end Json

end OverloadSuite
