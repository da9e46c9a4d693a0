import OverloadSuite.Json.Basic

/-!
Taking records out of JSON values. A record is an object, in which members of other names are
passed over and no field is written twice, or an array of its fields in order, whose last fields
may be missing as long as the first `least` are there.
-/
namespace OverloadSuite.Json

/-- The value of a field among members, absent if no member has its name. -/
def field? (members : List (Option String × Json)) (name : String) : Option (Option Json) :=
  match members.filter fun m => m.1 == some name with
  | [] => some none
  | [m] => some (some m.2)
  | _ => none

/-- The fields of a record, in the order of their names. -/
def fields? (names : List String) (least : Nat) : Json → Option (List (Option Json))
  | .object members =>
    if members.all (·.1.isSome) then names.mapM (field? members) else none
  | .array items =>
    if least ≤ items.length ∧ items.length ≤ names.length then
      some (items.map some ++ List.replicate (names.length - items.length) none)
    else none
  | _ => none

/-- A string. -/
def text? : Json → Option String
  | .string text => text
  | _ => none

/-- An array, with every item read by `read?`. -/
def list? {α : Type} (read? : Json → Option α) : Json → Option (List α)
  | .array items => items.mapM read?
  | _ => none

/-- A natural number of 32 bits. -/
def word32? : Json → Option UInt32
  | .natural n => if n < UInt32.size then some (UInt32.ofNat n) else none
  | _ => none

/-- A natural number of 64 bits. -/
def word64? : Json → Option UInt64
  | .natural n => if n < UInt64.size then some (UInt64.ofNat n) else none
  | _ => none

/-- The name of a choice without contents: a string, or an object whose only member has that name
and holds null. -/
def choice? : Json → Option String
  | .string text => text
  | .object [(name, .null)] => name
  | _ => none

/-- A field that must be there. -/
def required? {α : Type} (read? : Json → Option α) (field : Option Json) : Option α :=
  field.bind read?

/-- A field that may be absent or null. -/
def optional? {α : Type} (read? : Json → Option α) : Option Json → Option (Option α)
  | none | some .null => some none
  | some value => (read? value).map some

/-- A field that has a value of its own when it is absent. -/
def defaulted? {α : Type} (ifAbsent : α) (read? : Json → Option α) : Option Json → Option α
  | none => some ifAbsent
  | some value => read? value

end OverloadSuite.Json
