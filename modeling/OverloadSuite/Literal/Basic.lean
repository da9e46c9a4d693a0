/-!
Literals of element types. An element type belongs to a class of values, which says how its literals
are drawn, and its literals carry a suffix in emitted code. Types whose size the language leaves
open count with the size that it guarantees.
-/
namespace OverloadSuite

/-- The classes of values. -/
inductive LiteralClass where
  | bool
  | float
  | char
  | i8
  | u8
  | i16
  | u16
  | i32
  | u32
  | i64
  | u64
deriving DecidableEq, Repr

namespace LiteralClass

/-- The class of each element type that inputs can be drawn for. -/
def table : List (String × LiteralClass) := [
  ("bool", bool),
  ("float", float), ("double", float), ("sycl::half", float), ("half", float),
  ("char", char),
  ("signed char", i8), ("int8_t", i8),
  ("unsigned char", u8), ("uint8_t", u8),
  ("short", i16), ("int", i16), ("int16_t", i16),
  ("unsigned short", u16), ("unsigned", u16), ("uint16_t", u16),
  ("long", i32), ("int32_t", i32),
  ("unsigned long", u32), ("uint32_t", u32),
  ("long long", i64), ("int64_t", i64),
  ("unsigned long long", u64), ("uint64_t", u64)]

/-- The class of an element type. -/
def ofBase? (base : String) : Option LiteralClass := table.lookup base

end LiteralClass

namespace Literal

/-- The suffixes of element types whose literals carry one. -/
def suffixes : List (String × String) := [
  ("float", "f"), ("sycl::half", "f"), ("half", "f"),
  ("unsigned long", "U"), ("uint32_t", "U"),
  ("long long", "LL"), ("int64_t", "LL"),
  ("unsigned long long", "LLU"), ("uint64_t", "LLU")]

/-- The suffix of an element type's literals. -/
def suffix (base : String) : String := (suffixes.lookup base).getD ""

/-- The text between the parentheses of an initializer: literals with their suffix. -/
def initializer (base : String) (literals : List String) : String :=
  String.intercalate ", " (literals.map (· ++ suffix base))

end Literal

end OverloadSuite
