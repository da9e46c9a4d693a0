import OverloadSuite.Signature.Overload

/-!
Variants of test cases. A case either only makes the call or also verifies its result; an overload
with a pointer argument is tested in each memory space, with a bare and with a decorated pointer.
-/
namespace OverloadSuite

/-- Where the data behind the pointer argument lives, if there is one. -/
inductive Memory where
  | privateSpace
  | localSpace
  | globalSpace
  | noPointer
deriving DecidableEq, Repr

/-- A test case only makes the call, or compares the result with a reference as well. -/
inductive Checking where
  | plain
  | verified
deriving DecidableEq, Repr

/-- Whether the pointer carries its address space in its type. -/
inductive Decoration where
  | undecorated
  | decorated
deriving DecidableEq, Repr

/-- The name of a memory space in reports. -/
def Memory.name : Memory → String
  | privateSpace => "private"
  | localSpace => "local"
  | globalSpace => "global"
  | noPointer => "no_ptr"

/-- The address space of a memory space in emitted code. -/
def Memory.addressSpace : Memory → String
  | privateSpace => "sycl::access::address_space::private_space"
  | localSpace => "sycl::access::address_space::local_space"
  | globalSpace => "sycl::access::address_space::global_space"
  | noPointer => ""

/-- The name of a check mode in documents. -/
def Checking.name : Checking → String
  | plain => "plain"
  | verified => "verified"

/-- The check mode with a name. -/
def Checking.ofName? (s : String) : Option Checking := [plain, verified].find? (·.name == s)

/-- The name of a decoration in reports. -/
def Decoration.name : Decoration → String
  | undecorated => "no"
  | decorated => "yes"

/-- A decoration in emitted code. -/
def Decoration.code (d : Decoration) : String := "sycl::access::decorated::" ++ d.name

/-- One way of testing an overload. -/
structure Variant where
  memory : Memory
  check : Checking
  decoration : Option Decoration
deriving DecidableEq, Repr

namespace Variant

/-- What is wrong with a variant for an overload with or without a pointer argument. -/
def flaw? (hasPointer : Bool) (v : Variant) : Option VariantFlaw :=
  match hasPointer, v.memory, v.check with
  | _, .noPointer, .plain => some .plainWithoutMemory
  | true, .noPointer, .verified => some .pointerWithoutMemory
  | false, .localSpace, _ | false, .globalSpace, _ => some .sharedWithoutPointer
  | false, .privateSpace, .verified => some .verifiedPrivateWithoutPointer
  | true, _, _ => if v.decoration.isNone then some .pointerWithoutDecoration else none
  | false, _, _ => none

/-- The memory spaces and decorations in which pointers are tested, in order. -/
def spaces : List (Memory × Decoration) := [
  (.privateSpace, .undecorated), (.privateSpace, .decorated),
  (.localSpace, .undecorated), (.localSpace, .decorated),
  (.globalSpace, .undecorated), (.globalSpace, .decorated)]

/-- The variants in which an overload is tested, in order. -/
def ofOverload (check : Checking) (o : Overload) : List Variant :=
  if o.hasPointer then
    spaces.map fun (memory, decoration) => { memory, check, decoration := some decoration }
  else
    match check with
    | .plain => [{ memory := .privateSpace, check, decoration := none }]
    | .verified => [{ memory := .noPointer, check, decoration := none }]

end Variant

end OverloadSuite
