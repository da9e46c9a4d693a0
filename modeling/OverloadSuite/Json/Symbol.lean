/-!
The symbols of a text that arrives as bytes: its characters, where the bytes are UTF-8, and one
symbol without a character for every byte that belongs to none.
-/
namespace OverloadSuite

/-- A character, or a byte that is part of no character. -/
abbrev Symbol := Option Char

namespace Symbol

/-- The last six bits of a continuation byte. -/
def continuation? (b : UInt8) : Option Nat :=
  if 0x80 ≤ b.toNat ∧ b.toNat < 0xC0 then some (b.toNat - 0x80) else none

/-- The scalar value with this number, provided that the number is not below `least`. -/
def scalar? (least n : Nat) : Option Char :=
  if least ≤ n ∧ n.isValidChar then some (Char.ofNat n) else none

/-- The character that a lead byte begins, and how many of the bytes after it belong to it. -/
def character? (lead : UInt8) (rest : List UInt8) : Option (Char × Nat) := do
  let n := lead.toNat
  if n < 0x80 then
    return (Char.ofNat n, 0)
  else if n < 0xC0 then none
  else if n < 0xE0 then
    let x ← continuation? (← rest[0]?)
    return (← scalar? 0x80 ((n - 0xC0) * 64 + x), 1)
  else if n < 0xF0 then
    let x ← continuation? (← rest[0]?)
    let y ← continuation? (← rest[1]?)
    return (← scalar? 0x800 (((n - 0xE0) * 64 + x) * 64 + y), 2)
  else
    let x ← continuation? (← rest[0]?)
    let y ← continuation? (← rest[1]?)
    let z ← continuation? (← rest[2]?)
    return (← scalar? 0x10000 ((((n - 0xF0) * 64 + x) * 64 + y) * 64 + z), 3)

/-- The symbols of bytes, after those of `done`, last first. -/
def ofBytesAfter (done : List Symbol) (bytes : List UInt8) : List Symbol :=
  match bytes with
  | [] => done.reverse
  | lead :: rest =>
    match character? lead rest with
    | some (c, size) => ofBytesAfter (some c :: done) (rest.drop size)
    | none => ofBytesAfter (none :: done) rest
termination_by bytes.length

/-- The symbols of bytes. -/
def ofBytes (bytes : ByteArray) : List Symbol := ofBytesAfter [] bytes.data.toList

end Symbol

end OverloadSuite
