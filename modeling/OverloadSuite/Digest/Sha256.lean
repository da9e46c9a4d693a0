import OverloadSuite.Word

/-!
The SHA-256 digest of a sequence of bytes, written in lower-case hexadecimal. The message is padded
to whole blocks of sixteen big-endian words, and each block is mixed into eight chaining words.
-/
namespace OverloadSuite.Sha256

/-- The round constants. -/
def roundConstants : List UInt32 := [
  0x428a2f98, 0x71374491, 0xb5c0fbcf, 0xe9b5dba5, 0x3956c25b, 0x59f111f1, 0x923f82a4, 0xab1c5ed5,
  0xd807aa98, 0x12835b01, 0x243185be, 0x550c7dc3, 0x72be5d74, 0x80deb1fe, 0x9bdc06a7, 0xc19bf174,
  0xe49b69c1, 0xefbe4786, 0x0fc19dc6, 0x240ca1cc, 0x2de92c6f, 0x4a7484aa, 0x5cb0a9dc, 0x76f988da,
  0x983e5152, 0xa831c66d, 0xb00327c8, 0xbf597fc7, 0xc6e00bf3, 0xd5a79147, 0x06ca6351, 0x14292967,
  0x27b70a85, 0x2e1b2138, 0x4d2c6dfc, 0x53380d13, 0x650a7354, 0x766a0abb, 0x81c2c92e, 0x92722c85,
  0xa2bfe8a1, 0xa81a664b, 0xc24b8b70, 0xc76c51a3, 0xd192e819, 0xd6990624, 0xf40e3585, 0x106aa070,
  0x19a4c116, 0x1e376c08, 0x2748774c, 0x34b0bcb5, 0x391c0cb3, 0x4ed8aa4a, 0x5b9cca4f, 0x682e6ff3,
  0x748f82ee, 0x78a5636f, 0x84c87814, 0x8cc70208, 0x90befffa, 0xa4506ceb, 0xbef9a3f7, 0xc67178f2]

/-- The eight chaining words. -/
structure Chain where
  a : UInt32
  b : UInt32
  c : UInt32
  d : UInt32
  e : UInt32
  f : UInt32
  g : UInt32
  h : UInt32
deriving DecidableEq

namespace Chain

/-- The chaining words before the first block. -/
def initial : Chain :=
  ⟨0x6a09e667, 0xbb67ae85, 0x3c6ef372, 0xa54ff53a, 0x510e527f, 0x9b05688c, 0x1f83d9ab, 0x5be0cd19⟩

/-- The words in order. -/
def toList (s : Chain) : List UInt32 := [s.a, s.b, s.c, s.d, s.e, s.f, s.g, s.h]

/-- The sum of two chains, word by word. -/
def add (s t : Chain) : Chain :=
  ⟨s.a + t.a, s.b + t.b, s.c + t.c, s.d + t.d, s.e + t.e, s.f + t.f, s.g + t.g, s.h + t.h⟩

/-- One round with its constant and its message word. -/
def round (s : Chain) (constant word : UInt32) : Chain :=
  let fromE := rotateRight s.e 6 ^^^ rotateRight s.e 11 ^^^ rotateRight s.e 25
  let choice := (s.e &&& s.f) ^^^ (~~~s.e &&& s.g)
  let first := s.h + fromE + choice + constant + word
  let fromA := rotateRight s.a 2 ^^^ rotateRight s.a 13 ^^^ rotateRight s.a 22
  let majority := (s.a &&& s.b) ^^^ (s.a &&& s.c) ^^^ (s.b &&& s.c)
  ⟨first + (fromA + majority), s.a, s.b, s.c, s.d + first, s.e, s.f, s.g⟩

end Chain

/-- The message word that follows the words of a schedule, of which there are at least sixteen. -/
def nextWord (words : Array UInt32) : UInt32 :=
  let early := words.getD (words.size - 15) 0
  let late := words.getD (words.size - 2) 0
  let fromEarly := rotateRight early 7 ^^^ rotateRight early 18 ^^^ (early >>> 3)
  let fromLate := rotateRight late 17 ^^^ rotateRight late 19 ^^^ (late >>> 10)
  fromLate + words.getD (words.size - 7) 0 + fromEarly + words.getD (words.size - 16) 0

/-- The message words of all rounds on a block of sixteen words. -/
def schedule (block : Array UInt32) : Array UInt32 :=
  Nat.repeat (fun words => words.push (nextWord words)) 48 block

/-- The rounds with the given constants, the first one being that of the given number. -/
def rounds (words : Array UInt32) : List UInt32 → (number : Nat) → Chain → Chain
  | [], _, s => s
  | constant :: constants, number, s =>
    rounds words constants (number + 1) (s.round constant (words.getD number 0))

/-- A block of sixteen words mixed into the chain. -/
def mix (s : Chain) (block : Array UInt32) : Chain :=
  s.add (rounds (schedule block) roundConstants 0 s)

/-- The `count` big-endian bytes of a number. -/
def bigEndian (count n : Nat) : List UInt8 :=
  (List.range count).map fun i => (n / Nat.pow 256 (count - 1 - i)).toUInt8

/-- The padding of a message of `size` bytes: a one bit, zeros, and the length in bits in the last
eight bytes of a block. -/
def padding (size : Nat) : List UInt8 :=
  0x80 :: List.replicate ((119 - size % 64) % 64) 0 ++ bigEndian 8 (8 * size)

/-- The byte at a place; past the end there are zeros. -/
def byteAt (bytes : ByteArray) (i : Nat) : UInt32 :=
  if h : i < bytes.size then bytes[i].toUInt32 else 0

/-- The big-endian word that begins at a place. -/
def wordAt (bytes : ByteArray) (i : Nat) : UInt32 :=
  (byteAt bytes i <<< 24) ||| (byteAt bytes (i + 1) <<< 16) ||| (byteAt bytes (i + 2) <<< 8) |||
    byteAt bytes (i + 3)

/-- The sixteen words of the block with a number. -/
def blockAt (bytes : ByteArray) (number : Nat) : Array UInt32 :=
  ((List.range 16).map fun i => wordAt bytes (64 * number + 4 * i)).toArray

/-- The chain after a whole message. -/
def digest (bytes : ByteArray) : Chain :=
  let padded := bytes ++ (padding bytes.size).toByteArray
  (List.range (padded.size / 64)).foldl (fun s number => mix s (blockAt padded number)) .initial

/-- A byte as two hexadecimal digits. -/
def hexByte (b : UInt8) : List Char :=
  [Nat.digitChar (b.toNat / 16), Nat.digitChar (b.toNat % 16)]

/-- The digest of bytes as 64 hexadecimal digits. -/
def hex (bytes : ByteArray) : String :=
  String.ofList ((digest bytes).toList.flatMap fun word =>
    (bigEndian 4 word.toNat).flatMap hexByte)

end OverloadSuite.Sha256
