import OverloadSuite.Random.WordSource
import OverloadSuite.Word

/-!
The key stream of ChaCha with eight rounds, as one sequence of 32-bit words, block after block, from
block zero of stream zero. A word of 64 bits is made of the next two, the first being the low half.
Main statement: words can be dropped without making the blocks that hold them.
-/
namespace OverloadSuite

namespace KeyStream

/-- The sixteen words on which the rounds work. -/
abbrev Words := Vector UInt32 16

/-- A quarter round on four of the words. -/
def quarter (s : Words) (i j k l : Fin 16) : Words :=
  let a := s[i] + s[j]
  let d := rotateLeft (s[l] ^^^ a) 16
  let c := s[k] + d
  let b := rotateLeft (s[j] ^^^ c) 12
  let a := a + b
  let d := rotateLeft (d ^^^ a) 8
  let c := c + d
  let b := rotateLeft (b ^^^ c) 7
  (((s.set i a).set j b).set k c).set l d

/-- Two rounds: a quarter round on each column, then one on each diagonal. -/
def doubleRound (s : Words) : Words :=
  let s := quarter (quarter (quarter (quarter s 0 4 8 12) 1 5 9 13) 2 6 10 14) 3 7 11 15
  quarter (quarter (quarter (quarter s 0 5 10 15) 1 6 11 12) 2 7 8 13) 3 4 9 14

/-- The words "expand 32-byte k" with which every block begins. -/
def constants : Vector UInt32 4 := #v[0x61707865, 0x3320646e, 0x79622d32, 0x6b206574]

/-- A block before the rounds: the constants, the key, the block's number and the stream's. -/
def initial (key : Vector UInt32 8) (number : UInt64) : Words :=
  constants ++ key ++ #v[number.toUInt32, (number >>> 32).toUInt32, 0, 0]

/-- The words of one block: the block after four double rounds, added to itself before them. -/
def block (key : Vector UInt32 8) (number : UInt64) : Words :=
  let s := initial key number
  (doubleRound (doubleRound (doubleRound (doubleRound s)))).zipWith (· + ·) s

end KeyStream

/-- A place in a key stream: the words of the block in hand that are still to come, and the number
of the block after it. -/
structure KeyStream where
  key : Vector UInt32 8
  pending : List UInt32
  number : UInt64
deriving DecidableEq, Repr

namespace KeyStream

/-- The beginning of the stream of a key. -/
def ofKey (key : Vector UInt32 8) : KeyStream := ⟨key, [], 0⟩

/-- The next word. -/
def next32 (s : KeyStream) : UInt32 × KeyStream :=
  match s.pending with
  | w :: pending => (w, { s with pending })
  | [] =>
    let words := block s.key s.number
    (words.head, { s with pending := words.toList.tail, number := s.number + 1 })

/-- The next two words, the first as the low half. -/
def next64 (s : KeyStream) : UInt64 × KeyStream :=
  let (low, s) := s.next32
  let (high, s) := s.next32
  (low.toUInt64 ||| (high.toUInt64 <<< 32), s)

instance : WordSource KeyStream where
  next32 := next32
  next64 := next64

/-- The stream after further words. Blocks that are passed over whole are not made. -/
def drop (s : KeyStream) (count : Nat) : KeyStream :=
  if count ≤ s.pending.length then { s with pending := s.pending.drop count }
  else
    let past := count - s.pending.length - 1
    let number := s.number + UInt64.ofNat (past / 16)
    { s with pending := (block s.key number).toList.drop (past % 16 + 1), number := number + 1 }

theorem next32_snd_drop (s : KeyStream) (count : Nat) :
    (s.drop count).next32.2 = s.drop (count + 1) := by
  obtain ⟨key, pending, number⟩ := s
  simp only [drop]
  by_cases h : count + 1 ≤ pending.length
  · rw [if_pos (by omega), if_pos h, List.drop_eq_getElem_cons (by omega)]
    rfl
  · by_cases h' : count ≤ pending.length
    · rw [if_pos h', if_neg h, List.drop_eq_nil_of_le (by omega)]
      have : count + 1 - pending.length - 1 = 0 := by omega
      simp [next32, this]
    · rw [if_neg h', if_neg h]
      have hstep : count + 1 - pending.length - 1 = (count - pending.length - 1) + 1 := by omega
      rw [hstep]
      generalize count - pending.length - 1 = past
      by_cases hlast : past % 16 = 15
      · have hdiv : (past + 1) / 16 = past / 16 + 1 := by omega
        have hmod : (past + 1) % 16 = 0 := by omega
        have hnil : (block key (number + UInt64.ofNat (past / 16))).toList.drop (past % 16 + 1) =
            [] := List.drop_eq_nil_of_le (by simp [hlast])
        simp only [hnil, hdiv, hmod]
        simp [next32, UInt64.ofNat_add, UInt64.add_assoc]
      · have hdiv : (past + 1) / 16 = past / 16 := by omega
        have hmod : (past + 1) % 16 = past % 16 + 1 := by omega
        simp only [hdiv, hmod]
        rw [List.drop_eq_getElem_cons (by simp; omega)]
        rfl

/-- Dropping words is taking them one after the other. -/
theorem drop_eq_repeat (s : KeyStream) (count : Nat) :
    s.drop count = Nat.repeat (fun s => s.next32.2) count s := by
  induction count with
  | zero => simp [drop, Nat.repeat]
  | succ count ih => rw [← next32_snd_drop, ih]; rfl

/-- One step of the congruential generator that stretches a seed. -/
def stretch (state : UInt64) : UInt64 := state * 6364136223846793005 + 11634580027462260723

/-- The word that a state of that generator gives: its high bits folded and turned. -/
def stretched (state : UInt64) : UInt32 :=
  let folded := (((state >>> 18) ^^^ state) >>> 27).toUInt32
  rotateRight folded (state >>> 59).toUInt32

/-- The key made of eight successive words of the generator. -/
def keyOfSeed (seed : UInt64) : Vector UInt32 8 :=
  Vector.ofFn fun i => stretched (Nat.repeat stretch (i.val + 1) seed)

/-- The beginning of the stream of a seed. -/
def ofSeed (seed : UInt64) : KeyStream := ofKey (keyOfSeed seed)

/-- The stream from which every run draws. -/
def ofRun : KeyStream := ofSeed 0

end KeyStream

end OverloadSuite
