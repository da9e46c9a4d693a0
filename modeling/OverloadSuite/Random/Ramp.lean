import OverloadSuite.Random.WordSource

/-!
A source whose words rise by a fixed step: the plainest one with which to follow what a draw takes.
-/
namespace OverloadSuite

/-- The next word of 64 bits, and how much the one after it is larger, modulo 2^64. -/
structure Ramp where
  value : UInt64
  step : UInt64
deriving DecidableEq, Repr

namespace Ramp

/-- The next word of 64 bits. -/
def next64 (r : Ramp) : UInt64 × Ramp := (r.value, { r with value := r.value + r.step })

/-- The low half of the next word of 64 bits. -/
def next32 (r : Ramp) : UInt32 × Ramp := (r.value.toUInt32, r.next64.2)

/-- The source after further words. -/
def drop (r : Ramp) (count : Nat) : Ramp :=
  { r with value := r.value + UInt64.ofNat count * r.step }

theorem next32_snd_drop (r : Ramp) (count : Nat) :
    (r.drop count).next32.2 = r.drop (count + 1) := by
  simp [drop, next32, next64, UInt64.ofNat_add, UInt64.add_mul, UInt64.add_assoc]

instance : WordSource Ramp where
  next32 := next32
  next64 := next64

end Ramp

end OverloadSuite
