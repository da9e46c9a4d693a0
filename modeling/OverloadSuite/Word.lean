/-!
Turning words of 32 bits, as ciphers and digests do.
-/
namespace OverloadSuite

/-- A word turned left by `n` bits, for `n` from 1 to 31. -/
def rotateLeft (w n : UInt32) : UInt32 := (w <<< n) ||| (w >>> (32 - n))

/-- A word turned right by `n` bits, for `n` from 0 to 31. -/
def rotateRight (w n : UInt32) : UInt32 := (w >>> n) ||| (w <<< ((32 - n) % 32))

end OverloadSuite
