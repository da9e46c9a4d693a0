/-!
Sources of random words. Whoever draws inputs only sees this interface, so a run can be replayed
from any state of any source.
-/
namespace OverloadSuite

/-- A state from which words of 32 and of 64 bits can be taken. -/
class WordSource (σ : Type) where
  /-- The next word of 32 bits and the state after it. -/
  next32 : σ → UInt32 × σ
  /-- The next word of 64 bits and the state after it. -/
  next64 : σ → UInt64 × σ

end OverloadSuite
