/-! Sources of 32-bit random numbers. -/

namespace FramePool

class RandomSource (ρ : Type) where
  next : ρ → UInt32 × ρ

def rotateLeft32 (x k : UInt32) : UInt32 := x <<< k ||| x >>> (32 - k)

def rotateLeft64 (x k : UInt64) : UInt64 := x <<< k ||| x >>> (64 - k)

def rotateRight32 (x k : UInt32) : UInt32 := x >>> k ||| x <<< (32 - k)

end FramePool
