import FramePool.Random.Source

/-! The generator xoshiro256++: four 64-bit words, seeded from one word by a PCG sequence. -/

namespace FramePool

structure Xoshiro256 where
  a : UInt64
  b : UInt64
  c : UInt64
  d : UInt64

namespace Xoshiro256

def seedStep (s : UInt64) : UInt64 := s * 6364136223846793005 + 11634580027462260723

def seedWord (s : UInt64) : UInt32 :=
  rotateRight32 ((s >>> 18 ^^^ s) >>> 27).toUInt32 (s >>> 59).toUInt32

def seedPair (s : UInt64) : UInt64 × UInt64 :=
  let low := seedStep s
  let high := seedStep low
  ((seedWord low).toUInt64 ||| (seedWord high).toUInt64 <<< 32, high)

def ofSeed (seed : UInt64) : Xoshiro256 :=
  let (a, s) := seedPair seed
  let (b, s) := seedPair s
  let (c, s) := seedPair s
  let (d, _) := seedPair s
  ⟨a, b, c, d⟩

def next (r : Xoshiro256) : UInt32 × Xoshiro256 :=
  let ⟨a, b, c, d⟩ := r
  let c' := c ^^^ a
  let d' := d ^^^ b
  (((rotateLeft64 (a + d) 23 + a) >>> 32).toUInt32,
    ⟨a ^^^ d', b ^^^ c', c' ^^^ b <<< 17, rotateLeft64 d' 45⟩)

instance : RandomSource Xoshiro256 := ⟨next⟩

end Xoshiro256

end FramePool
