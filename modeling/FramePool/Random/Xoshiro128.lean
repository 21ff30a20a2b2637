import FramePool.Random.Source

/-! The generator xoshiro128**: four 32-bit words. -/

namespace FramePool

structure Xoshiro128 where
  a : UInt32
  b : UInt32
  c : UInt32
  d : UInt32

namespace Xoshiro128

def word (bytes : List UInt8) : UInt32 := bytes.foldr (fun b w => w <<< 8 ||| b.toUInt32) 0

def ofSeed (bytes : List UInt8) : Xoshiro128 :=
  let part (i : Nat) := word ((bytes.drop (4 * i)).take 4)
  ⟨part 0, part 1, part 2, part 3⟩

def next (r : Xoshiro128) : UInt32 × Xoshiro128 :=
  let ⟨a, b, c, d⟩ := r
  let c' := c ^^^ a
  let d' := d ^^^ b
  (rotateLeft32 (b * 5) 7 * 9,
    ⟨a ^^^ d', b ^^^ c', c' ^^^ b <<< 9, rotateLeft32 d' 11⟩)

instance : RandomSource Xoshiro128 := ⟨next⟩

end Xoshiro128

end FramePool
