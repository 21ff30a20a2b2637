import FramePool.Storage

/-! Access bits. Frame `id` has bit `id % 64` of word `id / 64`, counted modulo the number of words,
so frames may share a bit. -/

namespace FramePool

structure Bitmap where
  words : Array (BitVec 64)
deriving DecidableEq

namespace Bitmap

def blank (words : Nat) : Bitmap := ⟨Array.replicate words 0⟩

def create (words : Nat) : Except Fault Bitmap := do
  if !isPowerOfTwo words then throw (.trackerSize words)
  reserve words wordBytes
  return blank words

def size (b : Bitmap) : Nat := b.words.size

def wordOf (b : Bitmap) (id : FrameId) : Nat := id / 64 % b.size

def mask (id : FrameId) : BitVec 64 := BitVec.twoPow 64 (id % 64)

def marked (b : Bitmap) (id : FrameId) : Bool :=
  match b.words[b.wordOf id]? with
  | some word => word.getLsbD (id % 64)
  | none => false

def mark (b : Bitmap) (id : FrameId) : Bitmap :=
  let word := b.wordOf id
  ⟨b.words.modify word (· ||| mask id)⟩

def unmark (b : Bitmap) (id : FrameId) : Bitmap :=
  let word := b.wordOf id
  ⟨b.words.modify word (· &&& ~~~ mask id)⟩

def takeMark (b : Bitmap) (id : FrameId) : Bool × Bitmap :=
  let marked := b.marked id
  (marked, b.unmark id)

def wipe (b : Bitmap) : Bitmap := ⟨b.words.map fun _ => 0⟩

end Bitmap

end FramePool
