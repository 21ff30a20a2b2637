import FramePool.Bench.Basic
import FramePool.Random.Source

/-! The time of a number of accesses to random resident frames. -/

namespace FramePool

structure TouchBench (ρ : Type) where
  pool : Pool PidLoop
  frames : Array FrameId
  source : ρ
  generations : UInt64
  iterations : Nat

namespace TouchBench

variable {ρ : Type} [RandomSource ρ]

def create (capacity generations : UInt64) (iterations : Nat) (source : ρ) :
    Except Fault (TouchBench ρ) := do
  let p ← Benchmark.quietPool capacity generations { gains := {} }
  let (frames, p) ← p.collect capacity.toNat #[]
  return ⟨p, frames, source, generations, iterations⟩

def draw (frames : Array FrameId) : Nat → ρ → Array FrameId → Except Fault (Array FrameId × ρ)
  | 0, source, ids => .ok (ids, source)
  | n + 1, source, ids =>
      let (r, source) := RandomSource.next source
      if frames.isEmpty then .error .remainderByZero
      else
        let index := r.toNat % frames.size
        match frames[index]? with
        | some id => draw frames n source (ids.push id)
        | none => .error (.outOfRange frames.size index)

def execute (b : TouchBench ρ) (timer : Timer) : Except Fault (UInt32 × TouchBench ρ × Timer) := do
  reserve b.iterations wordBytes
  let (targets, source) ← draw b.frames b.iterations b.source #[]
  let b := { b with source, pool := targets.foldl Pool.access b.pool }
  let (reading, timer) := timer.stop
  return (reading, b, timer)

instance : Benchmark (TouchBench ρ) where
  name _ := "access"
  options b := JsonText.object [
    ("allocator", Benchmark.poolOptions PidLoop b.frames.size b.generations.toNat),
    ("iterations", JsonText.number b.iterations)]
  execute := execute
  finish b := b.pool.close

end TouchBench

end FramePool
