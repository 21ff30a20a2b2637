import FramePool.Bench.Basic

/-! The time of one allocation, from a pool with free frames or from a full one. -/

namespace FramePool

structure AllocationBench where
  pool : Pool PidLoop
  capacity : UInt64
  generations : UInt64
  exhausted : Bool

namespace AllocationBench

def fill : Nat → Pool PidLoop → Except Fault (Pool PidLoop)
  | 0, p => if p.used < p.settings.capacity then .error .endless else .ok p
  | n + 1, p => do
      if p.used < p.settings.capacity then
        let (_, p) ← p.allocate
        fill n p
      else return p

def create (capacity generations : UInt64) (exhausted : Bool) : Except Fault AllocationBench := do
  let p ← Benchmark.quietPool capacity generations { gains := {} }
  let p ← if exhausted then fill capacity.toNat p else pure p
  return ⟨p, capacity, generations, exhausted⟩

def execute (b : AllocationBench) (timer : Timer) :
    Except Fault (UInt32 × AllocationBench × Timer) := do
  let (id, pool) ← b.pool.allocate
  let (reading, timer) := timer.stop
  match id, b.exhausted with
  | some id, false => return (reading, { b with pool := ← pool.release id }, timer)
  | _, _ => return (reading, { b with pool }, timer)

instance : Benchmark AllocationBench where
  name b := if b.exhausted then "allocate_exhausted" else "allocate_free"
  options b := JsonText.object [
    ("allocator", Benchmark.poolOptions PidLoop b.capacity.toNat b.generations.toNat),
    ("exhausted", JsonText.bool b.exhausted)]
  execute := execute
  finish b := b.pool.close

end AllocationBench

end FramePool
