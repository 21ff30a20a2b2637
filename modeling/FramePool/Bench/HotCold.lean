import FramePool.Bench.Basic
import FramePool.Random.Source

/-! A mixed load: a small hot set is used most of the time, and the rest of the time a cold frame is
allocated and used once. Hot frames that were reclaimed are replaced. -/

namespace FramePool

structure HotCold (σ ρ : Type) where
  pool : Pool σ
  capacity : Nat
  hot : Array FrameId
  cold : Queue FrameId
  iterations : Nat
  source : ρ

namespace HotCold

def hotPercent : Nat := 70
def proactiveInterval : Nat := 64
def generations : UInt64 := 4

variable {σ ρ : Type} [Pacer σ] [RandomSource ρ]

def create (capacity : UInt64) (hotFrames iterations : Nat) (pacer : σ) (source : ρ) :
    Except Fault (HotCold σ ρ) := do
  if hotFrames = 0 ∨ capacity.toNat ≤ hotFrames then throw .hotSetSize
  let p ← Benchmark.quietPool capacity generations pacer
  let (hot, p) ← p.collect hotFrames #[]
  return ⟨p, capacity.toNat, hot, Queue.empty, iterations, source⟩

def touchHot (b : HotCold σ ρ) : Except Fault (HotCold σ ρ) := do
  let (r, source) := RandomSource.next b.source
  if b.hot.isEmpty then throw .remainderByZero
  let index := r.toNat % b.hot.size
  let some id := b.hot[index]? | throw (.outOfRange b.hot.size index)
  let pool := b.pool.access id
  if pool.isResident id then return { b with pool, source }
  match ← pool.allocate with
  | (some new, pool) => return { b with pool, source, hot := b.hot.modify index fun _ => new }
  | (none, pool) => return { b with pool, source }

/-- Lets go of the oldest cold frames, reclaimed or not, until `hot` hot ones and they fit into the
pool. With no cold frame left there is nothing to let go. -/
def letGo (capacity hot : Nat) : Nat → Queue FrameId → Pool σ →
    Except Fault (Queue FrameId × Pool σ)
  | 0, cold, p => if capacity < hot + cold.size then .error .endless else .ok (cold, p)
  | n + 1, cold, p => do
      if capacity < hot + cold.size then
        match cold.pop? with
        | some (id, cold) => letGo capacity hot n cold (← p.release id)
        | none => throw .endless
      else return (cold, p)

def addCold (b : HotCold σ ρ) : Except Fault (HotCold σ ρ) := do
  match ← b.pool.allocate with
  | (some id, pool) => return { b with pool := pool.access id, cold := b.cold.push id }
  | (none, pool) => return { b with pool }

def touchCold (b : HotCold σ ρ) : Except Fault (HotCold σ ρ) := do
  let b ← b.addCold
  let (cold, pool) ← letGo b.capacity b.hot.size b.cold.size b.cold b.pool
  return { b with cold, pool }

def round (b : HotCold σ ρ) (i : Nat) : Except Fault (HotCold σ ρ) := do
  let (r, source) := RandomSource.next b.source
  let b := { b with source }
  let b ← if r.toNat % 100 < hotPercent then b.touchHot else b.touchCold
  if i % proactiveInterval = 0 then
    let (_, pool) ← b.pool.proactive
    return { b with pool }
  else return b

def execute (b : HotCold σ ρ) (timer : Timer) : Except Fault (UInt32 × HotCold σ ρ × Timer) := do
  let b ← (List.range b.iterations).foldlM round b
  let (reading, timer) := timer.stop
  return (reading, b, timer)

instance [PacerLabel σ] : Benchmark (HotCold σ ρ) where
  name _ := "hot_cold_workload"
  options b := JsonText.object [
    ("allocator", Benchmark.poolOptions σ b.capacity generations.toNat),
    ("hot_frames", JsonText.number b.hot.size),
    ("iterations", JsonText.number b.iterations),
    ("hot_access_percent", JsonText.number hotPercent)]
  execute := execute
  finish b := b.pool.close

end HotCold

end FramePool
