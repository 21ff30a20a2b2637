import FramePool.Pool.Frames
import FramePool.Random.Source

/-! A load of short-lived frames around a small hot set that is used most of the time. -/

namespace FramePool

structure Churn (σ ρ : Type) where
  pool : Pool σ
  hot : Array FrameId
  source : ρ

namespace Churn

def hotFrames : Nat := 128
def operations : Nat := 20000

def idLimit : Nat := 4096

variable {σ ρ : Type} [Pacer σ] [RandomSource ρ]

def useHot (c : Churn σ ρ) : Except Fault (Churn σ ρ) := do
  let (r, source) := RandomSource.next c.source
  let index := r.toNat % c.hot.size
  let some id := c.hot[index]? | throw (.outOfRange c.hot.size index)
  let pool := c.pool.access id
  if pool.isResident id then return { c with pool, source }
  match ← pool.allocate with
  | (some new, pool) => return { pool, source, hot := c.hot.modify index fun _ => new }
  | (none, pool) => return { c with pool, source }

def useNew (c : Churn σ ρ) : Except Fault (Churn σ ρ) := do
  match ← c.pool.allocate with
  | (some id, pool) => return { c with pool := pool.access id }
  | (none, pool) => return { c with pool }

def freeAny (c : Churn σ ρ) : Except Fault (Churn σ ρ) := do
  let (r, source) := RandomSource.next c.source
  return { c with source, pool := ← c.pool.release (r.toNat % idLimit) }

def step (c : Churn σ ρ) : Except Fault (Churn σ ρ) :=
  let (r, source) := RandomSource.next c.source
  let c := { c with source }
  let kind := r % 10
  if kind < 7 ∧ !c.hot.isEmpty then c.useHot
  else if kind = 7 ∨ kind = 8 then c.useNew
  else c.freeAny

def steps : Nat → Churn σ ρ → Except Fault (Churn σ ρ)
  | 0, c => .ok c
  | n + 1, c => do steps n (← c.step)

def run (p : Pool σ) (source : ρ) : Except Fault (Pool σ) := do
  let (hot, p) ← p.collect hotFrames #[]
  let c ← steps operations ⟨p, hot, source⟩
  c.hot.foldlM Pool.release c.pool

end Churn

end FramePool
