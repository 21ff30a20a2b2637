import FramePool.Pool.Reclaim

/-! Handing out frames, using them and giving them back. -/

namespace FramePool

namespace Pool

variable {σ : Type}

def handOut (p : Pool σ) : Except Fault (Option FrameId × Pool σ) := do
  match p.free.pop? with
  | none =>
      return (none, { p with
        tally.failedAllocations := p.tally.failedAllocations + 1
        journal := p.journal.push (.exhausted p.settings.capacity) })
  | some (id, free) =>
      let lru ← p.lru.insert id
      return (some id, { p with
        lru, free
        ghosts := (p.ghosts.forget id).2
        journal := p.journal.push (.allocated id) })

def access (p : Pool σ) (id : FrameId) : Pool σ :=
  if p.lru.contains id then { p with lru := p.lru.touch id }
  else if p.ghosts.contains id then
    { p with
      ghosts := (p.ghosts.forget id).2
      tally.refaults := p.tally.refaults + 1
      tally.pendingRefaults := p.tally.pendingRefaults + 1
      journal := p.journal.push (.refaulted id) }
  else p

def release (p : Pool σ) (id : FrameId) : Except Fault (Pool σ) := do
  let (found, lru) ← p.lru.remove id
  if found then
    return { p with lru, free := p.free.push id, journal := p.journal.push (.freed id) }
  else return { p with lru, journal := p.journal.push (.freeIgnored id) }

variable [Pacer σ]

def allocate (p : Pool σ) : Except Fault (Option FrameId × Pool σ) := do
  if p.free.isEmpty then
    let (_, p) ← p.direct p.settings.directBudget
    p.handOut
  else p.handOut

def collect : Nat → Pool σ → Array FrameId → Except Fault (Array FrameId × Pool σ)
  | 0, p, ids => .ok (ids, p)
  | n + 1, p, ids => do
      match ← p.allocate with
      | (some id, p) => collect n p (ids.push id)
      | (none, p) => collect n p ids

def allocateSettled (p : Pool σ) : Except Fault (Option FrameId × Pool σ) := do
  let (id, p) ← p.allocate
  return (id, ← p.settle)

def allocateMany : Nat → Pool σ → Array (Option FrameId) →
    Except Fault (Array (Option FrameId) × Pool σ)
  | 0, p, ids => .ok (ids, p)
  | n + 1, p, ids => do
      let (id, p) ← p.allocateSettled
      allocateMany n p (ids.push id)

end Pool

end FramePool
