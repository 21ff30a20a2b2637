import FramePool.Pool.Basic

/-! Reclaim passes: one on request, a few when the free list is empty, and as many as it takes to
get back to the low watermark. -/

namespace FramePool

namespace Tally

def countPass (t : Tally) : Trigger → Tally
  | .background => { t with backgroundPasses := t.backgroundPasses + 1 }
  | .direct => { t with directPasses := t.directPasses + 1 }
  | .requested => { t with requestedPasses := t.requestedPasses + 1 }

end Tally

namespace Pool

variable {σ : Type}

def checkTotal (p : Pool σ) : Except Fault Unit :=
  let counted := p.free.size + p.lru.resident
  if counted = p.settings.capacity then .ok ()
  else .error (.framesLost counted p.settings.capacity)

variable [Pacer σ]

def report (p : Pool σ) (s : Scan) : Pool σ :=
  if s.scanned = 0 then p
  else
    let r : Report := ⟨p.tally.pendingRefaults, s.scanned, s.evicted.size⟩
    { p with
      pacer := Pacer.report p.pacer r
      tally.pendingRefaults := 0
      journal := p.journal.push (.reported r) }

def takeBack (p : Pool σ) (s : Scan) (lru : Lru) : Pool σ :=
  { p with
    lru
    free := s.evicted.foldl Queue.push p.free
    ghosts := s.evicted.foldl GhostList.record p.ghosts
    journal := p.journal ++ s.events lru.sizes }

def countPass (p : Pool σ) (budget : Nat) (trigger : Trigger) (s : Scan) : Pool σ :=
  let event := Event.passed trigger budget s.evicted.toList p.used
  { p with tally := p.tally.countPass trigger, journal := p.journal.push event }

def pass (p : Pool σ) (budget : Nat) (trigger : Trigger) : Except Fault (Scan × Pool σ) := do
  let (s, lru) ← p.lru.scan budget
  let p := ((p.takeBack s lru).report s).countPass budget trigger s
  p.checkTotal
  return (s, p)

def reclaim (p : Pool σ) (budget : Nat) : Except Fault (Scan × Pool σ) := p.pass budget .requested

def proactive (p : Pool σ) : Except Fault (Nat × Pool σ) := do
  let (s, p) ← p.reclaim (Pacer.pace p.pacer)
  return (s.evicted.size, p)

def directPasses (budget : Nat) : Nat → Pool σ → Except Fault (Nat × Pool σ)
  | 0, p => .ok (0, p)
  | n + 1, p => do
      let (s, p) ← p.pass budget .direct
      if 0 < s.evicted.size then return (s.evicted.size, p)
      else if p.lru.resident = 0 then return (0, p)
      else directPasses budget n p

def direct (p : Pool σ) (budget : Nat) : Except Fault (Nat × Pool σ) :=
  directPasses budget p.lru.generations.size p

def drainStep (p : Pool σ) : Except Fault (Pool σ) := do
  let (_, p) ← p.pass (p.used - p.settings.low) .background
  return p

def drainWithin : Nat → Pool σ → Except Fault (Pool σ)
  | 0, p => if p.settings.low < p.used then .error .endless else .ok p
  | n + 1, p => do
      if p.settings.low < p.used then drainWithin n (← p.drainStep) else return p

/-- Each pass evicts a frame, clears an access bit or makes a frame older. -/
def drainBound (p : Pool σ) : Nat :=
  let bits := p.lru.generations.foldl (fun n g => n + 64 * g.accessed.size) 0
  p.lru.generations.size * (p.lru.resident + bits)

def drain (p : Pool σ) : Except Fault (Pool σ) := drainWithin p.drainBound p

def settle (p : Pool σ) : Except Fault (Pool σ) :=
  if p.settings.background ∧ p.settings.high < p.used then p.drain else .ok p

end Pool

end FramePool
