import FramePool.Lru.Aging

/-! Scans of the oldest generation: frames that were accessed get a second chance one generation
younger, the others are evicted. -/

namespace FramePool

structure Scan where
  evicted : Array FrameId := #[]
  promoted : Nat := 0
  scanned : Nat := 0
  aged : Bool := false

def Counters.add (c : Counters) (s : Scan) : Counters :=
  { c with
    scanned := c.scanned + s.scanned
    evicted := c.evicted + s.evicted.size
    promoted := c.promoted + s.promoted }

namespace Lru

def promote (l : Lru) (e : Entry) : Except Fault Lru := do
  if e.generation = 0 then return l
  let l ← l.unlink e.generation e.position
  let l ← l.place e.id (e.generation - 1)
  l.checkFrame e.id
  return l

def examine (oldest : Nat) : Lru × Scan → FrameId → Except Fault (Lru × Scan)
  | (l, s), id => do
      let some e := l.entry? id | throw (.untracked id)
      if e.generation ≠ oldest then throw (.unequal e.generation oldest)
      let s := { s with scanned := s.scanned + 1 }
      if (← l.generation oldest).accessed.marked id then
        let l ← (l.modifyGeneration oldest (·.unmark id)).promote e
        return (l, { s with promoted := s.promoted + 1 })
      else
        let l ← l.unlink oldest e.position
        return (l.drop id, { s with evicted := s.evicted.push id })

def count (l : Lru) (s : Scan) : Lru := { l with counters := l.counters.add s }

def sweep (l : Lru) (budget : Nat) : Except Fault (Scan × Lru) := do
  let oldest := l.oldest
  let frames := (← l.generation oldest).frames
  let (l, found) ← (frames.lastIds budget).foldlM (examine oldest) (l, {})
  return (found, l.count found)

def refill (l : Lru) (budget : Nat) : Except Fault (Bool × Lru) := do
  if (← l.generation l.oldest).size < budget / 4 then return (true, ← l.age)
  else return (false, l)

def scan (l : Lru) (budget : Nat) : Except Fault (Scan × Lru) := do
  if (← l.generation l.oldest).frames.isEmpty then return ({ aged := true }, ← l.age)
  let (found, l) ← l.sweep budget
  let (aged, l) ← l.refill budget
  l.checkSizes
  return ({ found with aged }, l)

end Lru

end FramePool
