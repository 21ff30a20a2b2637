import FramePool.Lru.Basic

/-! Aging: every frame moves one generation older and a new epoch of accesses begins. -/

namespace FramePool

namespace Lru

def moveOlder (index : Nat) (l : Lru) (id : FrameId) : Except Fault Lru := do
  match l.entry? id with
  | none => throw (.untracked id)
  | some e =>
      let l ← l.unlink index e.position
      l.place id (index + 1)

/-- Empties a generation into the next older one. The tail goes first, so the order is kept. -/
def shift (l : Lru) (index : Nat) : Except Fault Lru := do
  let moving := (← l.generation index).frames
  let l ← (moving.lastIds moving.size).foldlM (moveOlder index) l
  return l.modifyGeneration index Generation.wipe

def shiftBelow : Nat → Lru → Except Fault Lru
  | 0, l => .ok l
  | n + 1, l => do shiftBelow n (← l.shift n)

def age (l : Lru) : Except Fault Lru := do
  let oldest := l.oldest
  let l ← shiftBelow oldest l
  let l := l.modifyGeneration oldest Generation.wipe
  let l := { l with counters := { l.counters with agings := l.counters.agings + 1 } }
  l.checkSizes
  return l

end Lru

end FramePool
