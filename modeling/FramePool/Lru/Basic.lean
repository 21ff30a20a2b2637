import FramePool.Generation
import Std.Data.ExtTreeMap

/-! Resident frames in generations, generation 0 the youngest, and a table of their places. Every
change of a frame's place checks that generations and table agree. -/

namespace FramePool

structure Entry where
  id : FrameId
  generation : Nat
  position : Position
deriving DecidableEq

structure Counters where
  scanned : Nat := 0
  evicted : Nat := 0
  promoted : Nat := 0
  agings : Nat := 0
deriving DecidableEq

structure Lru where
  generations : Array Generation
  table : Std.ExtTreeMap FrameId Entry
  counters : Counters

namespace Lru

def create (generations words : Nat) : Except Fault Lru := do
  if generations = 0 then throw .noGenerations
  reserve generations Generation.bytes
  let cohorts ← (List.range generations).mapM fun index => Generation.create index words
  return ⟨cohorts.toArray, ∅, {}⟩

def oldest (l : Lru) : Nat := l.generations.size - 1

def entry? (l : Lru) (id : FrameId) : Option Entry := l.table[id]?

def contains (l : Lru) (id : FrameId) : Bool := l.table.contains id

def resident (l : Lru) : Nat := l.table.size

def sizes (l : Lru) : List Nat := l.generations.toList.map Generation.size

def generation (l : Lru) (index : Nat) : Except Fault Generation :=
  match l.generations[index]? with
  | some g => .ok g
  | none => .error (.outOfRange l.generations.size index)

def checkSizes (l : Lru) : Except Fault Unit :=
  let held := l.sizes.foldl (· + ·) 0
  if held = l.resident then .ok () else .error (.sizesDiffer held l.resident)

def checkEntry (l : Lru) (id : FrameId) : Except Fault Unit :=
  match l.entry? id with
  | none => .ok ()
  | some e =>
      if e.id = id then
        match l.generation e.generation with
        | .error f => .error f
        | .ok g =>
            let found := g.frames.get? e.position
            if found = some id then .ok () else .error (.misplaced id e.generation found)
      else .error (.unequal id e.id)

def checkFrame (l : Lru) (id : FrameId) : Except Fault Unit := do
  l.checkSizes
  l.checkEntry id

def modifyGeneration (l : Lru) (index : Nat) (f : Generation → Generation) : Lru :=
  { l with generations := l.generations.modify index f }

def place (l : Lru) (id : FrameId) (index : Nat) : Except Fault Lru := do
  let p ← (← l.generation index).frames.room
  let l := l.modifyGeneration index (·.pushFront id)
  return { l with table := l.table.insert id ⟨id, index, p⟩ }

def unlink (l : Lru) (index : Nat) (p : Position) : Except Fault Lru := do
  let node ← (← l.generation index).live p
  return l.modifyGeneration index (·.unlink p.slot node)

def drop (l : Lru) (id : FrameId) : Lru := { l with table := l.table.erase id }

def insert (l : Lru) (id : FrameId) : Except Fault Lru := do
  if l.contains id then throw (.alreadyResident id)
  let l ← l.place id 0
  l.checkFrame id
  return l

def touch (l : Lru) (id : FrameId) : Lru :=
  match l.entry? id with
  | some e => l.modifyGeneration e.generation (·.mark id)
  | none => l

def retire (l : Lru) (e : Entry) : Except Fault Lru := do
  if l.entry? e.id = some e then
    let l ← l.unlink e.generation e.position
    let l := l.drop e.id
    l.checkFrame e.id
    return l
  else return l

def remove (l : Lru) (id : FrameId) : Except Fault (Bool × Lru) := do
  match l.entry? id with
  | some e => return (true, ← l.retire e)
  | none => return (false, l)

end Lru

end FramePool
