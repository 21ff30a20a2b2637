import FramePool.Queue
import FramePool.Storage
import Std.Data.ExtTreeMap

/-! The frames evicted last. Every eviction has a number, and a queue entry counts only while the
frame's latest eviction has the entry's number. -/

namespace FramePool

structure GhostList where
  capacity : Nat
  evictions : Nat
  order : Queue (FrameId × Nat)
  latest : Std.ExtTreeMap FrameId Nat

namespace GhostList

def entryBytes : Nat := 2 * wordBytes

def empty (capacity : Nat) : GhostList := ⟨capacity, 0, Queue.empty, ∅⟩

def create (capacity : Nat) : Except Fault GhostList := do
  if capacity = 0 then throw .noWindow
  -- The table of `latest` has a limit of its own, above `7 * 2 ^ 55` frames. It is left out here: the
  -- queue of so many frames takes more than `2 ^ 61` bytes, which no memory holds.
  reserve capacity entryBytes
  return empty capacity

def size (g : GhostList) : Nat := g.latest.size

def contains (g : GhostList) (id : FrameId) : Bool := g.latest.contains id

def trim (capacity : Nat) : Nat → Queue (FrameId × Nat) → Std.ExtTreeMap FrameId Nat →
    Queue (FrameId × Nat) × Std.ExtTreeMap FrameId Nat
  | 0, order, latest => (order, latest)
  | n + 1, order, latest =>
      if latest.size ≤ capacity then (order, latest)
      else match order.pop? with
        | none => (order, latest)
        | some ((id, number), order) =>
            if latest[id]? = some number then trim capacity n order (latest.erase id)
            else trim capacity n order latest

def compact (capacity : Nat) (order : Queue (FrameId × Nat)) (latest : Std.ExtTreeMap FrameId Nat) :
    Queue (FrameId × Nat) :=
  if 2 * capacity < order.size then order.filter fun (id, number) => latest[id]? == some number
  else order

def record (g : GhostList) (id : FrameId) : GhostList :=
  let number := g.evictions + 1
  let order := g.order.push (id, number)
  let (order, latest) := trim g.capacity order.size order (g.latest.insert id number)
  { g with evictions := number, order := compact g.capacity order latest, latest }

def forget (g : GhostList) (id : FrameId) : Bool × GhostList :=
  let known := g.contains id
  (known, { g with latest := g.latest.erase id })

end GhostList

end FramePool
