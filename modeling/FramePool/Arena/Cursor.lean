import FramePool.Arena.Basic

/-! Reading a list from both ends at once. -/

namespace FramePool

structure Cursor where
  arena : Arena
  front : Option Nat
  back : Option Nat
  remaining : Nat

namespace Cursor

def start (a : Arena) : Cursor := ⟨a, a.head, a.tail, a.size⟩

def follow (c : Cursor) (link : Option Nat) : Except Fault Node :=
  match link.bind c.arena.node? with
  | some node => .ok node
  | none => .error (.outOfRange c.arena.slots.size (link.getD Arena.slotLimit))

def next (c : Cursor) : Except Fault (Option FrameId × Cursor) := do
  if c.remaining = 0 then return (none, c)
  let node ← c.follow c.front
  return (some node.id, { c with front := node.next, remaining := c.remaining - 1 })

def nextBack (c : Cursor) : Except Fault (Option FrameId × Cursor) := do
  if c.remaining = 0 then return (none, c)
  let node ← c.follow c.back
  return (some node.id, { c with back := node.prev, remaining := c.remaining - 1 })

def sizeHint (c : Cursor) : Nat × Option Nat := (c.remaining, some c.remaining)

end Cursor

end FramePool
