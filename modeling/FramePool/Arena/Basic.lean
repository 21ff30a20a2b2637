import FramePool.Fault

/-! Doubly linked lists of frames in numbered slots. A slot counts its releases in its stamp, so a
position names one stay of one frame. -/

namespace FramePool

structure Node where
  id : FrameId
  prev : Option Nat
  next : Option Nat
deriving DecidableEq

structure Slot where
  stamp : UInt32
  node : Option Node
deriving DecidableEq

namespace Slot

def linkPrev (link : Option Nat) (s : Slot) : Slot :=
  match s with
  | ⟨stamp, node⟩ => ⟨stamp, node.map fun ⟨id, _, next⟩ => ⟨id, link, next⟩⟩

def linkNext (link : Option Nat) (s : Slot) : Slot :=
  match s with
  | ⟨stamp, node⟩ => ⟨stamp, node.map fun ⟨id, prev, _⟩ => ⟨id, prev, link⟩⟩

def release (s : Slot) : Slot := ⟨s.stamp + 1, none⟩

end Slot

structure Arena where
  slots : Array Slot
  vacant : List Nat
  head : Option Nat
  tail : Option Nat
  size : Nat
deriving DecidableEq

namespace Arena

def empty : Arena := ⟨#[], [], none, none, 0⟩

def slotLimit : Nat := UInt32.size - 1

def isEmpty (a : Arena) : Bool := a.size == 0

def node? (a : Arena) (slot : Nat) : Option Node :=
  match a.slots[slot]? with
  | some s => s.node
  | none => none

def live? (a : Arena) (p : Position) : Option Node :=
  match a.slots[p.slot]? with
  | some s => if s.stamp = p.stamp then s.node else none
  | none => none

def contains (a : Arena) (p : Position) : Bool := (a.live? p).isSome

def get? (a : Arena) (p : Position) : Option FrameId := (a.live? p).map Node.id

def room (a : Arena) : Except Fault Position :=
  match a.vacant with
  | slot :: _ =>
      match a.slots[slot]? with
      | some ⟨stamp, none⟩ => .ok ⟨slot, stamp⟩
      | some ⟨_, some _⟩ => .error .slotTaken
      | none => .error (.outOfRange a.slots.size slot)
  | [] =>
      if a.slots.size < slotLimit then .ok ⟨a.slots.size, 0⟩
      else .error (.listFull a.slots.size)

def pushFront (a : Arena) (id : FrameId) : Arena :=
  match a with
  | ⟨slots, vacant, head, tail, size⟩ =>
      let node : Node := ⟨id, none, head⟩
      match vacant with
      | slot :: vacant =>
          let slots := slots.modify slot fun s => ⟨s.stamp, some node⟩
          match head with
          | some h => ⟨slots.modify h (·.linkPrev (some slot)), vacant, some slot, tail, size + 1⟩
          | none => ⟨slots, vacant, some slot, some slot, size + 1⟩
      | [] =>
          let slot := slots.size
          let slots := slots.push ⟨0, some node⟩
          match head with
          | some h => ⟨slots.modify h (·.linkPrev (some slot)), [], some slot, tail, size + 1⟩
          | none => ⟨slots, [], some slot, some slot, size + 1⟩

def insert (a : Arena) (id : FrameId) : Except Fault (Position × Arena) := do
  let p ← a.room
  return (p, a.pushFront id)

def unlink (a : Arena) (slot : Nat) (node : Node) : Arena :=
  match a, node with
  | ⟨slots, vacant, head, tail, size⟩, ⟨_, prev, next⟩ =>
      let slots := slots.modify slot Slot.release
      let slots := match prev with
        | some p => slots.modify p (·.linkNext next)
        | none => slots
      let slots := match next with
        | some n => slots.modify n (·.linkPrev prev)
        | none => slots
      let head := if prev.isNone then next else head
      let tail := if next.isNone then prev else tail
      ⟨slots, slot :: vacant, head, tail, size - 1⟩

def erase? (a : Arena) (p : Position) : Option (FrameId × Arena) :=
  match a.live? p with
  | some node => some (node.id, a.unlink p.slot node)
  | none => none

def walk (a : Arena) (step : Node → Option Nat) : Nat → Option Nat → Array FrameId → Array FrameId
  | 0, _, ids => ids
  | n + 1, link, ids =>
      match link.bind a.node? with
      | some node => walk a step n (step node) (ids.push node.id)
      | none => ids

def toList (a : Arena) : List FrameId := (a.walk Node.next a.size a.head #[]).toList

def lastIds (a : Arena) (n : Nat) : List FrameId :=
  (a.walk Node.prev (min n a.size) a.tail #[]).toList

end Arena

end FramePool
