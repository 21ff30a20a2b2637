import FramePool.Arena.Cursor
import FramePool.Bitmap

/-! One cohort of resident frames, the newest at the head, with the access bits of its epoch. -/

namespace FramePool

structure Generation where
  index : Nat
  frames : Arena
  accessed : Bitmap
deriving DecidableEq

namespace Generation

/-- One word for the index, eight for the list and three for the bitmap. -/
def bytes : Nat := wordBytes * (1 + 8 + 3)

def create (index words : Nat) : Except Fault Generation := do
  let accessed ← Bitmap.create words
  return ⟨index, Arena.empty, accessed⟩

def size (g : Generation) : Nat := g.frames.size

def pushFront (g : Generation) (id : FrameId) : Generation :=
  { g with frames := g.frames.pushFront id }

def insert (g : Generation) (id : FrameId) : Except Fault (Position × Generation) := do
  let p ← g.frames.room
  return (p, g.pushFront id)

def live (g : Generation) (p : Position) : Except Fault Node :=
  match g.frames.live? p with
  | some node => .ok node
  | none => .error (.stalePosition p g.index)

def unlink (g : Generation) (slot : Nat) (node : Node) : Generation :=
  { g with frames := g.frames.unlink slot node }

def erase (g : Generation) (p : Position) : Except Fault (FrameId × Generation) := do
  let node ← g.live p
  return (node.id, g.unlink p.slot node)

def mark (g : Generation) (id : FrameId) : Generation := { g with accessed := g.accessed.mark id }

def unmark (g : Generation) (id : FrameId) : Generation :=
  { g with accessed := g.accessed.unmark id }

def wipe (g : Generation) : Generation := { g with accessed := g.accessed.wipe }

end Generation

end FramePool
