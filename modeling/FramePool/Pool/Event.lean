import FramePool.Lru.Scan
import FramePool.Pacer.Basic

/-! What happens in a pool, and the line that each event has in the log. -/

namespace FramePool

inductive Trigger where
  | background
  | direct
  | requested
deriving DecidableEq

inductive Event where
  | opened (capacity generations low high : Nat) (background : Bool)
  | closed
  | allocated (id : FrameId)
  | exhausted (capacity : Nat)
  | refaulted (id : FrameId)
  | freed (id : FrameId)
  | freeIgnored (id : FrameId)
  | oldestEmpty
  | scanned (examined evicted promoted : Nat)
  | aged (sizes : List Nat)
  | reported (report : Report)
  | passed (trigger : Trigger) (budget : Nat) (evicted : List FrameId) (inUse : Nat)
deriving DecidableEq

def Trigger.label : Trigger → String
  | background => "Background"
  | direct => "Direct"
  | requested => "Requested"

def Scan.events (s : Scan) (sizes : List Nat) : List Event :=
  if s.aged ∧ s.scanned = 0 then [.oldestEmpty, .aged sizes]
  else .scanned s.scanned s.evicted.size s.promoted :: if s.aged then [.aged sizes] else []

def sizesText (sizes : List Nat) : String :=
  "[" ++ ", ".intercalate (sizes.map toString) ++ "]"

def Event.line? : Event → Option String
  | opened capacity generations low high background =>
      some (s!"INFO Frame allocator ready: capacity={capacity}, generations={generations}, "
        ++ s!"watermarks={low}/{high}, background reclaim={background}")
  | closed => some "INFO Frame allocator shut down"
  | allocated id => some s!"TRACE Allocated frame {id}"
  | exhausted capacity => some s!"WARN Out of frames: all {capacity} frames are in use"
  | refaulted id => some s!"TRACE Refault of frame {id}"
  | freed id => some s!"TRACE Freed frame {id}"
  | freeIgnored id => some s!"TRACE Ignoring free of non resident frame {id}"
  | oldestEmpty => some "DEBUG Oldest generation is empty, aging instead of scanning"
  | scanned examined evicted promoted =>
      some s!"DEBUG Scanned {examined} frame(s): evicted={evicted}, promoted={promoted}"
  | aged sizes => some s!"DEBUG Aged generations: {sizesText sizes}"
  | reported _ => none
  | passed trigger budget evicted inUse =>
      some (s!"DEBUG {trigger.label} reclaim pass (budget={budget}): "
        ++ s!"{evicted.length} frame(s) reclaimed, {inUse} in use")

end FramePool
