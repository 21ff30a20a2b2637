/-! Frames of a fixed pool, and the handles under which a list holds them. -/

namespace FramePool

abbrev FrameId := Nat

structure Position where
  slot : Nat
  stamp : UInt32
deriving DecidableEq, Inhabited

def Position.describe (p : Position) : String :=
  s!"FramePosition \x7b slot: {p.slot}, stamp: {p.stamp} \x7d"

end FramePool
