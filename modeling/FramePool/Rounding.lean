import FramePool.Fault

/-! Shares of 64-bit quantities, rounded down or up. -/

namespace FramePool

def percentShare (value : UInt64) (percent : UInt8) : UInt64 :=
  (value.toNat * percent.toNat / 100).toUInt64

def divUp (x y : UInt64) : Except Fault UInt64 :=
  if UInt64.size ≤ x.toNat + y.toNat then .error .addOverflow
  else if x.toNat + y.toNat = 0 then .error .subtractOverflow
  else if y = 0 then .error .divideByZero
  else .ok ((x + y - 1) / y)

end FramePool
