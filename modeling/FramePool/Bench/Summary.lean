/-! Mean, least and greatest of a series of readings. -/

namespace FramePool

structure Summary where
  mean : UInt32
  least : UInt32
  greatest : UInt32
deriving DecidableEq

namespace Summary

def total (readings : List UInt32) : UInt64 :=
  readings.foldl (fun sum x => sum + x.toUInt64) 0

def ofReadings : List UInt32 → Summary
  | [] => ⟨0, 0, 0⟩
  | x :: xs =>
      ⟨(total (x :: xs) / (xs.length + 1).toUInt64).toUInt32, xs.foldl min x, xs.foldl max x⟩

end Summary

end FramePool
