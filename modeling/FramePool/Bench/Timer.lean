/-! Timers: each stop answers the next reading. -/

namespace FramePool

structure Timer where
  readings : Nat → UInt32
  ticksPerMs : UInt32
  stops : Nat := 0

def Timer.stop (t : Timer) : UInt32 × Timer := (t.readings t.stops, { t with stops := t.stops + 1 })

namespace Stopwatch

/-- Microseconds into the running second, for two clock readings in nanoseconds. -/
def reading (start stop : Nat) : UInt32 := ((stop - start) % 1000000000 / 1000).toUInt32

def timer (clock : Nat → Nat × Nat) : Timer where
  readings k := reading (clock k).1 (clock k).2
  ticksPerMs := 1000

end Stopwatch

end FramePool
