import FramePool.Fault

/-! Blocks of memory. Every part that reserves its room beforehand asks here for it. -/

namespace FramePool

/-- Fewer than `2 ^ 63` bytes, in whole words of eight. -/
def blockLimit : Nat := UInt64.size / 2 - 8

def reserve (count itemBytes : Nat) : Except Fault Unit :=
  if count * itemBytes ≤ blockLimit then .ok () else .error .capacityOverflow

def wordBytes : Nat := 8

end FramePool
