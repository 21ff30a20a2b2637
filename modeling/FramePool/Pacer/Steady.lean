import FramePool.Pacer.Basic

/-! Pacers that always recommend the same number of frames. -/

namespace FramePool

structure Steady where
  frames : Nat

namespace Steady

def ofNat (frames : Nat) : Steady := ⟨max 1 frames⟩

instance : Pacer Steady where
  report s _ := s
  pace s := s.frames

end Steady

end FramePool
