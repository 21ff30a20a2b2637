/-! Pacers recommend how many frames the next requested pass scans. -/

namespace FramePool

structure Report where
  refaults : Nat
  scanned : Nat
  reclaimed : Nat
deriving DecidableEq

class Pacer (σ : Type) where
  report : σ → Report → σ
  pace : σ → Nat

end FramePool
