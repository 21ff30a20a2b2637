import FramePool.Pool.Basic
import FramePool.Text.Json

/-! A snapshot of a pool. -/

namespace FramePool

structure Stats where
  capacity : Nat
  free : Nat
  resident : Nat
  high : Nat
  low : Nat
  sizes : List Nat
  counters : Counters
  refaults : Nat
  backgroundPasses : Nat
  directPasses : Nat
  requestedPasses : Nat
  failedAllocations : Nat
  pace : Nat
deriving DecidableEq

namespace Stats

def usage (s : Stats) : Float := share s.resident s.capacity

def json (s : Stats) : String :=
  let n := JsonText.number
  JsonText.object [
    ("capacity", n s.capacity),
    ("free_frames", n s.free),
    ("resident_frames", n s.resident),
    ("high_watermark", n s.high),
    ("low_watermark", n s.low),
    ("generation_sizes", JsonText.array (s.sizes.map n)),
    ("scanned", n s.counters.scanned),
    ("evicted", n s.counters.evicted),
    ("promoted", n s.counters.promoted),
    ("agings", n s.counters.agings),
    ("refaults", n s.refaults),
    ("background_passes", n s.backgroundPasses),
    ("direct_reclaim_passes", n s.directPasses),
    ("requested_passes", n s.requestedPasses),
    ("failed_allocations", n s.failedAllocations),
    ("scan_intensity", n s.pace)]

end Stats

def Pool.stats {σ : Type} [Pacer σ] (p : Pool σ) : Stats where
  capacity := p.settings.capacity
  free := p.free.size
  resident := p.lru.resident
  high := p.settings.high
  low := p.settings.low
  sizes := p.lru.sizes
  counters := p.lru.counters
  refaults := p.tally.refaults
  backgroundPasses := p.tally.backgroundPasses
  directPasses := p.tally.directPasses
  requestedPasses := p.tally.requestedPasses
  failedAllocations := p.tally.failedAllocations
  pace := Pacer.pace p.pacer

end FramePool
