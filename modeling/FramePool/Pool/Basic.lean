import FramePool.GhostList
import FramePool.Pool.Event
import FramePool.Pacer.PidLoop
import FramePool.Rounding

/-! A fixed pool of frames `0, …, capacity - 1`, each of them free or resident. The journal records
what happened; no operation reads it. -/

namespace FramePool

structure Settings where
  capacity : Nat
  high : Nat
  low : Nat
  directBudget : Nat
  background : Bool

structure Tally where
  refaults : Nat := 0
  pendingRefaults : Nat := 0
  backgroundPasses : Nat := 0
  directPasses : Nat := 0
  requestedPasses : Nat := 0
  failedAllocations : Nat := 0

structure Pool (σ : Type) where
  settings : Settings
  lru : Lru
  free : Queue FrameId
  pacer : σ
  ghosts : GhostList
  tally : Tally
  journal : Array Event

inductive OpenError where
  | refused (cause : ConfigError)
  | broken (fault : Fault)

def ConfigError.refusal (e : ConfigError) : String := s!"invalid configuration: {e.message}"

def share (part whole : Nat) : Float := Float.ofNat part / Float.ofNat whole

namespace Pool

variable {σ : Type}

def used (p : Pool σ) : Nat := p.settings.capacity - p.free.size

def isResident (p : Pool σ) (id : FrameId) : Bool := p.lru.contains id

def usage (p : Pool σ) : Float := share p.used p.settings.capacity

def watermarks (c : Config) : UInt64 × UInt64 :=
  (percentShare c.capacity c.highPercent, percentShare c.capacity c.lowPercent)

/-- The pool of a valid configuration. The default window of a quarter of the capacity is computed
in any case. -/
def build (c : Config) (pacer : σ) : Except Fault (Pool σ) := do
  let (high, low) := watermarks c
  let quarter ← divUp c.capacity 4
  let lru ← Lru.create c.generations.toNat c.trackerWords.toNat
  reserve c.capacity.toNat wordBytes
  let ghosts ← GhostList.create (c.refaultWindow.getD quarter).toNat
  let capacity := c.capacity.toNat
  return {
    settings := ⟨capacity, high.toNat, low.toNat, c.directBudget.toNat, c.background⟩
    lru
    free := Queue.ofList (List.range capacity)
    pacer
    ghosts
    tally := {}
    journal := #[.opened capacity c.generations.toNat low.toNat high.toNat c.background] }

def create (c : Config) (pacer : σ) : Except OpenError (Pool σ) :=
  match c.validate with
  | .error e => .error (.refused e)
  | .ok () => (build c pacer).mapError .broken

def ofSize (capacity generations : UInt64) : Except Fault (Pool PidLoop) :=
  let c : Config := { capacity, generations }
  match create c { gains := c.gains } with
  | .ok p => .ok p
  | .error (.refused e) => .error (.unusableConfig e)
  | .error (.broken f) => .error f

def close (p : Pool σ) : Array Event := p.journal.push .closed

end Pool

end FramePool
