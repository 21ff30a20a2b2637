import FramePool.Bench.Basic
import FramePool.Random.Source

/-! The time of one scan of resident frames that are all in the oldest generation. -/

namespace FramePool

structure ScanBench (ρ : Type) where
  resident : Nat
  generations : Nat
  budget : Nat
  accessedPercent : UInt8
  source : ρ
  journal : Array Event

namespace ScanBench

variable {ρ : Type} [RandomSource ρ]

def create (resident generations budget : Nat) (accessedPercent : UInt8) (source : ρ) :
    Except Fault (ScanBench ρ) :=
  if 100 < accessedPercent then .error .percentTooLarge
  else .ok ⟨resident, generations, budget, accessedPercent, source, #[]⟩

def ageTimes : Nat → Lru → Array Event → Except Fault (Lru × Array Event)
  | 0, l, journal => .ok (l, journal)
  | n + 1, l, journal => do
      let l ← l.age
      let sizes := l.sizes
      ageTimes n l (journal.push (.aged sizes))

def touchTimes (resident : Nat) : Nat → Lru → ρ → Except Fault (Lru × ρ)
  | 0, l, source => .ok (l, source)
  | n + 1, l, source =>
      let (r, source) := RandomSource.next source
      if resident = 0 then .error .remainderByZero
      else touchTimes resident n (l.touch (r.toNat % resident)) source

def prepare (b : ScanBench ρ) : Except Fault (Lru × ScanBench ρ) := do
  let defaults : Config := {}
  let l ← Lru.create b.generations defaults.trackerWords.toNat
  let l ← (List.range b.resident).foldlM Lru.insert l
  let (l, journal) ← ageTimes (b.generations - 1) l b.journal
  let accessed := (percentShare b.resident.toUInt64 b.accessedPercent).toNat
  let (l, source) ← touchTimes b.resident accessed l b.source
  return (l, { b with journal, source })

def execute (b : ScanBench ρ) (timer : Timer) : Except Fault (UInt32 × ScanBench ρ × Timer) := do
  let (l, b) ← b.prepare
  let (s, l) ← l.scan b.budget
  let (reading, timer) := timer.stop
  if s.scanned ≠ min b.budget b.resident then throw (.unequal s.scanned (min b.budget b.resident))
  return (reading, { b with journal := b.journal ++ s.events l.sizes }, timer)

instance : Benchmark (ScanBench ρ) where
  name _ := "reclaim_pass"
  options b := JsonText.object [
    ("resident_frames", JsonText.number b.resident),
    ("num_generations", JsonText.number b.generations),
    ("budget", JsonText.number b.budget),
    ("accessed_percent", JsonText.number b.accessedPercent.toNat)]
  execute := execute
  finish b := b.journal

end ScanBench

end FramePool
