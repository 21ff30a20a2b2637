import FramePool.Bench.Allocation
import FramePool.Bench.HotCold
import FramePool.Bench.Scanning
import FramePool.Bench.Touching
import FramePool.Random.Xoshiro128

/-! Benchmarks by their settings, and the suite that runs them over a grid of settings. -/

namespace FramePool

inductive Job where
  | allocation (capacity generations : UInt64) (exhausted : Bool)
  | touching (capacity generations : UInt64) (iterations : Nat)
  | scanning (resident generations budget : Nat) (accessedPercent : UInt8)
  | hotCold (capacity : UInt64) (hotFrames iterations : Nat) (steady : Option Nat)

namespace Job

def touchSeed : List UInt8 :=
  [52, 187, 3, 201, 96, 17, 240, 85, 133, 9, 164, 78, 222, 41, 119, 250]

def scanSeed : List UInt8 :=
  [201, 14, 77, 163, 38, 250, 119, 6, 92, 145, 31, 188, 57, 230, 102, 69]

def loadSeed : List UInt8 :=
  [149, 228, 163, 172, 175, 184, 104, 86, 131, 185, 95, 73, 18, 58, 248, 111]

def run (lead : String) (options : RunOptions) (timer : Timer) : Job → Except Fault Outcome
  | allocation capacity generations exhausted => do
      let b ← AllocationBench.create capacity generations exhausted
      Benchmark.run lead options b timer
  | touching capacity generations iterations => do
      let b ← TouchBench.create capacity generations iterations (Xoshiro128.ofSeed touchSeed)
      Benchmark.run lead options b timer
  | scanning resident generations budget accessedPercent => do
      let b ← ScanBench.create resident generations budget accessedPercent
        (Xoshiro128.ofSeed scanSeed)
      Benchmark.run lead options b timer
  | hotCold capacity hotFrames iterations none => do
      let pacer : PidLoop := { gains := {} }
      let b ← HotCold.create capacity hotFrames iterations pacer (Xoshiro128.ofSeed loadSeed)
      Benchmark.run lead options b timer
  | hotCold capacity hotFrames iterations (some frames) => do
      let pacer := Steady.ofNat frames
      let b ← HotCold.create capacity hotFrames iterations pacer (Xoshiro128.ofSeed loadSeed)
      Benchmark.run lead options b timer

end Job

structure Suite where
  allocations : Bool := false
  touches : Bool := false
  scans : Bool := false
  loads : Bool := false

namespace Suite

def all : Suite := ⟨true, true, true, true⟩

def capacities : List Nat := [1024, 16384]
def generationCounts : List Nat := [1, 2, 4]
def budgets : List Nat := [8, 64, 512]
def percents : List UInt8 := [0, 50, 100]
def touchIterations : Nat := 1000
def loadIterations : Nat := 10000
def steadyFrames : Nat := 32

def jobsFor (s : Suite) (capacity generations : Nat) : List Job :=
  (if s.allocations then
    [.allocation capacity.toUInt64 generations.toUInt64 false,
      .allocation capacity.toUInt64 generations.toUInt64 true] else [])
  ++ (if s.touches then
    [.touching capacity.toUInt64 generations.toUInt64 touchIterations] else [])
  ++ (if s.scans then
    budgets.flatMap fun budget => percents.map fun percent =>
      .scanning capacity generations budget percent else [])

def loadsFor (s : Suite) (capacity : Nat) : List Job :=
  if s.loads then
    [none, some steadyFrames].map fun steady =>
      .hotCold capacity.toUInt64 (capacity / 4) loadIterations steady
  else []

def jobs (s : Suite) : List Job :=
  capacities.flatMap fun capacity =>
    generationCounts.flatMap (s.jobsFor capacity) ++ s.loadsFor capacity

structure Transcript where
  lines : Array String := #[]
  journal : Array Event := #[]
  timer : Timer

def runJobs (options : RunOptions) (total : Nat) :
    List Job → Nat → Transcript → Except Fault Transcript
  | [], _, t => .ok t
  | job :: jobs, done, t => do
      let o ← job.run s!"[{100 * done / total}%] " options t.timer
      runJobs options total jobs (done + 1) ⟨t.lines ++ o.lines, t.journal ++ o.journal, o.timer⟩

def run (s : Suite) (options : RunOptions) (timer : Timer) : Except Fault Transcript :=
  runJobs options s.jobs.length s.jobs 0 { timer }

end Suite

end FramePool
