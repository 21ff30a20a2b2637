import FramePool.Bench.Summary
import FramePool.Bench.Timer
import FramePool.Pacer.Steady
import FramePool.Pool.Frames
import FramePool.Text.Json

/-! Benchmarks: what they measure, and the report of a run. -/

namespace FramePool

class Benchmark (β : Type) where
  name : β → String
  options : β → String
  execute : β → Timer → Except Fault (UInt32 × β × Timer)
  finish : β → Array Event

structure RunOptions where
  repetitions : Nat
  buffer : Nat
  coldStart : Nat
  machine : String

structure Outcome where
  summary : Summary
  readings : Array UInt32
  lines : Array String
  journal : Array Event
  timer : Timer

class PacerLabel (σ : Type) where
  label : String

namespace Benchmark

instance : PacerLabel PidLoop := ⟨"mglru::modules::scan_control::pid::ScanIntensityController"⟩

instance : PacerLabel Steady := ⟨"mglru::modules::scan_control::fixed::FixedScanControlModule"⟩

def poolOptions (σ : Type) [PacerLabel σ] (capacity generations : Nat) : String :=
  JsonText.object [
    ("capacity", JsonText.number capacity),
    ("num_generations", JsonText.number generations),
    ("scan_control", JsonText.string (PacerLabel.label σ))]

def quietPool {σ : Type} (capacity generations : UInt64) (pacer : σ) : Except Fault (Pool σ) :=
  match Pool.create { capacity, generations, background := false } pacer with
  | .ok p => .ok p
  | .error (.refused e) => .error (.unusableBenchmark e)
  | .error (.broken f) => .error f

variable {β : Type} [Benchmark β]

def executions : Nat → β → Timer → Array UInt32 → Except Fault (Array UInt32 × β × Timer)
  | 0, b, timer, readings => .ok (readings, b, timer)
  | n + 1, b, timer, readings => do
      let (reading, b, timer) ← execute b timer
      executions n b timer (readings.push reading)

def information (b : β) (options : RunOptions) (timer : Timer) (readings : Array UInt32) : String :=
  JsonText.object [
    ("bench_name", JsonText.string (name b)),
    ("bench_options", Benchmark.options b),
    ("machine_name", JsonText.string options.machine),
    ("cold_start", JsonText.number options.coldStart),
    ("repetitions", JsonText.number options.repetitions),
    ("ticks_per_ms", JsonText.number timer.ticksPerMs.toNat),
    ("data", JsonText.array (readings.toList.map fun r => JsonText.number r.toNat))]

def conclusion (name : String) (s : Summary) : String :=
  s!"-> Finished {name}: mean={s.mean}, min={s.least}, max={s.greatest}"

def run (lead : String) (options : RunOptions) (b : β) (timer : Timer) : Except Fault Outcome := do
  if options.repetitions ≠ options.buffer then
    throw (.unequal options.repetitions options.buffer)
  let title := s!"{lead}Running Benchmark {JsonText.string (name b)} with options "
    ++ Benchmark.options b
  let (_, b, timer) ← executions options.coldStart b timer #[]
  let (readings, b, timer) ← executions options.buffer b timer #[]
  let summary := Summary.ofReadings readings.toList
  let lines := #[title, "[BENCH-INFO] " ++ information b options timer readings,
    conclusion (name b) summary, ""]
  return ⟨summary, readings, lines, finish b, timer⟩

end Benchmark

end FramePool
