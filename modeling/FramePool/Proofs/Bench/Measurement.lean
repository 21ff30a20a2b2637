import FramePool.Bench.Allocation
import FramePool.Bench.Touching
import FramePool.Proofs.Bench.Averages
import FramePool.Proofs.Bench.FullScan
import FramePool.Proofs.Bench.HotSet

/-! A run of a benchmark tells what its executions measured. Each execution stops the timer once, and the
cold starts come first. -/

namespace FramePool

namespace Timer

def upcoming (t : Timer) (n : Nat) : List UInt32 := (List.range n).map fun i => t.readings (t.stops + i)

def skip (t : Timer) (n : Nat) : Timer := { t with stops := t.stops + n }

variable (t : Timer) (n : Nat)

lemma upcoming_succ : t.upcoming (n + 1) = t.stop.1 :: t.stop.2.upcoming n := by
  simp [upcoming, stop, List.range_succ_eq_map, Nat.add_assoc, Nat.add_comm 1]

lemma skip_succ : t.skip (n + 1) = t.stop.2.skip n := by
  simp [skip, stop, Nat.add_assoc, Nat.add_comm 1]

end Timer

structure Outcome.Measured (o : Outcome) (options : RunOptions) (timer : Timer) : Prop where
  readings_eq : o.readings.toList = (List.range options.buffer).map fun i =>
    timer.readings (timer.stops + options.coldStart + i)
  timer_eq : o.timer = { timer with stops := timer.stops + options.coldStart + options.buffer }
  total_eq : (Summary.total o.readings.toList).toNat = (o.readings.toList.map UInt32.toNat).sum
  describes : 0 < options.buffer → o.summary.Describes (o.readings.toList.map UInt32.toNat)

namespace Benchmark

variable {β : Type} [Benchmark β] {P : β → Prop} {b : β}

def Measures (b : β) : Prop :=
  ∀ lead options timer, options.repetitions = options.buffer → options.buffer < UInt32.size →
    ∃ o, run lead options b timer = .ok o ∧ o.Measured options timer

def LacksRoom (b : β) : Prop :=
  ∀ lead options timer, options.repetitions = options.buffer → 0 < options.coldStart + options.buffer →
    run lead options b timer = .error .capacityOverflow

def StopsOnce (P : β → Prop) : Prop :=
  ∀ b timer, P b → ∃ b', execute b timer = .ok (timer.stop.1, b', timer.stop.2) ∧ P b'

namespace StopsOnce

lemma executions (h : StopsOnce P) (hb : P b) (n : Nat) (timer : Timer) (readings : Array UInt32) :
    ∃ b', Benchmark.executions n b timer readings =
      .ok (readings ++ (timer.upcoming n).toArray, b', timer.skip n) ∧ P b' := by
  induction n generalizing b timer readings with
  | zero => exact ⟨b, by simp [Benchmark.executions, Timer.upcoming, Timer.skip], hb⟩
  | succ n ih =>
    obtain ⟨b₁, he, h₁⟩ := h b timer hb
    obtain ⟨b', hr, h'⟩ := ih h₁ timer.stop.2 (readings.push timer.stop.1)
    refine ⟨b', ?_, h'⟩
    rw [timer.upcoming_succ, timer.skip_succ]
    simp [Benchmark.executions, he, hr]

lemma measures (h : StopsOnce P) (hb : P b) : Measures b := by
  intro lead options timer hrep hsize
  obtain ⟨b₁, hcold, h₁⟩ := h.executions hb options.coldStart timer #[]
  obtain ⟨b', hrun, _⟩ := h.executions h₁ options.buffer (timer.skip options.coldStart) #[]
  let readings := (timer.skip options.coldStart).upcoming options.buffer
  obtain ⟨o, ho, hreadings, htimer, hsummary⟩ : ∃ o, run lead options b timer = .ok o ∧
      o.readings.toList = readings ∧ o.timer = (timer.skip options.coldStart).skip options.buffer ∧
      o.summary = Summary.ofReadings readings := by
    simp [run, hrep, hcold, hrun, readings]
  have hlen : o.readings.toList.length = options.buffer := by simp [hreadings, readings, Timer.upcoming]
  have hlt : o.readings.toList.length < UInt32.size := hlen ▸ hsize
  refine ⟨o, ho, hreadings, htimer, Summary.toNat_total hlt, fun hpos => ?_⟩
  rw [hsummary, ← hreadings]
  apply Summary.ofReadings_describes hlt
  rw [← List.length_pos_iff, hlen]
  exact hpos

end StopsOnce

lemma lacksRoom_of_execute (h : ∀ timer, execute b timer = .error .capacityOverflow) : LacksRoom b := by
  intro lead options timer hrep hpos
  have hexec : ∀ n timer readings, executions (n + 1) b timer readings = .error .capacityOverflow := by
    intro n timer readings
    rw [executions, h, error_bind]
  cases hc : options.coldStart with
  | zero =>
    obtain ⟨n, hn⟩ := Nat.exists_eq_add_one_of_ne_zero (show options.buffer ≠ 0 by omega)
    simp [run, hrep, hc, hn, executions, h]
  | succ c => simp [run, hrep, hc, hexec]

variable {σ : Type} {pacer : σ} {capacity generations : UInt64} {p : Pool σ}

lemma quietPool_eq_ok (h : quietPool capacity generations pacer = .ok p)
    (hn : capacity.toNat < Arena.slotLimit) :
    p.Whole ∧ p.settings.capacity = capacity.toNat ∧ p.free.size = capacity.toNat ∧ 0 < capacity.toNat := by
  have hc : Pool.create { capacity, generations, background := false } pacer = .ok p := by
    rw [quietPool] at h
    split at h
    · rename_i hc
      rwa [← Except.ok.inj h]
    all_goals cases h
  obtain ⟨hw, hcap, hv⟩ := Pool.create_whole hc hn
  obtain ⟨_, _, rfl⟩ := Pool.create_eq_fresh_window hc
  exact ⟨hw, hcap, List.length_range, toNat_pos (Config.validate_eq_ok_iff.mp hv).1⟩

end Benchmark

open Benchmark

namespace AllocationBench

variable {b : AllocationBench} {p q : Pool PidLoop}

lemma whole_fill {n : Nat} (h : p.Whole) (hf : fill n p = .ok q) : q.Whole := by
  induction n generalizing p with
  | zero =>
    rw [fill] at hf
    split_ifs at hf
    obtain rfl := Except.ok.inj hf
    exact h
  | succ n ih =>
    obtain ⟨id, p₁, hp, h₁, _⟩ := h.allocate
    rw [fill, hp, ok_bind] at hf
    split_ifs at hf
    · exact ih h₁ hf
    · obtain rfl := Except.ok.inj hf
      exact h

lemma whole_create {capacity generations : UInt64} {exhausted : Bool}
    (hc : create capacity generations exhausted = .ok b) (hn : capacity.toNat < Arena.slotLimit) :
    b.pool.Whole := by
  obtain ⟨p, hp, hb⟩ := bind_eq_ok.mp hc
  have hw := (quietPool_eq_ok hp hn).1
  cases exhausted with
  | false =>
    obtain rfl := Except.ok.inj hb
    exact hw
  | true =>
    obtain ⟨q, hq, hb⟩ := bind_eq_ok.mp hb
    obtain rfl := Except.ok.inj hb
    exact whole_fill hw hq

lemma stopsOnce : StopsOnce fun b : AllocationBench => b.pool.Whole := by
  intro b timer h
  change ∃ b', b.execute timer = _ ∧ _
  obtain ⟨id, p, hp, hw, _⟩ := h.allocate
  rw [execute, hp, ok_bind]
  cases id with
  | none => exact ⟨_, rfl, hw⟩
  | some id =>
    cases he : b.exhausted with
    | true => exact ⟨_, rfl, hw⟩
    | false =>
      obtain ⟨q, hq, hw', _⟩ := hw.release id
      exact ⟨{ b with pool := q }, by simp [hq, he], hw'⟩

end AllocationBench

namespace TouchBench

variable {ρ : Type} [RandomSource ρ] {b : TouchBench ρ}

lemma draw_eq_ok {frames : Array FrameId} (hf : 0 < frames.size) (n : Nat) (source : ρ)
    (ids : Array FrameId) : ∃ ids' source', draw frames n source ids = .ok (ids', source') := by
  induction n generalizing source ids with
  | zero => exact ⟨ids, source, rfl⟩
  | succ n ih =>
    obtain ⟨⟨r, source'⟩, hr⟩ : ∃ drawn, RandomSource.next source = drawn := ⟨_, rfl⟩
    have hempty : frames.isEmpty = false := by simpa [← Array.size_eq_zero_iff] using hf.ne'
    obtain ⟨id, hid⟩ : ∃ id, frames[r.toNat % frames.size]? = some id :=
      ⟨_, Array.getElem?_eq_getElem (Nat.mod_lt _ hf)⟩
    simp only [draw, hr, hempty, Bool.false_eq_true, if_false, hid]
    exact ih source' _

omit [RandomSource ρ] in
lemma create_eq_ok {capacity generations : UInt64} {iterations : Nat} {source : ρ}
    (hc : create capacity generations iterations source = .ok b) (hn : capacity.toNat < Arena.slotLimit) :
    0 < b.frames.size ∧ b.iterations = iterations := by
  obtain ⟨p, hp, hb⟩ := bind_eq_ok.mp hc
  obtain ⟨⟨frames, q⟩, hq, hb⟩ := bind_eq_ok.mp hb
  obtain rfl := Except.ok.inj hb
  obtain ⟨hw, _, hfree, hpos⟩ := quietPool_eq_ok hp hn
  obtain ⟨all, q', hq', _, _, hsize, _⟩ := hw.collect hfree.ge #[] (by simp)
  obtain ⟨rfl, rfl⟩ := Prod.mk.inj (Except.ok.inj (hq.symm.trans hq'))
  refine ⟨?_, rfl⟩
  simpa [hsize] using hpos

lemma stopsOnce {iterations : Nat} (hroom : iterations * wordBytes ≤ blockLimit) :
    StopsOnce fun b : TouchBench ρ => 0 < b.frames.size ∧ b.iterations = iterations := by
  rintro b timer ⟨hf, rfl⟩
  change ∃ b', b.execute timer = _ ∧ _
  obtain ⟨targets, source, hd⟩ := draw_eq_ok hf b.iterations b.source #[]
  rw [execute, reserve_bind, if_pos hroom, hd, ok_bind]
  exact ⟨_, rfl, hf, rfl⟩

lemma execute_of_no_room (h : blockLimit < b.iterations * wordBytes) (timer : Timer) :
    b.execute timer = .error .capacityOverflow := by
  rw [execute, reserve_bind, if_neg (Nat.not_le.mpr h)]

end TouchBench

namespace ScanBench

variable {ρ : Type} [RandomSource ρ] {b : ScanBench ρ}

structure Sized (generations : Nat) (b : ScanBench ρ) : Prop where
  resident_lt : b.resident < Arena.slotLimit
  percent_le : b.accessedPercent.toNat ≤ 100
  generations_eq : b.generations = generations

omit [RandomSource ρ] in
lemma create_sized {resident generations budget : Nat} {accessedPercent : UInt8} {source : ρ}
    (hc : create resident generations budget accessedPercent source = .ok b)
    (hn : resident < Arena.slotLimit) : Sized generations b := by
  rw [create] at hc
  split_ifs at hc with hp
  obtain rfl := Except.ok.inj hc
  exact ⟨hn, Nat.le_of_not_lt (UInt8.lt_iff_toNat_lt.not.mp hp), rfl⟩

lemma stopsOnce {generations : Nat} (hg : 0 < generations)
    (hroom : generations * Generation.bytes ≤ blockLimit) : StopsOnce fun b : ScanBench ρ => Sized generations b := by
  rintro b timer ⟨hr, hp, rfl⟩
  change ∃ b', b.execute timer = _ ∧ _
  obtain ⟨l, journal, source, hl, h⟩ := prepare_lined hr hg hp hroom
  obtain ⟨s, l', hs, hscanned⟩ := h.consistent.scan_scanned b.budget
  have hlen : (l.ids l.oldest).length = b.resident := by
    simpa using congrArg List.length h.oldest_eq
  rw [hlen] at hscanned
  exact ⟨{ b with journal := journal ++ s.events l'.sizes, source }, by simp [execute, hl, hs, hscanned],
    hr, hp, rfl⟩

lemma execute_of_no_room (hg : 0 < b.generations) (h : blockLimit < b.generations * Generation.bytes)
    (timer : Timer) : b.execute timer = .error .capacityOverflow := by
  have hc := create_eq hg
  rw [if_neg (Nat.not_le.mpr h)] at hc
  simp only [execute, prepare, hc, error_bind]

end ScanBench

namespace HotCold

variable {σ ρ : Type} [Pacer σ] [RandomSource ρ] {b : HotCold σ ρ}

lemma stopsOnce [PacerLabel σ] {capacity hotFrames iterations : Nat} (hpos : 0 < hotFrames) :
    StopsOnce fun b : HotCold σ ρ => Kept capacity hotFrames iterations b := by
  intro b timer h
  change ∃ b', b.execute timer = _ ∧ _
  obtain ⟨_, b', hr, _, _, h'⟩ := h.rounds hpos (List.range b.iterations)
  exact ⟨b', by simp [execute, hr], h'⟩

omit [RandomSource ρ] in
lemma create_eq_ok {capacity : UInt64} {hotFrames iterations : Nat} {pacer : σ} {source : ρ}
    (hc : create capacity hotFrames iterations pacer source = .ok b)
    (hn : capacity.toNat < Arena.slotLimit) :
    0 < hotFrames ∧ Kept capacity.toNat hotFrames iterations b := by
  have hset : ¬(hotFrames = 0 ∨ capacity.toNat ≤ hotFrames) := by
    intro hbad
    simp [create, hbad] at hc
  have hpos : 0 < hotFrames := by omega
  have hlt : hotFrames < capacity.toNat := by omega
  obtain ⟨start, hs, hk⟩ := create_kept pacer source hpos hlt hn iterations
  obtain rfl := Except.ok.inj (hc.symm.trans hs)
  exact ⟨hpos, hk⟩

end HotCold

namespace Benchmark

theorem outcomes_describe_measured_readings {σ ρ : Type} [Pacer σ] [PacerLabel σ] [RandomSource ρ]
    (pacer : σ) (source : ρ) :
    (∀ capacity generations exhausted b, capacity.toNat < Arena.slotLimit →
      AllocationBench.create capacity generations exhausted = .ok b → Measures b) ∧
    (∀ capacity generations iterations b, capacity.toNat < Arena.slotLimit →
      TouchBench.create capacity generations iterations source = .ok b →
        (iterations * wordBytes ≤ blockLimit → Measures b) ∧
        (blockLimit < iterations * wordBytes → LacksRoom b)) ∧
    (∀ resident generations budget accessedPercent b, resident < Arena.slotLimit → 0 < generations →
      ScanBench.create resident generations budget accessedPercent source = .ok b →
        (generations * Generation.bytes ≤ blockLimit → Measures b) ∧
        (blockLimit < generations * Generation.bytes → LacksRoom b)) ∧
    ∀ capacity hotFrames iterations b, capacity.toNat < Arena.slotLimit →
      HotCold.create capacity hotFrames iterations pacer source = .ok b → Measures b := by
  refine ⟨fun capacity generations exhausted b hn hc => ?_, fun capacity generations iterations b hn hc => ?_,
    fun resident generations budget accessedPercent b hn hg hc => ?_,
    fun capacity hotFrames iterations b hn hc => ?_⟩
  · exact AllocationBench.stopsOnce.measures (AllocationBench.whole_create hc hn)
  · have h := TouchBench.create_eq_ok hc hn
    refine ⟨fun hroom => (TouchBench.stopsOnce hroom).measures h, fun hroom => ?_⟩
    exact lacksRoom_of_execute (TouchBench.execute_of_no_room (h.2.symm ▸ hroom))
  · have h := ScanBench.create_sized hc hn
    refine ⟨fun hroom => (ScanBench.stopsOnce hg hroom).measures h, fun hroom => ?_⟩
    rw [← h.generations_eq] at hg hroom
    exact lacksRoom_of_execute (ScanBench.execute_of_no_room hg hroom)
  · obtain ⟨hpos, h⟩ := HotCold.create_eq_ok hc hn
    exact (HotCold.stopsOnce hpos).measures h

theorem outcome_after_one_cold_start :
    let b : ScanBench Xoshiro128 := ⟨4, 3, 3, 50, Xoshiro128.ofSeed [1, 2, 3], #[]⟩
    ScanBench.create 4 3 3 50 (Xoshiro128.ofSeed [1, 2, 3]) = .ok b ∧
      ∃ o, run "" ⟨2, 2, 1, "m"⟩ b ⟨fun k => 9 / (k.toUInt32 + 1), 1000, 0⟩ = .ok o ∧
        o.readings.toList = [4, 3] ∧ o.summary.mean.toNat = 3 ∧ o.summary.least ≤ o.summary.mean := by
  intro b
  have hc : ScanBench.create 4 3 3 50 (Xoshiro128.ofSeed [1, 2, 3]) = .ok b := rfl
  obtain ⟨_, _, hscans, _⟩ :=
    outcomes_describe_measured_readings (Steady.ofNat 1) (Xoshiro128.ofSeed [1, 2, 3])
  obtain ⟨o, ho, hm⟩ := (hscans 4 3 3 50 b (by decide) (by decide) hc).1 (by decide) "" ⟨2, 2, 1, "m"⟩
    ⟨fun k => 9 / (k.toUInt32 + 1), 1000, 0⟩ rfl (by decide)
  have hreadings : o.readings.toList = [4, 3] := hm.readings_eq
  have hsum := hm.describes (by decide)
  have hmean := hsum.mean_eq
  rw [hreadings] at hmean
  exact ⟨hc, o, ho, hreadings, hmean, hsum.least_le_mean⟩

theorem longest_target_lists_are_not_measured :
    ∃ b : TouchBench Xoshiro128, TouchBench.create 1 1 (2 ^ 60) (Xoshiro128.ofSeed [1, 2, 3]) = .ok b ∧
      run "" ⟨1, 1, 0, "m"⟩ b ⟨fun _ => 5, 1000, 0⟩ = .error .capacityOverflow :=
  ⟨_, rfl, rfl⟩

end Benchmark

end FramePool
