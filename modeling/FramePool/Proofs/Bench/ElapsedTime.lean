import FramePool.Bench.Timer
import FramePool.Proofs.Bench.Averages

/-! A stopwatch tells the microseconds into the running second. That is the time that went by as long as no
second is full. -/

namespace FramePool

namespace Stopwatch

def second : Nat := 1000000000

def micros (start stop : Nat) : Nat := (stop - start) / 1000

variable {start stop start' stop' : Nat} {clock : Nat → Nat × Nat} {runs : List Nat}

lemma toNat_reading (start stop : Nat) : (reading start stop).toNat = micros start stop % 1000000 := by
  have hlt : (stop - start) % second / 1000 < 1000000 := by
    rw [second]
    omega
  have hfit : (reading start stop).toNat = (stop - start) % second / 1000 :=
    UInt32.toNat_ofNat_of_lt' (hlt.trans (by decide))
  rw [hfit, second, micros]
  omega

lemma reading_add_seconds (start stop : Nat) :
    (reading start stop).toNat + 1000000 * ((stop - start) / second) = micros start stop := by
  rw [toNat_reading, micros, second]
  omega

lemma toNat_reading_eq_iff : (reading start stop).toNat = micros start stop ↔ stop - start < second := by
  rw [toNat_reading, micros, second]
  omega

lemma reading_le_reading (hle : stop - start ≤ stop' - start') (hlt : stop' - start' < second) :
    reading start stop ≤ reading start' stop' := by
  rw [UInt32.le_iff_toNat_le, toNat_reading_eq_iff.mpr hlt, toNat_reading_eq_iff.mpr (hle.trans_lt hlt)]
  exact Nat.div_le_div_right hle

lemma describes_micros_iff (hne : runs ≠ []) (hsize : runs.length < UInt32.size) :
    (Summary.ofReadings (runs.map (timer clock).readings)).Describes
        (runs.map fun k => micros (clock k).1 (clock k).2) ↔
      ∀ k ∈ runs, (clock k).2 - (clock k).1 < second := by
  have hlen : (runs.map (timer clock).readings).length < UInt32.size := by rwa [List.length_map]
  have hread := Summary.ofReadings_describes hlen (List.map_eq_nil_iff.not.mpr hne)
  rw [List.map_map] at hread
  constructor
  · intro h k hk
    have hle := h.le_greatest _ (List.mem_map_of_mem hk)
    obtain ⟨k', _, hg⟩ := List.mem_map.mp hread.greatest_mem
    have hgreatest := toNat_reading (clock k').1 (clock k').2
    change (reading _ _).toNat = _ at hg
    rw [micros] at hle
    rw [second]
    omega
  · intro h
    have hmap : runs.map (UInt32.toNat ∘ (timer clock).readings) =
        runs.map fun k => micros (clock k).1 (clock k).2 :=
      List.map_congr_left fun k hk => toNat_reading_eq_iff.mpr (h k hk)
    rwa [hmap] at hread

theorem reads_microseconds_into_second (clock : Nat → Nat × Nat) :
    (∀ k, ((timer clock).readings k).toNat =
        ((clock k).2 - (clock k).1) * (timer clock).ticksPerMs.toNat / 1000000 ↔
      (clock k).2 - (clock k).1 < second) ∧
    (∀ k, ((timer clock).readings k).toNat + 1000000 * (((clock k).2 - (clock k).1) / second) =
      micros (clock k).1 (clock k).2) ∧
    (∀ j k, (clock j).2 - (clock j).1 ≤ (clock k).2 - (clock k).1 →
      (clock k).2 - (clock k).1 < second → (timer clock).readings j ≤ (timer clock).readings k) ∧
    ∀ runs : List Nat, runs ≠ [] → runs.length < UInt32.size →
      ((Summary.ofReadings (runs.map (timer clock).readings)).Describes
          (runs.map fun k => micros (clock k).1 (clock k).2) ↔
        ∀ k ∈ runs, (clock k).2 - (clock k).1 < second) := by
  refine ⟨fun k => ?_, fun k => reading_add_seconds _ _, fun j k => reading_le_reading,
    fun runs => describes_micros_iff⟩
  have hticks : ∀ d, d * (timer clock).ticksPerMs.toNat / 1000000 = d / 1000 := by
    intro d
    change d * 1000 / 1000000 = d / 1000
    omega
  rw [hticks]
  exact toNat_reading_eq_iff

theorem reads_two_runs_within_a_second :
    let clock : Nat → Nat × Nat := fun k => (5000 * k, 999999 * (1000 - 999 * k))
    (timer clock).readings 1 ≤ (timer clock).readings 0 ∧
      (Summary.ofReadings ([0, 1].map (timer clock).readings)).Describes [999999, 994] := by
  intro clock
  obtain ⟨_, _, hmono, hruns⟩ := reads_microseconds_into_second clock
  have htimes : [0, 1].map (fun k => micros (clock k).1 (clock k).2) = [999999, 994] := by decide
  refine ⟨hmono 1 0 (by decide) (by decide), ?_⟩
  rw [← htimes]
  exact (hruns [0, 1] (by decide) (by decide)).mpr (by decide)

theorem longer_run_reads_less :
    micros 0 1500000000 = 1500000 ∧ 1500000 < 2 ^ 32 ∧ reading 0 1500000000 = 500000 ∧
      reading 0 900000000 = 900000 := by
  decide

end Stopwatch

end FramePool
