import FramePool.Pacer.PidLoop
import FramePool.Proofs.Binary64.Reading
import Mathlib.Data.List.Induction

/-! How the recommended pace of a PID loop with the default gains moves. -/

namespace FramePool

open Binary64

namespace PidLoop

section constants

-- the doubles nearest to 0.1, 0.01 and 0.05
def kp : ℚ := 7205759403792794 / 2 ^ 56
def ki : ℚ := 5764607523034235 / 2 ^ 59
def kd : ℚ := 7205759403792794 / 2 ^ 57

lemma reads_kp : Reads 0.1 kp :=
  .of_unpack 7205759403792794 (-56) (by norm_num) (by norm_num) rfl (by norm_num [kp])

lemma reads_ki : Reads 0.01 ki :=
  .of_unpack 5764607523034235 (-59) (by norm_num) (by norm_num) rfl (by norm_num [ki])

lemma reads_kd : Reads 0.05 kd :=
  .of_unpack 7205759403792794 (-57) (by norm_num) (by norm_num) rfl (by norm_num [kd])

lemma reads_outputScale : Reads outputScale 10 :=
  .of_unpack 5629499534213120 (-49) (by norm_num) (by norm_num) rfl (by norm_num)

lemma reads_integralLimit : Reads integralLimit 100 :=
  .of_unpack 7036874417766400 (-46) (by norm_num) (by norm_num) rfl (by norm_num)

end constants

lemma reads_ratio {r : Report} (hf : r.refaults < 2 ^ 64) (hc : r.reclaimed < 2 ^ 64) :
    ∃ q, Reads (ratio r) q ∧ 0 ≤ q ∧ q ≤ 2 ^ (64 : ℤ) ∧ (r.refaults = 0 → q = 0) := by
  unfold ratio
  split_ifs with h0
  · have hone : 1 ≤ nearest r.reclaimed := by
      have hn : nearest 1 = 1 := by simpa using nearest_two_zpow (k := 0) (by norm_num)
      rw [← hn]
      exact nearest_mono (by exact_mod_cast h0)
    have hnum : 0 ≤ nearest r.refaults := nearest_nonneg r.refaults.cast_nonneg
    have hsize : nearest r.refaults ≤ 2 ^ (64 : ℤ) :=
      nearest_le_two_zpow_of_le (by norm_num) (by exact_mod_cast hf.le)
    have hle := (div_le_self hnum hone).trans hsize
    have hq : 0 ≤ nearest r.refaults / nearest r.reclaimed := div_nonneg hnum (by linarith)
    refine ⟨_, (Reads.ofNat hf).div (Reads.ofNat hc) (by linarith) ((abs_of_nonneg hq).trans_le hle)
      (by norm_num), nearest_nonneg hq, nearest_le_two_zpow_of_le (by norm_num) hle, fun hz => ?_⟩
    simp [hz]
  · exact ⟨0, .zero, le_rfl, by positivity, fun _ => rfl⟩

lemma reads_clamp {x : Float} {q : ℚ} (hx : Reads x q) (hq : 0 ≤ q) :
    Reads (clamp (-integralLimit) integralLimit x) (min q 100) := by
  have hneg := reads_integralLimit.neg (k := 7) (by norm_num) (by norm_num)
  unfold clamp
  rw [if_neg (by rw [hx.lt_iff hneg]; linarith)]
  split_ifs with h <;> rw [reads_integralLimit.lt_iff hx] at h
  · rw [min_eq_right h.le]
    exact reads_integralLimit
  · rw [min_eq_left (not_lt.mp h)]
    exact hx

lemma wholePart_eq {x : Float} {q : ℚ} (hx : Reads x q) :
    wholePart x = min ⌊q⌋.toNat (UInt64.size - 1) := by
  unfold wholePart
  split_ifs with h <;> rw [Reads.zero.lt_iff hx] at h
  · exact hx.toNat_toUInt64 h.le
  · have hz : ⌊q⌋.toNat = 0 := Int.toNat_of_nonpos (Int.floor_nonpos (not_lt.mp h))
    rw [hz, Nat.zero_min]

structure Sound (p : PidLoop) (e j : ℚ) : Prop where
  gains_eq : p.gains = {}
  reads_error : Reads p.error e
  reads_integral : Reads p.integral j
  error_nonneg : 0 ≤ e
  error_le : e ≤ 2 ^ (64 : ℤ)
  integral_nonneg : 0 ≤ j
  integral_le : j ≤ 100

def outputOf (e j d : ℚ) : ℚ :=
  nearest (nearest (nearest (kp * e) + nearest (ki * j)) + nearest (kd * d))

section output

variable {p p' : PidLoop} {e j d o o' a q q' : ℚ} {k : ℤ}

lemma abs_mul_le (ha : 0 ≤ a) (ha' : a ≤ 1) (hq : |q| ≤ 2 ^ k) : |a * q| ≤ 2 ^ k := by
  rw [abs_mul, abs_of_nonneg ha]
  exact (mul_le_of_le_one_left (abs_nonneg q) ha').trans hq

lemma abs_add_le_two_zpow (hq : |q| ≤ 2 ^ k) (hq' : |q'| ≤ 2 ^ k) : |q + q'| ≤ 2 ^ (k + 1) := by
  have := abs_add_le q q'
  rw [two_zpow_add, zpow_one]
  linarith

lemma Sound.reads_output (h : Sound p e j) (hd : Reads p.derivative d) (hd' : |d| ≤ 2 ^ (64 : ℤ)) :
    Reads p.output (outputOf e j d) ∧ |outputOf e j d| ≤ 2 ^ (66 : ℤ) := by
  have he : |e| ≤ 2 ^ (64 : ℤ) := (abs_of_nonneg h.error_nonneg).trans_le h.error_le
  have hj : |j| ≤ 2 ^ (64 : ℤ) :=
    (abs_of_nonneg h.integral_nonneg).trans_le (h.integral_le.trans (by norm_num))
  have hp := abs_mul_le (a := kp) (by norm_num [kp]) (by norm_num [kp]) he
  have hi := abs_mul_le (a := ki) (by norm_num [ki]) (by norm_num [ki]) hj
  have hk := abs_mul_le (a := kd) (by norm_num [kd]) (by norm_num [kd]) hd'
  have hsum := abs_add_le_two_zpow (abs_nearest_le_two_zpow (by norm_num) hp)
    (abs_nearest_le_two_zpow (by norm_num) hi)
  have hall := abs_add_le_two_zpow (abs_nearest_le_two_zpow (by norm_num) hsum)
    ((abs_nearest_le_two_zpow (by norm_num) hk).trans (two_zpow_le (by norm_num)))
  have hterms := (reads_kp.mul h.reads_error hp (by norm_num)).add
    (reads_ki.mul h.reads_integral hi (by norm_num)) hsum (by norm_num)
  refine ⟨?_, abs_nearest_le_two_zpow (by norm_num) hall⟩
  rw [output, h.gains_eq]
  exact hterms.add (reads_kd.mul hd hk (by norm_num)) hall (by norm_num)

lemma wholePart_output (ho : Reads p.output o) (h : |o| ≤ 2 ^ (66 : ℤ)) :
    wholePart (p.output * outputScale) = min ⌊nearest (o * 10)⌋.toNat (UInt64.size - 1) := by
  have hbound : |o * 10| ≤ 2 ^ (70 : ℤ) := by
    rw [abs_mul, show (70 : ℤ) = 66 + 4 from rfl, two_zpow_add]
    exact mul_le_mul h (by norm_num) (abs_nonneg _) (two_zpow_pos _).le
  exact wholePart_eq (ho.mul reads_outputScale hbound (by norm_num))

lemma pace_le_pace (ho : Reads p.output o) (ho' : Reads p'.output o') (h : |o| ≤ 2 ^ (66 : ℤ))
    (h' : |o'| ≤ 2 ^ (66 : ℤ)) (hle : o ≤ o') : p.pace ≤ p'.pace := by
  have hscaled : o * 10 ≤ o' * 10 := by linarith
  have hfloor := Int.floor_mono (nearest_mono hscaled)
  unfold pace
  rw [wholePart_output ho h, wholePart_output ho' h']
  omega

lemma pace_le_of_output_le_one (ho : Reads p.output o) (h : |o| ≤ 2 ^ (66 : ℤ)) (hle : o ≤ 1) :
    p.pace ≤ 42 := by
  have hten : nearest 10 = 10 := reads_outputScale.nearest_eq
  have hmono := nearest_mono (show o * 10 ≤ 10 by linarith)
  rw [hten] at hmono
  have hfloor : ⌊nearest (o * 10)⌋ ≤ 10 := by
    exact_mod_cast (Int.floor_le _).trans hmono
  unfold pace leastPace greatestPace basePace
  rw [wholePart_output ho h]
  omega

end output

section quiet

variable {p : PidLoop} {x z : Float} {e e' j : ℚ}

lemma Sound.observe (h : Sound p e' j) (hx : Reads x e) (h0 : 0 ≤ e) (h1 : e ≤ 2 ^ (64 : ℤ)) :
    Sound (p.observe x) e (min (nearest (j + e)) 100) := by
  obtain ⟨hg, he, hj, he0, he1, hj0, hj1⟩ := h
  have hsum : |j + e| ≤ 2 ^ (65 : ℤ) := by
    rw [abs_of_nonneg (add_nonneg hj0 h0)]
    norm_num at h1 ⊢
    linarith
  have hnn := nearest_nonneg (add_nonneg hj0 h0)
  exact ⟨hg, hx, reads_clamp (hj.add hx hsum (by norm_num)) hnn, h0, h1, le_min hnn (by norm_num),
    min_le_right ..⟩

lemma Sound.reads_derivative (h : Sound p e' j) (hx : Reads x e) (h0 : 0 ≤ e)
    (h1 : e ≤ 2 ^ (64 : ℤ)) :
    Reads (p.observe x).derivative (nearest (e - e')) ∧ |nearest (e - e')| ≤ 2 ^ (64 : ℤ) := by
  have hdiff : |e - e'| ≤ 2 ^ (64 : ℤ) :=
    abs_le.mpr ⟨by linarith [h.error_le], by linarith [h.error_nonneg]⟩
  exact ⟨hx.sub h.reads_error hdiff (by norm_num), abs_nearest_le_two_zpow (by norm_num) hdiff⟩

lemma nearest_ki_mul_hundred : nearest (ki * 100) = 1 := by
  have hr : Reads (0.01 * integralLimit) (nearest (ki * 100)) :=
    reads_ki.mul reads_integralLimit (k := 1) (by norm_num [ki]) (by norm_num)
  exact hr.unique (.of_unpack (2 ^ 52) (-52) (by norm_num) (by norm_num) rfl (by norm_num))

lemma Sound.integral_term_le_one (h : Sound p e j) : nearest (ki * j) ≤ 1 :=
  (nearest_mono (mul_le_mul_of_nonneg_left h.integral_le (by norm_num [ki]))).trans_eq
    nearest_ki_mul_hundred

lemma Sound.nearest_integral_term (h : Sound p e j) :
    nearest (nearest (ki * j)) = nearest (ki * j) := by
  have hj : |j| ≤ 2 ^ (7 : ℤ) :=
    (abs_of_nonneg h.integral_nonneg).trans_le (h.integral_le.trans (by norm_num))
  have hi := abs_mul_le (a := ki) (by norm_num [ki]) (by norm_num [ki]) hj
  exact (reads_ki.mul h.reads_integral hi (by norm_num)).nearest_eq

lemma Sound.outputOf_zero (h : Sound p e j) :
    outputOf 0 j (-e) = nearest (nearest (ki * j) - nearest (kd * e)) := by
  rw [outputOf, mul_zero, nearest_zero, zero_add, h.nearest_integral_term, mul_neg, nearest_neg,
    ← sub_eq_add_neg]

lemma Sound.outputOf_zero_le_one (h : Sound p e j) : outputOf 0 j (-e) ≤ 1 := by
  have he : 0 ≤ nearest (kd * e) :=
    nearest_nonneg (mul_nonneg (by norm_num [kd]) h.error_nonneg)
  rw [h.outputOf_zero]
  calc nearest (nearest (ki * j) - nearest (kd * e)) ≤ nearest (nearest (ki * j)) :=
        nearest_mono (by linarith)
    _ ≤ 1 := h.nearest_integral_term.trans_le h.integral_term_le_one

lemma Sound.outputOf_zero_le {d : ℚ} (h : Sound p e j) (hd : -e ≤ d) :
    outputOf 0 j (-e) ≤ outputOf e j d := by
  have hpe : 0 ≤ nearest (kp * e) :=
    nearest_nonneg (mul_nonneg (by norm_num [kp]) h.error_nonneg)
  have hkd : -nearest (kd * e) ≤ nearest (kd * d) := by
    rw [← nearest_neg, ← mul_neg]
    exact nearest_mono (mul_le_mul_of_nonneg_left hd (by norm_num [kd]))
  have hki : nearest (ki * j) ≤ nearest (nearest (kp * e) + nearest (ki * j)) :=
    h.nearest_integral_term.symm.trans_le (nearest_mono (by linarith))
  rw [h.outputOf_zero]
  exact nearest_mono (by linarith)

lemma Sound.pace_observe_zero {d : ℚ} (h : Sound p e j) (hd : Reads p.derivative d)
    (hd' : |d| ≤ 2 ^ (64 : ℤ)) (hz : Reads z 0) :
    (p.observe z).pace ≤ 42 ∧ (-e ≤ d → (p.observe z).pace ≤ p.pace) := by
  have hq := h.observe hz le_rfl (by positivity)
  have hj : min (nearest (j + 0)) 100 = j := by
    rw [add_zero, h.reads_integral.nearest_eq, min_eq_left h.integral_le]
  have hneg : nearest (0 - e) = -e := by
    rw [zero_sub, nearest_neg, h.reads_error.nearest_eq]
  obtain ⟨hqd, hqd'⟩ := h.reads_derivative hz le_rfl (by positivity)
  rw [hj] at hq
  rw [hneg] at hqd hqd'
  obtain ⟨hq, hqb⟩ := hq.reads_output hqd hqd'
  obtain ⟨hp, hpb⟩ := h.reads_output hd hd'
  exact ⟨pace_le_of_output_le_one hq hqb h.outputOf_zero_le_one,
    fun hle => pace_le_pace hq hp hqb hpb (h.outputOf_zero_le hle)⟩

lemma Sound.neg_error_le (h : Sound p e j) (hle : e' ≤ 2 * e) : -e ≤ nearest (e - e') := by
  rw [← h.reads_error.nearest_eq, ← nearest_neg, h.reads_error.nearest_eq]
  exact nearest_mono (by linarith)

end quiet

def after (reports : List Report) : PidLoop := reports.foldl Pacer.report { gains := {} }

/-- The ratio of the last report, as it was computed; 0 before the first report. -/
def lastRatio (reports : List Report) : Float := (reports.getLast?.map ratio).getD 0

def Fits (r : Report) : Prop := r.refaults < 2 ^ 64 ∧ r.reclaimed < 2 ^ 64

section after

variable {reports : List Report}

lemma after_concat (reports : List Report) (r : Report) :
    after (reports ++ [r]) = (after reports).observe (ratio r) := by
  rw [after, List.foldl_append]
  rfl

@[simp] lemma lastRatio_concat (reports : List Report) (r : Report) :
    lastRatio (reports ++ [r]) = ratio r := by
  simp [lastRatio]

lemma error_after (reports : List Report) : (after reports).error = lastRatio reports := by
  rcases List.eq_nil_or_concat reports with rfl | ⟨rs, r, rfl⟩
  · rfl
  · rw [List.concat_eq_append, after_concat, lastRatio_concat]
    rfl

lemma sound_initial : Sound (after []) 0 0 :=
  ⟨rfl, .zero, .zero, le_rfl, by positivity, le_rfl, by norm_num⟩

lemma exists_sound (h : ∀ r ∈ reports, Fits r) : ∃ e j, Sound (after reports) e j := by
  induction reports using List.reverseRecOn with
  | nil => exact ⟨0, 0, sound_initial⟩
  | append_singleton rs r ih =>
    obtain ⟨e', j, hs⟩ := ih fun s hm => h s (List.mem_append_left _ hm)
    obtain ⟨hf, hc⟩ := h r (by simp)
    obtain ⟨e, he, h0, h1, -⟩ := reads_ratio hf hc
    rw [after_concat]
    exact ⟨e, _, hs.observe he h0 h1⟩

/-- A report without refaults raises the pace only after a ratio that was less than half of the one
before it, and then to no more than 42. -/
theorem pace_after_no_refaults {last : Report} (h : ∀ r ∈ reports, Fits r) (hl : Fits last)
    (hz : last.refaults = 0) :
    (after (reports ++ [last])).pace ≤ 42 ∧
      (lastRatio reports.dropLast ≤ 2 * lastRatio reports →
        (after (reports ++ [last])).pace ≤ (after reports).pace) := by
  obtain ⟨z, hzr, -, -, hz0⟩ := reads_ratio hl.1 hl.2
  rw [hz0 hz] at hzr
  rw [after_concat]
  rcases List.eq_nil_or_concat reports with rfl | ⟨rs, r, rfl⟩
  · obtain ⟨hle, hpace⟩ := sound_initial.pace_observe_zero (d := 0) .zero (by simp) hzr
    exact ⟨hle, fun _ => hpace (by simp)⟩
  · rw [List.concat_eq_append] at h ⊢
    obtain ⟨e', j, hs⟩ := exists_sound fun s hm => h s (List.mem_append_left _ hm)
    obtain ⟨hf, hc⟩ := h r (by simp)
    obtain ⟨e, he, h0, h1, -⟩ := reads_ratio hf hc
    have hnow := hs.observe he h0 h1
    obtain ⟨hd, hd'⟩ := hs.reads_derivative he h0 h1
    rw [after_concat]
    obtain ⟨hle, hpace⟩ := hnow.pace_observe_zero hd hd' hzr
    refine ⟨hle, fun hratio => hpace (hnow.neg_error_le ?_)⟩
    have htwice := he.two_mul ((abs_of_nonneg h0).trans_le h1) (by norm_num)
    rwa [List.dropLast_concat, lastRatio_concat, ← error_after,
      hs.reads_error.le_iff htwice] at hratio

theorem pace_after_two_reports_and_no_refaults :
    (∀ r ∈ [(⟨10, 100, 5⟩ : Report), ⟨8, 100, 5⟩], Fits r) ∧ Fits ⟨0, 100, 50⟩ ∧
      lastRatio [⟨10, 100, 5⟩] ≤ 2 * lastRatio [⟨10, 100, 5⟩, ⟨8, 100, 5⟩] ∧
      (after [⟨10, 100, 5⟩, ⟨8, 100, 5⟩, ⟨0, 100, 50⟩]).pace ≤ 42 ∧
      (after [⟨10, 100, 5⟩, ⟨8, 100, 5⟩, ⟨0, 100, 50⟩]).pace ≤
        (after [⟨10, 100, 5⟩, ⟨8, 100, 5⟩]).pace := by
  have h : ∀ r ∈ [(⟨10, 100, 5⟩ : Report), ⟨8, 100, 5⟩], Fits r := by simp [Fits]
  have hl : Fits ⟨0, 100, 50⟩ := by simp [Fits]
  have hratio : lastRatio [⟨10, 100, 5⟩] ≤ 2 * lastRatio [⟨10, 100, 5⟩, ⟨8, 100, 5⟩] := by
    decide +kernel
  obtain ⟨hle, hpace⟩ := pace_after_no_refaults h hl rfl
  exact ⟨h, hl, hratio, hle, hpace hratio⟩

example : (after [⟨100, 1, 1⟩, ⟨40, 1, 2 ^ 54⟩, ⟨19, 1, 2 ^ 54⟩]).pace = 41 ∧
    (after [⟨100, 1, 1⟩, ⟨40, 1, 2 ^ 54⟩, ⟨19, 1, 2 ^ 54⟩, ⟨0, 1, 1⟩]).pace = 42 := by
  decide +kernel

theorem second_report_without_refaults_raises_pace : ¬∀ (reports : List Report) (last : Report),
    (∀ r ∈ reports, Fits r) → Fits last → last.refaults = 0 →
      (after (reports ++ [last])).pace ≤ (after reports).pace := by
  intro h
  have hle := h [⟨100, 1, 1⟩, ⟨0, 1, 1⟩] ⟨0, 1, 1⟩ (by simp [Fits]) (by simp [Fits]) rfl
  have hbefore : (after [⟨100, 1, 1⟩, ⟨0, 1, 1⟩]).pace = 32 := by decide +kernel
  have hafter : (after [⟨100, 1, 1⟩, ⟨0, 1, 1⟩, ⟨0, 1, 1⟩]).pace = 42 := by decide +kernel
  rw [hbefore] at hle
  exact absurd (hafter.symm.trans_le hle) (by decide)

end after

end PidLoop

end FramePool
