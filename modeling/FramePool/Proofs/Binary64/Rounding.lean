import Mathlib.Algebra.Order.Round
import Mathlib.Data.Int.Log
import Mathlib.Data.Rat.Floor
import Mathlib.Tactic.FieldSimp
import Mathlib.Tactic.Linarith

/-! Rounding to 53 significant bits, to the nearest value and to the even one of two as near. -/

namespace FramePool

namespace Binary64

def halfEven (x : ℚ) : ℤ :=
  if 2 * Int.fract x < 1 then ⌊x⌋ else if 1 < 2 * Int.fract x then ⌊x⌋ + 1 else ⌊x⌋ + ⌊x⌋ % 2

section halfEven

variable {x y : ℚ}

@[simp] lemma halfEven_intCast (n : ℤ) : halfEven n = n := by
  simp [halfEven]

lemma floor_le_halfEven (x : ℚ) : ⌊x⌋ ≤ halfEven x := by
  unfold halfEven
  split_ifs <;> omega

lemma halfEven_le_floor_add_one (x : ℚ) : halfEven x ≤ ⌊x⌋ + 1 := by
  unfold halfEven
  split_ifs <;> omega

lemma halfEven_mono (h : x ≤ y) : halfEven x ≤ halfEven y := by
  rcases (Int.floor_mono h).lt_or_eq with hlt | heq
  · calc halfEven x ≤ ⌊x⌋ + 1 := halfEven_le_floor_add_one x
      _ ≤ ⌊y⌋ := hlt
      _ ≤ halfEven y := floor_le_halfEven y
  · have hf : Int.fract x ≤ Int.fract y := by
      rw [Int.fract, Int.fract, heq]
      linarith
    unfold halfEven
    rw [heq]
    split_ifs <;> first | omega | (exfalso; linarith)

lemma halfEven_le_of_le_intCast {n : ℤ} (h : x ≤ n) : halfEven x ≤ n := by
  simpa using halfEven_mono h

lemma le_halfEven_of_intCast_le {n : ℤ} (h : n ≤ x) : n ≤ halfEven x := by
  simpa using halfEven_mono h

lemma halfEven_neg (x : ℚ) : halfEven (-x) = -halfEven x := by
  by_cases hz : Int.fract x = 0
  · obtain ⟨n, hn⟩ := Int.fract_eq_zero_iff.mp hz
    rw [← hn, ← Int.cast_neg, halfEven_intCast, halfEven_intCast]
  · have hf : Int.fract (-x) = 1 - Int.fract x := Int.fract_neg hz
    have hfl : ⌊-x⌋ = -⌊x⌋ - 1 := by
      have h₁ : (⌊-x⌋ : ℚ) = -x - Int.fract (-x) := (Int.self_sub_fract _).symm
      have h₂ : (⌊x⌋ : ℚ) = x - Int.fract x := (Int.self_sub_fract _).symm
      have h : (⌊-x⌋ : ℚ) = -⌊x⌋ - 1 := by rw [h₁, h₂, hf]; ring
      exact_mod_cast h
    unfold halfEven
    rw [hf, hfl]
    split_ifs <;> first | omega | (exfalso; linarith)

end halfEven

def lastPlace (q : ℚ) : ℤ := max (Int.log 2 |q| - 52) (-1074)

def significand (q : ℚ) : ℤ := halfEven (q / 2 ^ lastPlace q)

def nearest (q : ℚ) : ℚ := significand q * 2 ^ lastPlace q

section nearest

variable {p q : ℚ} {k : ℤ}

lemma two_zpow_pos (k : ℤ) : (0 : ℚ) < 2 ^ k := zpow_pos two_pos k

lemma two_zpow_add (j k : ℤ) : (2 : ℚ) ^ (j + k) = 2 ^ j * 2 ^ k := zpow_add₀ two_ne_zero j k

lemma two_zpow_le {j k : ℤ} (h : j ≤ k) : (2 : ℚ) ^ j ≤ 2 ^ k := zpow_le_zpow_right₀ one_le_two h

lemma two_zpow_toNat (hk : 0 ≤ k) : (2 : ℚ) ^ k = ((2 ^ k.toNat : ℤ) : ℚ) := by
  rw [Int.cast_pow, Int.cast_ofNat, ← zpow_natCast, Int.toNat_of_nonneg hk]

@[simp] lemma lastPlace_neg (q : ℚ) : lastPlace (-q) = lastPlace q := by simp [lastPlace]

lemma le_lastPlace (q : ℚ) : -1074 ≤ lastPlace q := le_max_right ..

lemma abs_lt_two_zpow_lastPlace (q : ℚ) : |q| < 2 ^ (lastPlace q + 53) := by
  have hlt : |q| < 2 ^ (Int.log 2 |q| + 1) := by
    simpa using Int.lt_zpow_succ_log_self one_lt_two |q|
  have hle : Int.log 2 |q| - 52 ≤ lastPlace q := le_max_left ..
  exact hlt.trans_le (two_zpow_le (by omega))

lemma two_zpow_lastPlace_le (hq : q ≠ 0) (hl : lastPlace q ≠ -1074) :
    2 ^ (lastPlace q + 52) ≤ |q| := by
  have hlog : lastPlace q + 52 = Int.log 2 |q| := by
    unfold lastPlace at hl ⊢
    omega
  rw [hlog]
  simpa using Int.zpow_log_le_self one_lt_two (abs_pos.mpr hq)

lemma lastPlace_le (hq : q ≠ 0) (hk : -1074 ≤ k) (hlt : |q| < 2 ^ (k + 53)) : lastPlace q ≤ k := by
  by_contra hl
  have hge := two_zpow_lastPlace_le hq (by omega)
  have hle : (2 : ℚ) ^ (k + 53) ≤ 2 ^ (lastPlace q + 52) := two_zpow_le (by omega)
  linarith

lemma le_lastPlace_of_two_zpow_le (h : 2 ^ (k + 52) ≤ |q|) : k ≤ lastPlace q := by
  by_contra hl
  have hlt := abs_lt_two_zpow_lastPlace q
  have hle : (2 : ℚ) ^ (lastPlace q + 53) ≤ 2 ^ (k + 52) := two_zpow_le (by omega)
  linarith

lemma lastPlace_eq (hq : q ≠ 0) (hk : -1074 ≤ k) (hlt : |q| < 2 ^ (k + 53))
    (hge : k = -1074 ∨ 2 ^ (k + 52) ≤ |q|) : lastPlace q = k := by
  refine le_antisymm (lastPlace_le hq hk hlt) ?_
  rcases hge with rfl | hge
  · exact le_lastPlace q
  · exact le_lastPlace_of_two_zpow_le hge

@[simp] lemma nearest_zero : nearest 0 = 0 := by
  have h : halfEven 0 = 0 := by exact_mod_cast halfEven_intCast 0
  simp [nearest, significand, h]

lemma nearest_neg (q : ℚ) : nearest (-q) = -nearest q := by
  rw [nearest, nearest, significand, significand, lastPlace_neg, neg_div, halfEven_neg]
  push_cast
  ring

lemma nearest_nonneg (hq : 0 ≤ q) : 0 ≤ nearest q := by
  have hd : ((0 : ℤ) : ℚ) ≤ q / 2 ^ lastPlace q := by
    simpa using div_nonneg hq (two_zpow_pos _).le
  exact mul_nonneg (by exact_mod_cast le_halfEven_of_intCast_le hd) (two_zpow_pos _).le

lemma two_zpow_div (h : lastPlace q ≤ k) :
    (2 : ℚ) ^ k / 2 ^ lastPlace q = ((2 ^ (k - lastPlace q).toNat : ℤ) : ℚ) := by
  rw [← zpow_sub₀ two_ne_zero, two_zpow_toNat (by omega)]

lemma nearest_eq_self_of_le {m e : ℤ} (h : lastPlace (m * 2 ^ e) ≤ e) :
    nearest (m * 2 ^ e) = m * 2 ^ e := by
  rw [nearest, significand, mul_div_assoc, two_zpow_div h, ← Int.cast_mul, halfEven_intCast,
    Int.cast_mul, ← two_zpow_div h, mul_assoc, div_mul_cancel₀ _ (two_zpow_pos _).ne']

lemma nearest_of_representable {m e : ℤ} (hm : |m| < 2 ^ 53) (he : -1074 ≤ e) :
    nearest (m * 2 ^ e) = m * 2 ^ e := by
  rcases eq_or_ne (m * 2 ^ e : ℚ) 0 with hz | hz
  · rw [hz, nearest_zero]
  · refine nearest_eq_self_of_le (lastPlace_le hz he ?_)
    have hm : |(m : ℚ)| < 2 ^ 53 := by exact_mod_cast hm
    rw [abs_mul, abs_of_pos (two_zpow_pos e), add_comm, two_zpow_add]
    exact mul_lt_mul_of_pos_right hm (two_zpow_pos e)

lemma nearest_two_zpow (hk : -1074 ≤ k) : nearest (2 ^ k) = 2 ^ k := by
  simpa using nearest_of_representable (m := 1) (by norm_num) hk

lemma nearest_le_two_zpow (hk : lastPlace q ≤ k) (h : q ≤ 2 ^ k) : nearest q ≤ 2 ^ k := by
  have hd := div_le_div_of_nonneg_right h (two_zpow_pos (lastPlace q)).le
  rw [two_zpow_div hk] at hd
  rw [nearest, significand, ← le_div_iff₀ (two_zpow_pos _), two_zpow_div hk]
  exact_mod_cast halfEven_le_of_le_intCast hd

lemma two_zpow_le_nearest (hk : lastPlace q ≤ k) (h : 2 ^ k ≤ q) : 2 ^ k ≤ nearest q := by
  have hd := div_le_div_of_nonneg_right h (two_zpow_pos (lastPlace q)).le
  rw [two_zpow_div hk] at hd
  rw [nearest, significand, ← div_le_iff₀ (two_zpow_pos _), two_zpow_div hk]
  exact_mod_cast le_halfEven_of_intCast_le hd

lemma nearest_mono_of_pos (hp : 0 < p) (h : p ≤ q) : nearest p ≤ nearest q := by
  have hq := hp.trans_le h
  have hpl := abs_lt_two_zpow_lastPlace p
  have hql := abs_lt_two_zpow_lastPlace q
  rw [abs_of_pos hp] at hpl
  rw [abs_of_pos hq] at hql
  have hle : lastPlace p ≤ lastPlace q :=
    lastPlace_le hp.ne' (le_lastPlace q) (by rw [abs_of_pos hp]; linarith)
  rcases hle.eq_or_lt with heq | hlt
  · rw [nearest, nearest, significand, significand, heq]
    have hd := div_le_div_of_nonneg_right h (two_zpow_pos (lastPlace q)).le
    exact mul_le_mul_of_nonneg_right (by exact_mod_cast halfEven_mono hd) (two_zpow_pos _).le
  · have hge := two_zpow_lastPlace_le hq.ne' (by have := le_lastPlace p; omega)
    rw [abs_of_pos hq] at hge
    have hmid : p ≤ 2 ^ (lastPlace q + 52) := hpl.le.trans (two_zpow_le (by omega))
    calc nearest p ≤ 2 ^ (lastPlace q + 52) := nearest_le_two_zpow (by omega) hmid
      _ ≤ nearest q := two_zpow_le_nearest (by omega) hge

lemma nearest_mono (h : p ≤ q) : nearest p ≤ nearest q := by
  rcases lt_or_ge 0 p with hp | hp
  · exact nearest_mono_of_pos hp h
  · rcases lt_or_ge q 0 with hq | hq
    · have hn := nearest_mono_of_pos (neg_pos.mpr hq) (neg_le_neg h)
      rw [nearest_neg, nearest_neg] at hn
      exact neg_le_neg_iff.mp hn
    · have hn := nearest_nonneg (neg_nonneg.mpr hp)
      rw [nearest_neg] at hn
      exact (neg_nonneg.mp hn).trans (nearest_nonneg hq)

lemma significand_le (hq : 0 < q) : significand q ≤ 2 ^ 53 := by
  have hlt := abs_lt_two_zpow_lastPlace q
  rw [abs_of_pos hq, add_comm, two_zpow_add, ← div_lt_iff₀ (two_zpow_pos _)] at hlt
  exact halfEven_le_of_le_intCast (by exact_mod_cast hlt.le)

lemma le_significand (hq : 0 < q) : lastPlace q = -1074 ∨ 2 ^ 52 ≤ significand q := by
  refine or_iff_not_imp_left.mpr fun hne => ?_
  have hge := two_zpow_lastPlace_le hq.ne' hne
  rw [abs_of_pos hq, add_comm, two_zpow_add, ← le_div_iff₀ (two_zpow_pos _)] at hge
  exact le_halfEven_of_intCast_le (by exact_mod_cast hge)

lemma nearest_le_two_zpow_of_le (hk : -1074 ≤ k) (h : q ≤ 2 ^ k) : nearest q ≤ 2 ^ k :=
  (nearest_mono h).trans_eq (nearest_two_zpow hk)

lemma abs_nearest_le_two_zpow (hk : -1074 ≤ k) (h : |q| ≤ 2 ^ k) : |nearest q| ≤ 2 ^ k := by
  obtain ⟨hl, hu⟩ := abs_le.mp h
  have hlow := nearest_mono hl
  rw [nearest_neg, nearest_two_zpow hk] at hlow
  exact abs_le.mpr ⟨hlow, nearest_le_two_zpow_of_le hk hu⟩

end nearest

end Binary64

end FramePool
