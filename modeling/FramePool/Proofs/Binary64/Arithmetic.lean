import FramePool.Proofs.Binary64.Mantissa

/-! Each operation on finite numbers yields the value nearest to its exact result. -/

namespace FramePool

namespace Binary64

open Float.Model UnpackedFloat

section factor

variable (s t : Sign) (q : ℚ)

@[simp] lemma factor_neg : factor (-s) = -factor s := by cases s <;> decide

@[simp] lemma factor_mul : factor (s * t) = factor s * factor t := by
  cases s <;> cases t <;> decide +kernel

@[simp] lemma factor_div : factor (s / t) = factor s / factor t := by
  cases s <;> cases t <;> decide +kernel

lemma intCast_apply (n : ℤ) : (s.apply n : ℚ) = factor s * n := by
  cases s <;> simp [factor, Sign.apply]

lemma nearest_factor_mul : nearest (factor s * q) = factor s * nearest q := by
  cases s <;> simp [factor, nearest_neg]

@[simp] lemma abs_factor : |factor s| = 1 := by
  cases s <;> simp [factor]

end factor

lemma Canonical.nearest_eq {m : Nat} {e f : ℤ} (h : Canonical m e) (hf : e ≤ f) :
    nearest (m * 2 ^ f) = m * 2 ^ f := by
  have habs : |(m : ℤ)| < 2 ^ 53 := by
    rw [Nat.abs_cast]
    exact_mod_cast h.lt
  rw [← Int.cast_natCast, nearest_of_representable habs (h.le.trans hf)]

namespace Stands

variable {u v : UnpackedFloat} {p q : ℚ}

lemma unique (hp : Stands u p) (hq : Stands u q) : p = q := by
  cases hp <;> cases hq <;> rfl

lemma nearest_eq (h : Stands u q) : nearest q = q := by
  cases h with
  | zero s => exact nearest_zero
  | finite s hm h => rw [nearest_factor_mul, h.nearest_eq le_rfl]

lemma nearest_two_mul (h : Stands u q) : nearest (2 * q) = 2 * q := by
  cases h with
  | zero s => simp
  | @finite s m e hm h =>
    have hs : (2 * (factor s * (m * 2 ^ e)) : ℚ) = factor s * (m * 2 ^ (e + 1)) := by
      rw [two_zpow_add]
      ring
    rw [hs, nearest_factor_mul, h.nearest_eq (by omega)]

lemma neg (h : Stands u q) : Stands u.neg (-q) := by
  cases h with
  | zero s =>
    rw [neg_zero]
    exact .zero (-s)
  | finite s hm h =>
    rw [← neg_mul, ← factor_neg]
    exact .finite (-s) hm h

end Stands

section

variable (s : Sign) {m : Nat} {e : ℤ}

lemma stands_roundWithAccuracy_exact (hm : 0 < m) (he : e ≤ lastPlace (m * 2 ^ e)) :
    Stands (roundWithAccuracy .binary64 s m e .exact) (factor s * nearest (m * 2 ^ e)) :=
  (Shows.exact m).stands_roundWithAccuracy (by exact_mod_cast hm) s he

lemma le_lastPlace_of_normal (h : e ≤ -1074 ∨ 2 ^ 52 ≤ m) : e ≤ lastPlace (m * 2 ^ e) := by
  rcases h with h | h
  · exact h.trans (le_lastPlace _)
  · refine le_lastPlace_of_two_zpow_le ?_
    rw [abs_mul, Nat.abs_cast, abs_of_pos (two_zpow_pos e), add_comm, two_zpow_add]
    exact mul_le_mul_of_nonneg_right (by exact_mod_cast h) (two_zpow_pos e).le

lemma decreaseExponent_value (m : Nat) (e t : ℤ) :
    ((decreaseExponent m e t).1 : ℚ) * 2 ^ (decreaseExponent m e t).2 = m * 2 ^ e := by
  simp only [decreaseExponent, Nat.shiftLeft_eq, Nat.cast_mul, Nat.cast_pow, Nat.cast_ofNat]
  rw [← zpow_natCast, mul_assoc, ← two_zpow_add, add_sub_cancel]

lemma decreaseExponent_fst_value (m : Nat) {e t : ℤ} (h : t ≤ e) :
    ((decreaseExponent m e t).1 : ℚ) * 2 ^ t = m * 2 ^ e := by
  have hs : (decreaseExponent m e t).2 = t := by
    simp only [decreaseExponent]
    omega
  have hv := decreaseExponent_value m e t
  rwa [hs] at hv

lemma decreaseExponent_pos (hm : 0 < m) (e t : ℤ) : 0 < (decreaseExponent m e t).1 := by
  rw [decreaseExponent, Nat.shiftLeft_eq]
  positivity

lemma decreaseExponent_snd_le (m : Nat) (e t : ℤ) : (decreaseExponent m e t).2 ≤ t := by
  simp only [decreaseExponent]
  omega

lemma stands_round (hm : 0 < m) :
    Stands (UnpackedFloat.round .binary64 s m e) (factor s * nearest (m * 2 ^ e)) := by
  rw [UnpackedFloat.round, (Shows.exact m).targetExponent_of_pos hm]
  have h := stands_roundWithAccuracy_exact s (decreaseExponent_pos hm e (lastPlace (m * 2 ^ e)))
    (by rw [decreaseExponent_value]; exact decreaseExponent_snd_le ..)
  rwa [decreaseExponent_value] at h

lemma stands_normalize (n : ℤ) :
    Stands (UnpackedFloat.normalize .binary64 n e s) (nearest (n * 2 ^ e)) := by
  rw [UnpackedFloat.normalize]
  rcases lt_trichotomy n 0 with hn | rfl | hn
  · rw [Int.compare_eq_lt.mpr hn]
    have hcast : ((-n).toNat : ℚ) = -n := by exact_mod_cast Int.toNat_of_nonneg (by omega)
    have h := stands_round .negative (e := e) (show 0 < (-n).toNat by omega)
    rw [← nearest_factor_mul, hcast] at h
    simpa [factor] using! h
  · simpa using! Stands.zero s
  · rw [Int.compare_eq_gt.mpr hn]
    have hcast : (n.toNat : ℚ) = n := by exact_mod_cast Int.toNat_of_nonneg hn.le
    have h := stands_round .positive (e := e) (show 0 < n.toNat by omega)
    rw [← nearest_factor_mul, hcast] at h
    simpa [factor] using! h

end

lemma apply_neg (s : Sign) (n : ℤ) : (-s).apply n = -s.apply n := by
  cases s
  · exact (neg_neg n).symm
  · rfl

lemma unpacked_sub_eq (u v : UnpackedFloat) : u.sub .binary64 v = u.add .binary64 v.neg := by
  rcases u with _ | s | s | ⟨s, m, e, hm⟩ <;> rcases v with _ | t | t | ⟨t, n, f, hn⟩ <;> try rfl
  change UnpackedFloat.normalize .. = UnpackedFloat.normalize ..
  rw [apply_neg, sub_eq_add_neg]

lemma div_finite (s t : Sign) {m n : Nat} (e f : ℤ) (hm : 0 < m) (hn : 0 < n) :
    UnpackedFloat.div .binary64 (.finite s m e hm) (.finite t n f hn) =
      roundWithAccuracy .binary64 (s / t) (divCore .binary64 m e n f).1
        (divCore .binary64 m e n f).2.1 (divCore .binary64 m e n f).2.2 :=
  rfl

lemma divCore_eq {m n : Nat} (hm : 0 < m) (e : ℤ) (hn : 0 < n) (f : ℤ) : ∃ k : Nat, ∃ g : ℤ, 0 < k ∧
    divCore .binary64 m e n f = (k / n, g, accuracyOfFraction (k % n) n) ∧
    (k / n * 2 ^ g : ℚ) = m * 2 ^ e / (n * 2 ^ f) ∧ g ≤ lastPlace (m * 2 ^ e / (n * 2 ^ f)) := by
  generalize hg : min (e - f)
    (Format.binary64.targetExponent (totalExponent m e - totalExponent n f)) = g
  have hcore : divCore .binary64 m e n f = ((decreaseExponent m (e - f) g).1 / n, g,
      accuracyOfFraction ((decreaseExponent m (e - f) g).1 % n) n) := by
    rw [divCore, hg]
    rfl
  have hn : (0 : ℚ) < n := by exact_mod_cast hn
  have hf := two_zpow_pos f
  refine ⟨_, g, decreaseExponent_pos hm (e - f) g, hcore, ?_, ?_⟩
  · have hd := decreaseExponent_fst_value m (show g ≤ e - f by omega)
    rw [zpow_sub₀ two_ne_zero] at hd
    rw [div_mul_eq_mul_div, hd]
    field_simp
  · rw [targetExponent_eq, totalExponent, totalExponent] at hg
    rcases le_or_gt g (-1074) with hsmall | hlarge
    · exact hsmall.trans (le_lastPlace _)
    · have hbits : g + 52 ≤ (m.log2 + e) - (n.log2 + 1 + f) := by omega
      have hle : (2 : ℚ) ^ (m.log2 + e : ℤ) ≤ m * 2 ^ e := by
        rw [two_zpow_add]
        exact mul_le_mul_of_nonneg_right (two_pow_log2_le hm.ne') (two_zpow_pos e).le
      have hlt : (n * 2 ^ f : ℚ) ≤ 2 ^ (n.log2 + 1 + f : ℤ) := by
        rw [two_zpow_add]
        exact mul_le_mul_of_nonneg_right (by linarith [lt_two_pow_log2 n]) hf.le
      refine le_lastPlace_of_two_zpow_le (le_trans ?_ (le_abs_self _))
      calc (2 : ℚ) ^ (g + 52) ≤ 2 ^ ((m.log2 + e) - (n.log2 + 1 + f) : ℤ) := two_zpow_le hbits
        _ = 2 ^ (m.log2 + e : ℤ) / 2 ^ (n.log2 + 1 + f : ℤ) := zpow_sub₀ two_ne_zero ..
        _ ≤ m * 2 ^ e / (n * 2 ^ f) :=
          div_le_div₀ (mul_nonneg m.cast_nonneg (two_zpow_pos e).le) hle (mul_pos hn hf) hlt

variable {u v : UnpackedFloat} {p q : ℚ}

namespace Stands

lemma add (hu : Stands u p) (hv : Stands v q) : Stands (u.add .binary64 v) (nearest (p + q)) := by
  cases hu with
  | zero s =>
    cases hv with
    | zero t =>
      rw [add_zero, nearest_zero]
      cases s <;> cases t <;> exact .zero _
    | finite t hn h =>
      rw [zero_add, (Stands.finite t hn h).nearest_eq]
      exact .finite t hn h
  | @finite s m e hm h =>
    cases hv with
    | zero t =>
      rw [add_zero, (Stands.finite s hm h).nearest_eq]
      exact .finite s hm h
    | @finite t n f hn =>
      have hs := stands_normalize (e := min e f) .positive
        (s.apply (decreaseExponent m e (min e f)).1 + t.apply (decreaseExponent n f (min e f)).1)
      rw [Int.cast_add, intCast_apply, intCast_apply, add_mul, mul_assoc, mul_assoc,
        Int.cast_natCast, Int.cast_natCast, decreaseExponent_fst_value m (min_le_left ..),
        decreaseExponent_fst_value n (min_le_right ..)] at hs
      exact hs

lemma sub (hu : Stands u p) (hv : Stands v q) : Stands (u.sub .binary64 v) (nearest (p - q)) := by
  rw [unpacked_sub_eq, sub_eq_add_neg]
  exact hu.add hv.neg

lemma mul (hu : Stands u p) (hv : Stands v q) : Stands (u.mul .binary64 v) (nearest (p * q)) := by
  cases hu with
  | zero s =>
    rw [zero_mul, nearest_zero]
    cases hv <;> exact .zero _
  | @finite s m e hm h =>
    cases hv with
    | zero t =>
      rw [mul_zero, nearest_zero]
      exact .zero _
    | @finite t n f hn h' =>
      have hplace : e + f ≤ -1074 ∨ 2 ^ 52 ≤ m * n := by
        rcases h.full with rfl | hfull
        · rcases h'.full with rfl | hfull
          · exact .inl (by norm_num)
          · exact .inr (hfull.trans (Nat.le_mul_of_pos_left n hm))
        · exact .inr (hfull.trans (Nat.le_mul_of_pos_right m hn))
      have hs := stands_roundWithAccuracy_exact (s * t) (Nat.mul_pos hm hn)
        (le_lastPlace_of_normal hplace)
      rw [← nearest_factor_mul, factor_mul, Nat.cast_mul, two_zpow_add] at hs
      convert! hs using 2
      ring

lemma div (hu : Stands u p) (hv : Stands v q) (hq : q ≠ 0) :
    Stands (u.div .binary64 v) (nearest (p / q)) := by
  cases hv with
  | zero t => exact absurd rfl hq
  | @finite t n f hn =>
    cases hu with
    | zero s =>
      rw [zero_div, nearest_zero]
      exact .zero _
    | @finite s m e hm =>
      obtain ⟨k, g, hk, hcore, hvalue, hplace⟩ := divCore_eq hm e hn f
      rw [← hvalue] at hplace
      have hx : (0 : ℚ) < k / n := div_pos (Nat.cast_pos.mpr hk) (Nat.cast_pos.mpr hn)
      have hs := (Shows.fraction hn).stands_roundWithAccuracy hx (s / t) hplace
      rw [← nearest_factor_mul, hvalue, factor_div] at hs
      rw [mul_div_mul_comm, div_finite, hcore]
      exact hs

end Stands

lemma mul_two_zpow_lt {m n : Nat} {e f : ℤ} (hm : m < 2 ^ 53) (hn : 2 ^ 52 ≤ n) (h : e < f) :
    (m * 2 ^ e : ℚ) < n * 2 ^ f := by
  have hm : (m : ℚ) < 2 ^ 53 := by exact_mod_cast hm
  have hn : (2 : ℚ) ^ 52 ≤ n := by exact_mod_cast hn
  calc (m * 2 ^ e : ℚ) < 2 ^ 53 * 2 ^ e := mul_lt_mul_of_pos_right hm (two_zpow_pos e)
    _ = 2 ^ 52 * 2 ^ (e + 1) := by rw [two_zpow_add]; ring
    _ ≤ 2 ^ 52 * 2 ^ f := mul_le_mul_of_nonneg_left (two_zpow_le h) (by positivity)
    _ ≤ n * 2 ^ f := mul_le_mul_of_nonneg_right hn (two_zpow_pos f).le

lemma compares_magnitudes {m n : Nat} {e f : ℤ} (h : Canonical m e) (h' : Canonical n f) :
    ((compare e f).then (compare m n)).Compares (m * 2 ^ e : ℚ) (n * 2 ^ f) := by
  have he := h.le
  have hf := h'.le
  rcases lt_trichotomy e f with hef | rfl | hef
  · rw [compare_lt_iff_lt.mpr hef]
    exact mul_two_zpow_lt h.lt (h'.full.resolve_left (by omega)) hef
  · rw [compare_eq_iff_eq.mpr rfl]
    change (compare m n).Compares _ _
    rcases lt_trichotomy m n with hmn | rfl | hmn
    · rw [compare_lt_iff_lt.mpr hmn]
      exact mul_lt_mul_of_pos_right (Nat.cast_lt.mpr hmn) (two_zpow_pos e)
    · rw [compare_eq_iff_eq.mpr rfl]
      rfl
    · rw [compare_gt_iff_gt.mpr hmn]
      exact mul_lt_mul_of_pos_right (Nat.cast_lt.mpr hmn) (two_zpow_pos e)
  · rw [compare_gt_iff_gt.mpr hef]
    exact mul_two_zpow_lt h'.lt (h.full.resolve_left (by omega)) hef

lemma compares_neg {o : Ordering} (h : o.Compares p q) : o.swap.Compares (-p) (-q) := by
  cases o
  · exact neg_lt_neg h
  · exact congrArg Neg.neg h
  · exact neg_lt_neg h

lemma Stands.compare (hu : Stands u p) (hv : Stands v q) :
    ∃ o : Ordering, u.compare v = some o ∧ o.Compares p q := by
  have hpos {m : Nat} (hm : 0 < m) (e : ℤ) : (0 : ℚ) < m * 2 ^ e :=
    mul_pos (Nat.cast_pos.mpr hm) (two_zpow_pos e)
  cases hu with
  | zero s =>
    cases hv with
    | zero t => exact ⟨.eq, rfl, rfl⟩
    | @finite t n f hn =>
      have hq := hpos hn f
      cases t
      · exact ⟨.gt, rfl, by simpa [factor] using hq⟩
      · exact ⟨.lt, rfl, by simpa [factor] using hq⟩
  | @finite s m e hm h =>
    have hp := hpos hm e
    cases hv with
    | zero t =>
      cases s
      · exact ⟨.lt, rfl, by simpa [factor] using hp⟩
      · exact ⟨.gt, rfl, by simpa [factor] using hp⟩
    | @finite t n f hn h' =>
      have hq := hpos hn f
      have ho := compares_magnitudes h h'
      cases s <;> cases t
      · exact ⟨_, rfl, by simpa [factor] using compares_neg ho⟩
      · exact ⟨.lt, rfl, by simpa [factor] using (neg_neg_of_pos hp).trans hq⟩
      · exact ⟨.gt, rfl, by simpa [factor] using (neg_neg_of_pos hq).trans hp⟩
      · exact ⟨_, rfl, by simpa [factor] using ho⟩

end Binary64

end FramePool
