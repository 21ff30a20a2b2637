import FramePool.Proofs.Binary64.Rounding

/-! Rounding by a whole part, a bit for one half and a bit for the rest is `nearest`. -/

namespace FramePool

namespace Binary64

open Float.Model UnpackedFloat

structure Shows (em : ExtendedMantissa) (x : ℚ) : Prop where
  le : em.mantissa ≤ x
  lt : x < em.mantissa + 1
  roundBit_iff : em.roundBit = true ↔ 1 ≤ 2 * (x - em.mantissa)
  stickyBit_iff : em.stickyBit = true ↔ x - em.mantissa ≠ 0 ∧ 2 * (x - em.mantissa) ≠ 1

namespace Shows

variable {em : ExtendedMantissa} {x : ℚ} {m d : Nat}

lemma floor_eq (h : Shows em x) : ⌊x⌋ = em.mantissa :=
  Int.floor_eq_iff.mpr ⟨by exact_mod_cast h.le, by exact_mod_cast h.lt⟩

lemma fract_eq (h : Shows em x) : Int.fract x = x - em.mantissa := by
  rw [Int.fract, h.floor_eq, Int.cast_natCast]

lemma roundedMantissa_eq (h : Shows em x) : (em.roundedMantissa : ℤ) = halfEven x := by
  unfold halfEven
  rw [h.floor_eq, h.fract_eq]
  obtain ⟨-, -, hr, hs⟩ := h
  obtain ⟨m, r, s⟩ := em
  simp only at hr hs ⊢
  cases r
  · have hlt : 2 * (x - m) < 1 := by simpa using hr
    rw [if_pos hlt]
    cases s <;> rfl
  · have hge : 1 ≤ 2 * (x - m) := hr.mp rfl
    rw [if_neg hge.not_gt]
    cases s
    · have heq : 2 * (x - m) = 1 := by
        by_contra hne
        exact Bool.false_ne_true (hs.mpr ⟨by linarith, hne⟩)
      rw [if_neg heq.le.not_gt]
      rfl
    · rw [if_pos (hge.lt_of_ne (hs.mp rfl).2.symm)]
      rfl

lemma bits_iff (h : Shows em x) : (em.roundBit || em.stickyBit) = true ↔ x - em.mantissa ≠ 0 := by
  rw [Bool.or_eq_true, h.roundBit_iff, h.stickyBit_iff]
  constructor
  · rintro (hr | hs)
    · linarith
    · exact hs.1
  · intro hne
    rcases eq_or_ne (2 * (x - em.mantissa)) 1 with heq | hhalf
    · exact .inl heq.ge
    · exact .inr ⟨hne, hhalf⟩

lemma shiftRightOne (h : Shows em x) : Shows em.shiftRightOne (x / 2) := by
  -- the bit shifted out is the new half, and both bits before go to the new rest
  have hle := h.le
  have hlt := h.lt
  have hbits := h.bits_iff
  have hdiv : (em.mantissa : ℚ) = 2 * (em.mantissa / 2 : Nat) + (em.mantissa % 2 : Nat) := by
    exact_mod_cast (Nat.div_add_mod em.mantissa 2).symm
  rcases Nat.mod_two_eq_zero_or_one em.mantissa with hmod | hmod
  · rw [hmod, Nat.cast_zero] at hdiv
    have hpart : x / 2 - (em.mantissa / 2 : Nat) = (x - em.mantissa) / 2 := by linarith
    refine ⟨?_, ?_, ?_, hbits.trans ?_⟩ <;> simp only [ExtendedMantissa.shiftRightOne, hmod, hpart]
    · linarith
    · linarith
    · simp only [bne_self_eq_false, Bool.false_eq_true, false_iff, not_le]
      linarith
    · exact ⟨fun hne => ⟨fun hz => hne (by linarith), by linarith⟩,
        fun hne hz => hne.1 (by linarith)⟩
  · rw [hmod, Nat.cast_one] at hdiv
    have hpart : x / 2 - (em.mantissa / 2 : Nat) = (1 + (x - em.mantissa)) / 2 := by linarith
    refine ⟨?_, ?_, ?_, hbits.trans ?_⟩ <;> simp only [ExtendedMantissa.shiftRightOne, hmod, hpart]
    · linarith
    · linarith
    · exact iff_of_true rfl (by linarith)
    · exact ⟨fun hne => ⟨by linarith, fun hz => hne (by linarith)⟩,
        fun hne hz => hne.2 (by linarith)⟩

lemma shiftRight (h : Shows em x) (n : Nat) : Shows (em >>> n) (x / 2 ^ n) := by
  induction n with
  | zero => simpa using! h
  | succ n ih =>
    rw [pow_succ, ← div_div]
    exact ih.shiftRightOne

lemma exact (m : Nat) : Shows (.ofMantissaAndAccuracy m .exact) m := by
  constructor <;> norm_num [ExtendedMantissa.ofMantissaAndAccuracy]

lemma inexact {f : ℚ} {o : Ordering} (m : Nat) (h0 : 0 < f) (h1 : f < 1)
    (ho : o.Compares (2 * f) 1) : Shows (.ofMantissaAndAccuracy m (.inexact o)) (m + f) := by
  cases o <;> simp only [Ordering.Compares] at ho <;>
    refine ⟨by simp [ExtendedMantissa.ofMantissaAndAccuracy, h0.le],
      by simp [ExtendedMantissa.ofMantissaAndAccuracy, h1], ?_, ?_⟩ <;>
    simp only [ExtendedMantissa.ofMantissaAndAccuracy, add_sub_cancel_left]
  · exact iff_of_false Bool.false_ne_true ho.not_ge
  · exact iff_of_true trivial ⟨h0.ne', ho.ne⟩
  · exact iff_of_true trivial ho.ge
  · exact iff_of_false Bool.false_ne_true fun h => h.2 ho
  · exact iff_of_true trivial ho.le
  · exact iff_of_true trivial ⟨h0.ne', ho.ne'⟩

lemma fraction (hd : 0 < d) :
    Shows (.ofMantissaAndAccuracy (m / d) (accuracyOfFraction (m % d) d)) (m / d : ℚ) := by
  have hq : (0 : ℚ) < d := by exact_mod_cast hd
  have hm : (m / d : ℚ) = (m / d : Nat) + (m % d : Nat) / d := by
    have hm : (m : ℚ) = d * (m / d : Nat) + (m % d : Nat) := by
      exact_mod_cast (Nat.div_add_mod m d).symm
    field_simp
    exact hm
  rcases eq_or_ne (m % d) 0 with hz | hz
  · simpa [hm, hz, accuracyOfFraction] using exact (m / d)
  · have hlt : ((m % d : Nat) : ℚ) < d := by exact_mod_cast Nat.mod_lt m hd
    have hpos : (0 : ℚ) < (m % d : Nat) := by exact_mod_cast Nat.pos_of_ne_zero hz
    rw [hm, accuracyOfFraction, if_neg hz]
    refine inexact _ (div_pos hpos hq) ((div_lt_one hq).mpr hlt) ?_
    rw [← mul_div_assoc]
    rcases lt_trichotomy (2 * (m % d)) d with h | h | h
    · rw [Nat.compare_eq_lt.mpr h]
      exact (div_lt_one hq).mpr (by exact_mod_cast h)
    · rw [Nat.compare_eq_eq.mpr h]
      exact (div_eq_one_iff_eq hq.ne').mpr (by exact_mod_cast h)
    · rw [Nat.compare_eq_gt.mpr h]
      exact (one_lt_div hq).mpr (by exact_mod_cast h)

end Shows

def factor : Sign → ℚ
  | .positive => 1
  | .negative => -1

/-- A mantissa and an exponent as they are packed: only with the least exponent may the first bit be
missing. -/
structure Canonical (m : Nat) (e : ℤ) : Prop where
  lt : m < 2 ^ 53
  le : -1074 ≤ e
  full : e = -1074 ∨ 2 ^ 52 ≤ m

inductive Stands : UnpackedFloat → ℚ → Prop
  | zero (s : Sign) : Stands (.zero s) 0
  | finite (s : Sign) {m : Nat} {e : ℤ} (hm : 0 < m) (h : Canonical m e) :
      Stands (.finite s m e hm) (factor s * (m * 2 ^ e))

lemma targetExponent_eq (k : ℤ) : Format.binary64.targetExponent k = max (k - 53) (-1074) := rfl

section

variable {m : Nat} {e : ℤ} {a : Accuracy} {x : ℚ}

lemma two_pow_log2_le {m : Nat} (hm : m ≠ 0) : (2 : ℚ) ^ (m.log2 : ℤ) ≤ m := by
  exact_mod_cast Nat.log2_self_le hm

lemma lt_two_pow_log2 (m : Nat) : (m + 1 : ℚ) ≤ 2 ^ (m.log2 + 1 : ℤ) := by
  exact_mod_cast Nat.lt_log2_self

@[simp] lemma mantissa_ofMantissaAndAccuracy (m : Nat) (a : Accuracy) :
    (ExtendedMantissa.ofMantissaAndAccuracy m a).mantissa = m := by
  rcases a with _ | (_ | _ | _) <;> rfl

lemma Shows.targetExponent_of_pos (h : Shows (.ofMantissaAndAccuracy m a) x) (hm : 0 < m) :
    Format.binary64.targetExponent (totalExponent m e) = lastPlace (x * 2 ^ e) := by
  have hle := h.le
  have hlt := h.lt
  rw [mantissa_ofMantissaAndAccuracy] at hle hlt
  have hx : 0 < x := (Nat.cast_pos.mpr hm).trans_le hle
  have hq : 0 < x * 2 ^ e := mul_pos hx (two_zpow_pos e)
  rw [targetExponent_eq, totalExponent]
  symm
  refine lastPlace_eq hq.ne' (le_max_right ..) ?_ ?_ <;> rw [abs_of_pos hq]
  · calc x * 2 ^ e < 2 ^ (m.log2 + 1 : ℤ) * 2 ^ e :=
          mul_lt_mul_of_pos_right (hlt.trans_le (lt_two_pow_log2 m)) (two_zpow_pos e)
      _ = 2 ^ (m.log2 + 1 + e : ℤ) := (two_zpow_add ..).symm
      _ ≤ _ := two_zpow_le (by omega)
  · rcases le_total (m.log2 + 1 + e - 53 : ℤ) (-1074) with hmin | hmin
    · exact .inl (max_eq_right hmin)
    · refine .inr ?_
      calc (2 : ℚ) ^ (max (m.log2 + 1 + e - 53 : ℤ) (-1074) + 52) = 2 ^ (m.log2 : ℤ) * 2 ^ e := by
            rw [max_eq_left hmin, ← two_zpow_add]
            congr 1
            omega
        _ ≤ x * 2 ^ e := mul_le_mul_of_nonneg_right
            ((two_pow_log2_le hm.ne').trans hle) (two_zpow_pos e).le

lemma Shows.targetExponent_of_zero (h : Shows (.ofMantissaAndAccuracy 0 a) x) (hx : 0 < x)
    (he : e ≤ lastPlace (x * 2 ^ e)) :
    Format.binary64.targetExponent (totalExponent 0 e) = lastPlace (x * 2 ^ e) := by
  have hq : 0 < x * 2 ^ e := mul_pos hx (two_zpow_pos e)
  have hlt : x < 1 := by simpa using h.lt
  have hsmall : x * 2 ^ e < 1 * 2 ^ e := mul_lt_mul_of_pos_right hlt (two_zpow_pos e)
  have hmin : lastPlace (x * 2 ^ e) = -1074 := by
    by_contra hne
    have hge := two_zpow_lastPlace_le hq.ne' hne
    have hle := two_zpow_le (show e ≤ lastPlace (x * 2 ^ e) + 52 by omega)
    rw [abs_of_pos hq] at hge
    linarith
  rw [targetExponent_eq, totalExponent, hmin, Nat.log2_zero]
  omega

lemma shiftToTargetExponent_exact (hm : m ≤ 2 ^ 53) (he : -1074 ≤ e) :
    m < 2 ^ 53 ∧ shiftToTargetExponent .binary64 m e .exact = (⟨m, false, false⟩, e) ∨
      m = 2 ^ 53 ∧
        shiftToTargetExponent .binary64 m e .exact = (⟨2 ^ 52, false, false⟩, e + 1) := by
  rw [shiftToTargetExponent, shiftToExponent, targetExponent_eq, totalExponent]
  rcases hm.lt_or_eq with hm | rfl
  · left
    have hlog : m.log2 ≤ 52 := by
      rcases eq_or_ne m 0 with rfl | hz
      · simp
      · exact Nat.lt_succ_iff.mp ((Nat.log2_lt hz).mpr hm)
    have hz : (max (m.log2 + 1 + e - 53 : ℤ) (-1074) - e).toNat = 0 := by omega
    rw [hz, Int.ofNat_zero, add_zero]
    exact ⟨hm, rfl⟩
  · right
    have hone : (max ((2 ^ 53 : Nat).log2 + 1 + e - 53 : ℤ) (-1074) - e).toNat = 1 := by
      rw [Nat.log2_two_pow]
      omega
    rw [hone]
    exact ⟨rfl, rfl⟩

lemma Canonical.stands (h : Canonical m e) (s : Sign) :
    Stands (if h : m = 0 then .zero s else .finite s m e (Nat.pos_of_ne_zero h))
      (factor s * (m * 2 ^ e)) := by
  by_cases hz : m = 0
  · rw [dif_pos hz]
    simpa [hz] using Stands.zero s
  · rw [dif_neg hz]
    exact .finite s _ h

lemma Shows.stands_roundWithAccuracy (h : Shows (.ofMantissaAndAccuracy m a) x) (hx : 0 < x)
    (s : Sign) (he : e ≤ lastPlace (x * 2 ^ e)) :
    Stands (roundWithAccuracy .binary64 s m e a) (factor s * nearest (x * 2 ^ e)) := by
  have hq : 0 < x * 2 ^ e := mul_pos hx (two_zpow_pos e)
  have ht : Format.binary64.targetExponent (totalExponent m e) = lastPlace (x * 2 ^ e) := by
    rcases Nat.eq_zero_or_pos m with rfl | hm
    · exact h.targetExponent_of_zero hx he
    · exact h.targetExponent_of_pos hm
  have hmin := le_lastPlace (x * 2 ^ e)
  have hle := significand_le hq
  have hnormal := le_significand hq
  unfold nearest
  unfold significand at *
  generalize lastPlace (x * 2 ^ e) = t at *
  have hpow : (2 : ℚ) ^ t = 2 ^ (t - e).toNat * 2 ^ e := by
    rw [← zpow_natCast, Int.toNat_of_nonneg (by omega), ← two_zpow_add, sub_add_cancel]
  have hround := (h.shiftRight (t - e).toNat).roundedMantissa_eq
  rw [← mul_div_mul_right x _ (two_zpow_pos e).ne', ← hpow] at hround
  have hfirst : shiftToTargetExponent .binary64 m e a =
      (ExtendedMantissa.ofMantissaAndAccuracy m a >>> (t - e).toNat, t) := by
    rw [shiftToTargetExponent, shiftToExponent, ht, Int.toNat_of_nonneg (by omega), add_sub_cancel]
  rw [roundWithAccuracy, hfirst]
  dsimp only
  rw [← hround] at hle hnormal ⊢
  generalize (ExtendedMantissa.ofMantissaAndAccuracy m a >>> (t - e).toNat).roundedMantissa = r at *
  have hle : r ≤ 2 ^ 53 := by exact_mod_cast hle
  have hnormal : t = -1074 ∨ 2 ^ 52 ≤ r := by exact_mod_cast hnormal
  rw [Int.cast_natCast]
  rcases shiftToTargetExponent_exact hle hmin with ⟨hr, hs⟩ | ⟨rfl, hs⟩ <;> rw [hs]
  · exact Canonical.stands ⟨hr, hmin, hnormal⟩ s
  · have hsame : ((2 ^ 53 : Nat) : ℚ) * 2 ^ t = (2 ^ 52 : Nat) * 2 ^ (t + 1) := by
      rw [two_zpow_add]
      norm_num
      ring
    rw [hsame]
    exact Canonical.stands ⟨by norm_num, by omega, .inr le_rfl⟩ s

end

end Binary64

end FramePool
