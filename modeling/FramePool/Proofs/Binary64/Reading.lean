import FramePool.Proofs.Binary64.Arithmetic
import Mathlib

/-! What a double reads as, and what the operations on doubles read as. -/

namespace FramePool

namespace Binary64

open Float.Model UnpackedFloat

section packing

variable {u : UnpackedFloat} {q : ℚ} {s : Sign} {m : Nat} {e : ℤ}

lemma Canonical.exponent_le (h : Canonical m e) (hq : |factor s * (m * 2 ^ e)| < 2 ^ (1024 : ℤ)) :
    e ≤ 971 := by
  by_contra! hlarge
  have hm : (2 : ℚ) ^ (52 : ℤ) ≤ m := by exact_mod_cast h.full.resolve_left (by omega)
  rw [abs_mul, abs_factor, one_mul, abs_mul, Nat.abs_cast, abs_of_pos (two_zpow_pos e)] at hq
  have hge : (2 : ℚ) ^ (1024 : ℤ) ≤ m * 2 ^ e := by
    calc (2 : ℚ) ^ (1024 : ℤ) ≤ 2 ^ (52 + e) := two_zpow_le (by omega)
      _ = 2 ^ (52 : ℤ) * 2 ^ e := two_zpow_add ..
      _ ≤ m * 2 ^ e := mul_le_mul_of_nonneg_right hm (two_zpow_pos e).le
  exact hq.not_ge hge

lemma toNat_implicit_append (m : Nat) (h : 2 ^ 52 ≤ m) (h' : m < 2 ^ 53) :
    (1#1 ++ BitVec.ofNat 52 m).toNat = m := by
  rw [BitVec.toNat_append, ← Nat.shiftLeft_add_eq_or_of_lt (BitVec.isLt _), BitVec.toNat_ofNat,
    Nat.shiftLeft_eq]
  simp only [BitVec.toNat_ofNat]
  omega

lemma unpack_packComponents_normal {b : Nat} (h : 2 ^ 52 ≤ m) (h' : m < 2 ^ 53) (hb : 0 < b)
    (hb' : b < 2047) :
    UnpackedFloat.unpack .binary64 (packComponents .binary64 s (.ofNat _ b) (.ofNat _ m)) =
      .finite s m (b - 1075) (by omega) := by
  have hexp : (BitVec.ofNat 11 b).toNat = b := by
    rw [BitVec.toNat_ofNat]
    omega
  have hz : BitVec.ofNat 11 b ≠ 0#11 := fun he => by
    have := congrArg BitVec.toNat he
    rw [hexp] at this
    simp at this
    omega
  have hones : BitVec.ofNat 11 b ≠ -1#11 := fun he => by
    have := congrArg BitVec.toNat he
    rw [hexp] at this
    simp at this
    omega
  rw [UnpackedFloat.unpack]
  simp only [unpackMantissa_packComponents, unpackExponent_packComponents,
    unpackSign_packComponents, Sign.ofBitVec_toBitVec]
  rw [if_neg hones, if_neg hz]
  congr 1
  · exact toNat_implicit_append m h h'
  · exact congrArg (fun k : Nat => (k : ℤ) - 1075) hexp

lemma unpack_packComponents_subnormal (h : 0 < m) (h' : m < 2 ^ 52) :
    UnpackedFloat.unpack .binary64 (packComponents .binary64 s 0 (.ofNat _ m)) =
      .finite s m (-1074) h := by
  have hm : (BitVec.ofNat 52 m).toNat = m := by
    rw [BitVec.toNat_ofNat]
    omega
  have hz : BitVec.ofNat 52 m ≠ 0#52 := fun he => by
    have := congrArg BitVec.toNat he
    rw [hm] at this
    simp at this
    omega
  rw [UnpackedFloat.unpack]
  simp only [unpackMantissa_packComponents, unpackExponent_packComponents,
    unpackSign_packComponents, Sign.ofBitVec_toBitVec]
  rw [if_neg (show (0 : BitVec 11) ≠ -1#11 by decide),
    if_pos (show (0 : BitVec 11) = 0#11 from rfl), dif_neg hz]
  congr 1

lemma pack_finite (s : Sign) (hm : 0 < m) : UnpackedFloat.pack .binary64 (.finite s m e hm) =
    if 2 ^ 11 ≤ (e + 1023 + 52).toNat + 1 then packedInfinity .binary64 s
    else if m.log2 + 1 = 53 then
      packComponents .binary64 s (.ofNat _ (e + 1023 + 52).toNat) (.ofNat _ m)
    else packComponents .binary64 s 0 (.ofNat _ m) :=
  rfl

lemma Stands.unpack_pack (hu : Stands u q) (hq : |q| < 2 ^ (1024 : ℤ)) :
    (Float.Model.pack u).unpack = u := by
  change UnpackedFloat.unpack .binary64 (UnpackedFloat.pack .binary64 u) = u
  cases hu with
  | zero s => cases s <;> rfl
  | @finite s m e hm h =>
    have hmax := h.exponent_le hq
    have hmin := h.le
    have hbits := (Nat.log2_lt hm.ne').mpr h.lt
    rw [pack_finite, if_neg (by omega)]
    rcases le_or_gt (2 ^ 52) m with hfull | hless
    · have hge := (Nat.le_log2 hm.ne').mpr hfull
      rw [if_pos (by omega), unpack_packComponents_normal hfull h.lt (by omega) (by omega)]
      congr 1
      omega
    · have hlt := (Nat.log2_lt hm.ne').mpr hless
      obtain rfl : e = -1074 := h.full.resolve_right (by omega)
      rw [if_neg (by omega), unpack_packComponents_subnormal hm hless]

end packing

section conversions

lemma toNat_ofNatClamp (n : Nat) : (UInt64.ofNatClamp n).toNat = min n (UInt64.size - 1) := by
  unfold UInt64.ofNatClamp
  split
  · rw [min_eq_left (by omega)]
    rfl
  · rw [min_eq_right (by omega)]
    rfl

lemma roundToInt_positive (m : Nat) (e : ℤ) : roundToInt .positive m e = ⌊(m * 2 ^ e : ℚ)⌋ := by
  have hvalue := decreaseExponent_value m e 0
  have hle := decreaseExponent_snd_le m e 0
  rw [roundToInt]
  generalize decreaseExponent m e 0 = d at *
  have hshift := (Shows.exact d.1).shiftRight (0 - d.2).toNat
  have hpow : (2 : ℚ) ^ d.2 = (2 ^ (0 - d.2).toNat)⁻¹ := by
    rw [← zpow_natCast, Int.toNat_of_nonneg (by omega), ← zpow_neg, zero_sub, neg_neg]
  rw [← hvalue, hpow, ← div_eq_mul_inv, hshift.floor_eq]
  rfl

lemma abs_natCast_le {n : Nat} (h : n < 2 ^ 64) : |(n : ℚ)| ≤ 2 ^ (64 : ℤ) := by
  rw [Nat.abs_cast]
  exact_mod_cast h.le

lemma ofScientific_eq {n : Nat} (hn : n ≠ 0) : UnpackedFloat.ofScientific .binary64 n 0 =
    roundWithAccuracy .binary64 .positive (n <<< Format.binary64.mantissaBits * 1)
      (-Format.binary64.mantissaBits + 0) .exact := by
  have h₁ : ¬(0 : ℤ) > 2 ^ Format.binary64.exponentBits := by decide
  have h₂ : ¬(0 : ℤ) < -(2 ^ Format.binary64.exponentBits + n.log2) := by
    have : (0 : ℤ) ≤ 2 ^ Format.binary64.exponentBits + n.log2 := by positivity
    omega
  exact (dif_neg hn).trans ((if_neg h₁).trans ((if_neg h₂).trans (if_pos le_rfl)))

end conversions

/-- A finite double; infinities and what is no number read as nothing. -/
def Reads (x : Float) (q : ℚ) : Prop := Stands x.toModel.unpack q

namespace Reads

variable {x y : Float} {p q : ℚ} {k : ℤ}

lemma unique (hp : Reads x p) (hq : Reads x q) : p = q := Stands.unique hp hq

lemma nearest_eq (h : Reads x q) : nearest q = q := Stands.nearest_eq h

lemma of_pack {u : UnpackedFloat} (hu : Stands u (nearest q)) (h : |q| ≤ 2 ^ k) (hk : k ≤ 1023) :
    Reads (.ofModel (.pack u)) (nearest q) := by
  have hq : |nearest q| ≤ 2 ^ (1023 : ℤ) :=
    abs_nearest_le_two_zpow (by norm_num) (h.trans (two_zpow_le hk))
  unfold Reads
  rw [hu.unpack_pack (hq.trans_lt (zpow_lt_zpow_right₀ one_lt_two (by norm_num)))]
  exact hu

lemma add (hx : Reads x p) (hy : Reads y q) (h : |p + q| ≤ 2 ^ k) (hk : k ≤ 1023) :
    Reads (x + y) (nearest (p + q)) :=
  of_pack (Stands.add hx hy) h hk

lemma sub (hx : Reads x p) (hy : Reads y q) (h : |p - q| ≤ 2 ^ k) (hk : k ≤ 1023) :
    Reads (x - y) (nearest (p - q)) :=
  of_pack (Stands.sub hx hy) h hk

lemma mul (hx : Reads x p) (hy : Reads y q) (h : |p * q| ≤ 2 ^ k) (hk : k ≤ 1023) :
    Reads (x * y) (nearest (p * q)) :=
  of_pack (Stands.mul hx hy) h hk

lemma div (hx : Reads x p) (hy : Reads y q) (hq : q ≠ 0) (h : |p / q| ≤ 2 ^ k) (hk : k ≤ 1023) :
    Reads (x / y) (nearest (p / q)) :=
  of_pack (Stands.div hx hy hq) h hk

lemma neg (hx : Reads x p) (h : |p| ≤ 2 ^ k) (hk : k ≤ 1023) : Reads (-x) (-p) := by
  have hs := Stands.neg hx
  have hn := hs.nearest_eq
  rw [← hn] at hs ⊢
  exact of_pack hs ((abs_neg p).trans_le h) hk

lemma lt_iff (hx : Reads x p) (hy : Reads y q) : x < y ↔ p < q := by
  obtain ⟨o, ho, hc⟩ := Stands.compare hx hy
  rw [← hc.eq_lt]
  change decide ((x.toModel.unpack.compare y.toModel.unpack == some .lt) = true) = true ↔ _
  rw [ho]
  cases o <;> decide

lemma le_iff (hx : Reads x p) (hy : Reads y q) : x ≤ y ↔ p ≤ q := by
  obtain ⟨o, ho, hc⟩ := Stands.compare hx hy
  rw [← hc.ne_gt]
  change decide (((x.toModel.unpack.compare y.toModel.unpack).any Ordering.isLE) = true) = true ↔ _
  rw [ho]
  cases o <;> decide

lemma toNat_toUInt64 (hx : Reads x q) (hq : 0 ≤ q) :
    x.toUInt64.toNat = min ⌊q⌋.toNat (UInt64.size - 1) := by
  change (UInt64.ofNatClamp
    (UnpackedFloat.toInt 0 (UInt64.size - 1) x.toModel.unpack).toNat).toNat = _
  rw [toNat_ofNatClamp]
  unfold Reads at hx
  generalize x.toModel.unpack = u at hx
  cases hx with
  | zero s => rfl
  | @finite s m e hm =>
    cases s
    · have hpos : (0 : ℚ) < m * 2 ^ e := mul_pos (Nat.cast_pos.mpr hm) (two_zpow_pos e)
      simp only [factor] at hq
      linarith
    · rw [UnpackedFloat.toInt, roundToInt_positive]
      simp [factor]

lemma of_unpack (m : Nat) (e : ℤ) (hm : 2 ^ 52 ≤ m ∧ m < 2 ^ 53) (he : -1074 ≤ e)
    (hu : x.toModel.unpack = .finite .positive m e (by omega)) (hq : (m * 2 ^ e : ℚ) = q) :
    Reads x q := by
  have h := Stands.finite .positive (by omega) ⟨hm.2, he, .inr hm.1⟩
  rwa [← hu, factor, one_mul, hq] at h

lemma zero : Reads 0 0 := Stands.zero .positive

lemma one : Reads 1 1 := of_unpack (2 ^ 52) (-52) (by norm_num) (by norm_num) rfl (by norm_num)

lemma two_mul (hx : Reads x q) (h : |q| ≤ 2 ^ k) (hk : k ≤ 1022) : Reads (2 * x) (2 * q) := by
  have htwo : Reads 2 2 := of_unpack (2 ^ 52) (-51) (by norm_num) (by norm_num) rfl (by norm_num)
  have hq : |2 * q| ≤ 2 ^ (k + 1) := by
    rw [abs_mul, abs_two, two_zpow_add, zpow_one]
    linarith
  have hr := htwo.mul hx hq (by omega)
  rwa [Stands.nearest_two_mul hx] at hr

lemma toFloat (n : UInt64) : Reads n.toFloat (nearest n.toNat) := by
  have h := stands_normalize .positive (e := 0) n.toNat
  rw [zpow_zero, mul_one] at h
  exact of_pack h (abs_natCast_le n.toNat_lt) (by norm_num)

lemma ofNat_of_lt {n : Nat} (h : n < 2 ^ 53) : Reads (Float.ofNat n) (nearest n) := by
  have heq : Float.ofNat n = n.toUInt64.toFloat * 1 := by
    change Float.ofScientific n false 0 = _
    rw [Float.ofScientific, dif_pos ⟨h, by norm_num⟩]
    rfl
  have hn : n.toUInt64.toNat = n := by simp; omega
  have hrep : nearest n = n := by
    have hm : |(n : ℤ)| < 2 ^ 53 := by
      rw [Nat.abs_cast]
      exact_mod_cast h
    simpa using nearest_of_representable hm (e := 0) (by norm_num)
  have h₁ := toFloat n.toUInt64
  rw [hn, hrep] at h₁
  have h₂ := h₁.mul one (k := 64) (by rw [mul_one]; exact abs_natCast_le (by omega)) (by norm_num)
  rw [mul_one] at h₂
  rwa [heq]

lemma ofNat_of_le {n : Nat} (h : 2 ^ 53 ≤ n) (h' : n < 2 ^ 64) :
    Reads (Float.ofNat n) (nearest n) := by
  have hfull : 2 ^ 52 ≤ n <<< 53 := by
    rw [Nat.shiftLeft_eq]
    omega
  have heq : Float.ofNat n = .ofModel (.pack (.ofScientific .binary64 n 0)) := by
    change Float.ofScientific n false 0 = _
    rw [Float.ofScientific, dif_neg (by omega)]
    rfl
  have hs := stands_roundWithAccuracy_exact .positive (show 0 < n <<< 53 by omega) (e := -53)
    (le_lastPlace_of_normal (.inr hfull))
  have hval : ((n <<< 53 : Nat) * 2 ^ (-53 : ℤ) : ℚ) = n := by
    rw [Nat.shiftLeft_eq, Nat.cast_mul, mul_assoc]
    norm_num
  rw [hval, factor, one_mul] at hs
  have hbits : Format.binary64.mantissaBits = 53 := rfl
  rw [heq, ofScientific_eq (by omega), hbits, mul_one, add_zero]
  exact of_pack hs (abs_natCast_le h') (by norm_num)

lemma ofNat {n : Nat} (h : n < 2 ^ 64) : Reads (Float.ofNat n) (nearest n) :=
  (lt_or_ge n (2 ^ 53)).elim ofNat_of_lt fun h' => ofNat_of_le h' h

end Reads

end Binary64

end FramePool
