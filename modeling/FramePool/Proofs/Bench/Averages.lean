import FramePool.Bench.Summary
import Mathlib.Algebra.Order.BigOperators.Group.List
import Mathlib.Algebra.Order.Ring.Nat

/-! A summary says of its readings what it says of whole numbers. Fewer than `2 ^ 32` readings have a sum
that fits into 64 bits, and their mean fits into 32 again. -/

namespace FramePool

namespace Summary

instance lawfulOrderMax : Std.LawfulOrderMax UInt32 := by
  have hmax : ∀ x y : UInt32, max x y = if x ≤ y then y else x := fun _ _ => rfl
  apply Std.LawfulOrderMax.of_max_le_iff
  · intro x y z
    rw [hmax]
    split_ifs with hle <;> simp only [UInt32.le_iff_toNat_le] at hle ⊢ <;> omega
  · intro x y
    rw [hmax]
    split_ifs
    · exact Or.inr rfl
    · exact Or.inl rfl

structure Describes (s : Summary) (times : List Nat) : Prop where
  mean_eq : s.mean.toNat = times.sum / times.length
  least_mem : s.least.toNat ∈ times
  least_le : ∀ t ∈ times, s.least.toNat ≤ t
  greatest_mem : s.greatest.toNat ∈ times
  le_greatest : ∀ t ∈ times, t ≤ s.greatest.toNat
  least_le_mean : s.least ≤ s.mean
  mean_le_greatest : s.mean ≤ s.greatest

variable {readings : List UInt32}

lemma toNat_le {t : Nat} (ht : t ∈ readings.map UInt32.toNat) : t ≤ UInt32.size - 1 := by
  obtain ⟨r, _, rfl⟩ := List.mem_map.mp ht
  exact Nat.le_sub_one_of_lt r.toNat_lt

lemma sum_le : (readings.map UInt32.toNat).sum ≤ readings.length * (UInt32.size - 1) := by
  have hle := List.sum_le_card_nsmul _ (UInt32.size - 1) fun t (ht : t ∈ readings.map UInt32.toNat) =>
    toNat_le ht
  rwa [List.length_map, Nat.nsmul_eq_mul] at hle

lemma sum_lt (h : readings.length < UInt32.size) : (readings.map UInt32.toNat).sum < UInt64.size :=
  calc (readings.map UInt32.toNat).sum
      ≤ readings.length * (UInt32.size - 1) := sum_le
    _ ≤ UInt32.size * (UInt32.size - 1) := Nat.mul_le_mul_right _ h.le
    _ < UInt64.size := by decide

lemma toNat_foldl_add {sum : UInt64} (h : sum.toNat + (readings.map UInt32.toNat).sum < UInt64.size) :
    (readings.foldl (fun sum x => sum + x.toUInt64) sum).toNat =
      sum.toNat + (readings.map UInt32.toNat).sum := by
  induction readings generalizing sum with
  | nil => rfl
  | cons x readings ih =>
    rw [List.map_cons, List.sum_cons] at h ⊢
    have hadd : (sum + x.toUInt64).toNat = sum.toNat + x.toNat := by
      rw [UInt64.toNat_add, UInt32.toNat_toUInt64]
      exact Nat.mod_eq_of_lt (by change _ < UInt64.size; omega)
    rw [List.foldl_cons, ih (by omega), hadd, Nat.add_assoc]

lemma toNat_total (h : readings.length < UInt32.size) :
    (total readings).toNat = (readings.map UInt32.toNat).sum := by
  have hsum : (0 : UInt64).toNat + (readings.map UInt32.toNat).sum < UInt64.size := by
    simpa using sum_lt h
  rw [total, toNat_foldl_add hsum]
  exact Nat.zero_add _

lemma toNat_mean (h : readings.length < UInt32.size) :
    (total readings / readings.length.toUInt64).toUInt32.toNat =
      (readings.map UInt32.toNat).sum / readings.length := by
  have hlen : readings.length.toUInt64.toNat = readings.length :=
    UInt64.toNat_ofNat_of_lt' (h.trans (by decide))
  rw [UInt64.toNat_toUInt32, UInt64.toNat_div, toNat_total h, hlen]
  apply Nat.mod_eq_of_lt
  change _ < UInt32.size
  exact Nat.lt_of_le_of_lt (Nat.div_le_of_le_mul sum_le) (by decide)

lemma least_spec (x : UInt32) (xs : List UInt32) :
    xs.foldl min x ∈ x :: xs ∧ ∀ y ∈ x :: xs, xs.foldl min x ≤ y :=
  List.min?_eq_some_iff.mp List.min?_cons'

lemma greatest_spec (x : UInt32) (xs : List UInt32) :
    xs.foldl max x ∈ x :: xs ∧ ∀ y ∈ x :: xs, y ≤ xs.foldl max x :=
  List.max?_eq_some_iff.mp List.max?_cons'

lemma ofReadings_describes (h : readings.length < UInt32.size) (hne : readings ≠ []) :
    (ofReadings readings).Describes (readings.map UInt32.toNat) := by
  obtain ⟨x, xs, rfl⟩ := List.exists_cons_of_ne_nil hne
  have hmean := toNat_mean h
  obtain ⟨hleast, hle⟩ := least_spec x xs
  obtain ⟨hgreatest, hge⟩ := greatest_spec x xs
  have hall : ∀ t ∈ (x :: xs).map UInt32.toNat,
      (xs.foldl min x).toNat ≤ t ∧ t ≤ (xs.foldl max x).toNat := by
    intro t ht
    obtain ⟨y, hy, rfl⟩ := List.mem_map.mp ht
    exact ⟨UInt32.le_iff_toNat_le.mp (hle y hy), UInt32.le_iff_toNat_le.mp (hge y hy)⟩
  refine ⟨?_, List.mem_map_of_mem hleast, fun t ht => (hall t ht).1, List.mem_map_of_mem hgreatest,
    fun t ht => (hall t ht).2, ?_, ?_⟩
  · rw [List.length_map]
    exact hmean
  · have hsum := List.card_nsmul_le_sum _ _ fun t ht => (hall t ht).1
    rw [List.length_map, Nat.nsmul_eq_mul] at hsum
    apply UInt32.le_iff_toNat_le.mpr
    apply le_of_le_of_eq ((Nat.le_div_iff_mul_le (Nat.succ_pos _)).mpr ?_) hmean.symm
    rwa [Nat.mul_comm]
  · have hsum := List.sum_le_card_nsmul _ _ fun t ht => (hall t ht).2
    rw [List.length_map, Nat.nsmul_eq_mul] at hsum
    apply UInt32.le_iff_toNat_le.mpr
    exact le_of_eq_of_le hmean (Nat.div_le_of_le_mul hsum)

end Summary

end FramePool
