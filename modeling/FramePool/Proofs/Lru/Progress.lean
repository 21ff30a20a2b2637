import FramePool.Proofs.Lru.Scan
import Mathlib.Algebra.BigOperators.Group.Finset.Basic
import Mathlib.Algebra.BigOperators.Ring.Finset
import Mathlib.Algebra.Order.BigOperators.Group.Finset

/-! No scan is idle while frames are resident: each one evicts a frame, takes an access bit away or makes
a frame older. -/

namespace FramePool

lemma Bitmap.count_sift (b : Bitmap) (cs : List Cell) :
    (b.sift cs).bits.count + (b.sift cs).promoted.length = b.count := by
  induction cs generalizing b with
  | nil => rfl
  | cons c cs ih =>
    rw [Bitmap.sift]
    split
    · rename_i hm
      have hu := b.count_unmark c.id hm
      have := ih (b.unmark c.id)
      simp only [List.length_cons]
      omega
    · exact ih b

namespace Lru

variable {l l' : Lru} {budget : Nat}

def accessBits (l : Lru) : Nat := (l.generations.toList.map fun g => g.accessed.count).sum

def distance (l : Lru) : Nat :=
  ∑ g ∈ Finset.range l.generations.size, (l.generations.size - g) * (l.cells g).length

/-- A promotion makes a frame one step younger at the price of a bit, so a bit is worth two steps.
A single generation has no younger one. -/
def potential (l : Lru) : Nat := l.distance + min l.generations.size 2 * l.accessBits

lemma accessBits_eq (l : Lru) :
    l.accessBits = ∑ g ∈ Finset.range l.generations.size, (l.bitmap g).count := by
  change _ = ((List.range l.generations.size).map fun g => (l.bitmap g).count).sum
  rw [accessBits]
  congr 1
  apply List.ext_getElem (by simp)
  intro g hg _
  obtain ⟨gen, he⟩ := exists_generation (l := l) (g := g) (by simpa using hg)
  obtain ⟨_, rfl⟩ := Array.getElem?_eq_some_iff.mp he
  simp [bitmap_of_getElem? he]

namespace Coherent

lemma resident_eq_sum (h : l.Coherent) :
    l.resident = ∑ g ∈ Finset.range l.generations.size, (l.cells g).length := by
  change _ = ((List.range l.generations.size).map fun g => (l.cells g).length).sum
  rw [h.resident_eq, h.sound.order_eq, List.length_flatMap]
  simp only [length_ids]

lemma resident_le_distance (h : l.Coherent) : l.resident ≤ l.distance := by
  rw [h.resident_eq_sum, distance]
  apply Finset.sum_le_sum
  intro g hg
  exact Nat.le_mul_of_pos_left _ (Nat.sub_pos_of_lt (Finset.mem_range.mp hg))

lemma distance_le (h : l.Coherent) : l.distance ≤ l.generations.size * l.resident := by
  rw [distance, h.resident_eq_sum, Finset.mul_sum]
  exact Finset.sum_le_sum fun g _ => Nat.mul_le_mul_right _ (Nat.sub_le _ _)

lemma potential_le (h : l.Coherent) :
    l.potential ≤ l.generations.size * (l.resident + l.accessBits) := by
  have hb : min l.generations.size 2 * l.accessBits ≤ l.generations.size * l.accessBits :=
    Nat.mul_le_mul_right _ (Nat.min_le_left _ _)
  rw [potential, Nat.mul_add]
  exact Nat.add_le_add h.distance_le hb

end Coherent

lemma sum_shift (n : Nat) (f : Nat → Nat) :
    (∑ g ∈ Finset.range (n + 1), (n + 1 - g) *
      ((if g = 0 then 0 else f (g - 1)) + if g = n then f n else 0)) +
      ∑ g ∈ Finset.range n, f g = ∑ g ∈ Finset.range (n + 1), (n + 1 - g) * f g := by
  have hlast : ∑ g ∈ Finset.range (n + 1), (n + 1 - g) * (if g = n then f n else 0) = f n := by
    rw [Finset.sum_range_succ, Finset.sum_eq_zero]
    · simp
    · intro g hg
      have := Finset.mem_range.mp hg
      rw [if_neg (by omega), Nat.mul_zero]
  have hstep : ∀ g ∈ Finset.range n, (n + 1 - g) * f g = (n - g) * f g + f g := by
    intro g hg
    have := Finset.mem_range.mp hg
    rw [show n + 1 - g = n - g + 1 by omega, Nat.succ_mul]
  simp only [Nat.mul_add, Finset.sum_add_distrib]
  rw [hlast, Finset.sum_range_succ', Finset.sum_range_succ, Finset.sum_congr rfl hstep,
    Finset.sum_add_distrib]
  simp
  omega

lemma Aged.distance_add (h : Aged l l') (hl : l.Coherent) :
    l'.distance + l.resident = l.distance + (l.cells l.oldest).length := by
  have hn := hl.size_eq_succ
  have hlen : ∀ g ∈ Finset.range (l.oldest + 1), (l'.cells g).length =
      (if g = 0 then 0 else (l.cells (g - 1)).length) +
        if g = l.oldest then (l.cells l.oldest).length else 0 := by
    intro g hg
    have := Finset.mem_range.mp hg
    rw [← length_ids, h.ids_eq, older, if_neg (by omega), List.length_append]
    split_ifs <;> simp
  have hsum := sum_shift l.oldest fun g => (l.cells g).length
  rw [hl.resident_eq_sum, distance, distance, h.size_eq, hn,
    Finset.sum_range_succ (fun g => (l.cells g).length), ← hsum,
    Finset.sum_congr rfl fun g hg => congrArg ((l.oldest + 1 - g) * ·) (hlen g hg)]
  omega

lemma Aged.accessBits_eq (h : Aged l l') : l'.accessBits = 0 := by
  rw [Lru.accessBits_eq]
  refine Finset.sum_eq_zero fun g _ => ?_
  rw [h.bitmap_eq, Bitmap.count_wipe]

lemma Aged.potential_le (h : Aged l l') (hl : l.Coherent) : l'.potential ≤ l.potential := by
  have hd := h.distance_add hl
  have hle := hl.length_le l.oldest
  rw [potential, potential, h.accessBits_eq, Nat.mul_zero]
  omega

lemma Sifts.accessBits_add {xs ys : List Cell} {r : Sifted} (hs : Sifts l l' xs ys r)
    (h : l.Coherent) (hr : r.bits.count + r.promoted.length = (l.bitmap l.oldest).count) :
    l'.accessBits + r.promoted.length = l.accessBits := by
  have hother : ∀ g ∈ Finset.range l.oldest, (l'.bitmap g).count = (l.bitmap g).count := by
    intro g hg
    rw [hs.bitmap_eq, Function.update_of_ne (Finset.mem_range.mp hg).ne]
  have hlast : l'.bitmap l.oldest = r.bits := by rw [hs.bitmap_eq, Function.update_self]
  rw [accessBits_eq, accessBits_eq, hs.size_eq, h.size_eq_succ, Finset.sum_range_succ,
    Finset.sum_range_succ, Finset.sum_congr rfl hother, hlast]
  omega

lemma Sifts.distance_add {xs : List Cell} {r : Sifted} (hs : Sifts l l' xs [] r) (h : l.Coherent)
    (hlen : (l.cells l.oldest).length = xs.length + (r.evicted.length + r.promoted.length)) :
    l'.distance + r.evicted.length + r.promoted.length =
      l.distance + min l.generations.size 2 * r.promoted.length := by
  have hn := h.size_eq_succ
  have ho := hs.oldest_eq
  rw [distance, distance, hs.size_eq, hn]
  cases hm : l.oldest with
  | zero =>
    rw [hm] at ho hlen
    simp [ho, hlen]
    omega
  | succ m =>
    obtain ⟨moved, hc, hids⟩ := hs.younger (by omega)
    rw [hm] at ho hlen hc
    have hyounger : (l'.cells m).length = r.promoted.length + (l.cells m).length := by
      have hmoved : moved.length = r.promoted.length := by simpa using congrArg List.length hids
      rw [Nat.add_sub_cancel] at hc
      rw [hc, List.length_append, hmoved]
    have hother : ∀ g ∈ Finset.range m, (m + 1 + 1 - g) * (l'.cells g).length =
        (m + 1 + 1 - g) * (l.cells g).length := by
      intro g hg
      have := Finset.mem_range.mp hg
      rw [hs.other g (by omega) (by omega)]
    simp only [Finset.sum_range_succ, Finset.sum_congr rfl hother, ho, hlen, hyounger]
    simp [show m + 1 + 1 - m = 2 by omega]
    omega

lemma Sifts.potential_add (hs : Sifts l l' (l.unexamined budget) [] (l.verdict budget))
    (h : l.Coherent) : l'.potential + (l.candidates budget).length = l.potential := by
  have hlen := (l.bitmap l.oldest).length_sift (l.candidates budget)
  have hcells := congrArg List.length (unexamined_append_candidates l budget)
  rw [List.length_append, List.length_reverse] at hcells
  have hb := hs.accessBits_add h (Bitmap.count_sift _ _)
  have hd := hs.distance_add h (by rw [← hcells, verdict, hlen])
  rw [potential, potential, hs.size_eq, ← hb, Nat.mul_add]
  simp only [verdict] at hd ⊢
  omega

lemma Consistent.scan_progress (h : l.Consistent) (hb : 0 < budget) (hr : 0 < l.resident) :
    ∃ s l', l.scan budget = .ok (s, l') ∧ l'.potential < l.potential := by
  by_cases he : l.cells l.oldest = []
  · obtain ⟨l', hsc, _, hag⟩ := h.scan_of_empty he budget
    refine ⟨_, l', hsc, ?_⟩
    have hd := hag.distance_add h.toCoherent
    rw [he, List.length_nil] at hd
    rw [potential, potential, hag.accessBits_eq, Nat.mul_zero]
    omega
  · obtain ⟨l₁, l', s, hsc, _, hs⟩ := h.scan_of_ne_nil he budget
    refine ⟨s, l', hsc, ?_⟩
    have hlen := List.length_pos_of_ne_nil he
    have hp := hs.sifts.potential_add h.toCoherent
    rw [length_candidates] at hp
    have hle : l'.potential ≤ l₁.potential := by
      have hr := hs.refilled
      split_ifs at hr
      · exact hr.potential_le hs.swept
      · rw [hr]
    omega

end Lru

end FramePool
