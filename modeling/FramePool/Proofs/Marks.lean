import FramePool.Bitmap
import Mathlib.Data.Finset.Card
import Mathlib.Data.Finset.Range
import Mathlib.Tactic.Common

/-! Which frames are marked after a change of the access bits, and how many bits are set. -/

namespace FramePool

lemma modify_comm {α : Type} (xs : Array α) {f g : α → α} {i j : Nat}
    (h : ∀ a, i = j → f (g a) = g (f a)) : (xs.modify i f).modify j g = (xs.modify j g).modify i f := by
  apply Array.ext_getElem?
  intro k
  simp only [Array.getElem?_modify]
  by_cases hi : i = k
  · by_cases hj : j = k
    · rw [if_pos hi, if_pos hj, if_pos hi, if_pos hj, Option.map_map, Option.map_map]
      congr 1
      funext a
      exact (h a (hi.trans hj.symm)).symm
    · simp only [if_neg hj]
  · simp only [if_neg hi]

lemma modify_modify {α : Type} (xs : Array α) {f : α → α} {i : Nat} (h : ∀ a, f (f a) = f a) :
    (xs.modify i f).modify i f = xs.modify i f := by
  apply Array.ext_getElem?
  intro k
  simp only [Array.getElem?_modify]
  by_cases hi : i = k
  · rw [if_pos hi, if_pos hi, Option.map_map]
    congr 1
    funext a
    exact h a
  · simp only [if_neg hi]

namespace Bitmap

def bit (b : Bitmap) (id : FrameId) : Nat := id % (64 * b.size)

def count (b : Bitmap) : Nat := ((Finset.range (64 * b.size)).filter fun id => b.marked id).card

variable (b : Bitmap) (i j : Nat)

lemma bit_eq_iff : b.bit i = b.bit j ↔ b.wordOf i = b.wordOf j ∧ i % 64 = j % 64 := by
  have hi := Nat.mod_lt i (show 64 > 0 by decide)
  have hj := Nat.mod_lt j (show 64 > 0 by decide)
  simp only [bit, Nat.mod_mul]
  change i % 64 + 64 * b.wordOf i = j % 64 + 64 * b.wordOf j ↔ _
  constructor
  · intro he
    constructor <;> omega
  · rintro ⟨hw, hb⟩
    rw [hw, hb]

lemma bit_bit : b.bit (b.bit i) = b.bit i := Nat.mod_mod _ _

@[simp] lemma size_mark : (b.mark i).size = b.size := by simp [mark, size]

@[simp] lemma size_unmark : (b.unmark i).size = b.size := by simp [unmark, size]

@[simp] lemma bit_unmark : (b.unmark i).bit j = b.bit j := by simp [bit]

@[simp] lemma size_wipe : b.wipe.size = b.size := by simp [wipe, size]

@[simp] lemma size_blank (words : Nat) : (blank words).size = words := by simp [blank, size]

lemma marked_congr {b : Bitmap} {i j : Nat} (h : b.bit i = b.bit j) :
    b.marked i = b.marked j := by
  obtain ⟨hw, hb⟩ := (bit_eq_iff b i j).mp h
  simp [marked, hw, hb]

lemma bit_ne_of_marked {b : Bitmap} {i j : Nat} (hi : ¬b.marked i = true) (hj : b.marked j = true) :
    b.bit i ≠ b.bit j := fun hb => hi ((marked_congr hb).trans hj)

lemma getElem_mask (hj : j < 64) : (mask i)[j] = decide (i % 64 = j) := by
  simp [mask, eq_comm]

lemma marked_unmark : (b.unmark i).marked j = (b.marked j && decide (b.bit i ≠ b.bit j)) := by
  have hw : (b.unmark i).wordOf j = b.wordOf j := by simp [wordOf]
  have hj : j % 64 < 64 := Nat.mod_lt j (by decide)
  simp only [marked, hw, ne_eq, bit_eq_iff]
  simp only [unmark, Array.getElem?_modify]
  by_cases he : b.wordOf i = b.wordOf j
  · rw [if_pos he]
    cases b.words[b.wordOf j]? with
    | none => simp
    | some word => simp [he, getElem_mask i _ hj, hj]
  · simp [he]

lemma marked_mark (hs : 0 < b.size) :
    (b.mark i).marked j = (b.marked j || decide (b.bit i = b.bit j)) := by
  have hw : (b.mark i).wordOf j = b.wordOf j := by simp [wordOf]
  have hj : j % 64 < 64 := Nat.mod_lt j (by decide)
  have hin : b.wordOf j < b.words.size := Nat.mod_lt _ hs
  simp only [marked, hw, bit_eq_iff]
  simp only [mark, Array.getElem?_modify]
  by_cases he : b.wordOf i = b.wordOf j
  · rw [if_pos he, Array.getElem?_eq_getElem hin]
    simp [he, getElem_mask i _ hj, hj]
  · simp [he]

lemma marked_mark_of_marked {b : Bitmap} {j : Nat} (h : b.marked j = true) :
    (b.mark i).marked j = true := by
  rcases Nat.eq_zero_or_pos b.size with h0 | hs
  · have hz : b.words = #[] := Array.eq_empty_of_size_eq_zero h0
    simp [marked, hz] at h
  · rw [marked_mark b i j hs, h, Bool.true_or]

lemma mark_after_mark : (b.mark i).mark j =
    ⟨(b.words.modify (b.wordOf i) (· ||| mask i)).modify (b.wordOf j) (· ||| mask j)⟩ := by
  have hw : (b.mark i).wordOf j = b.wordOf j := by simp [wordOf]
  rw [mark, hw, mark]

lemma mark_comm : (b.mark i).mark j = (b.mark j).mark i := by
  rw [mark_after_mark, mark_after_mark, modify_comm]
  intro word _
  rw [BitVec.or_assoc, BitVec.or_comm (mask j), ← BitVec.or_assoc]

lemma mark_mark : (b.mark i).mark i = b.mark i := by
  rw [mark_after_mark, modify_modify, mark]
  intro word
  rw [BitVec.or_assoc, BitVec.or_self]

@[simp] lemma marked_wipe : b.wipe.marked i = false := by
  simp only [marked, wipe, Array.getElem?_map]
  rcases b.words[_]? with _ | word <;> simp

@[simp] lemma marked_blank (words : Nat) : (blank words).marked i = false := by
  simp only [marked, blank, Array.getElem?_replicate]
  split_ifs <;> simp

lemma count_le : b.count ≤ 64 * b.size :=
  (Finset.card_filter_le _ _).trans_eq (Finset.card_range _)

@[simp] lemma count_wipe : b.wipe.count = 0 := by simp [count]

lemma count_unmark (h : b.marked i = true) : (b.unmark i).count + 1 = b.count := by
  have hs : 0 < 64 * b.size := by
    by_contra hs
    have hz : b.words = #[] := by simpa [size] using hs
    simp [marked, hz] at h
  have hm : b.marked (b.bit i) = true := by rw [marked_congr (b.bit_bit i), h]
  have hlt : b.bit i < 64 * b.size := Nat.mod_lt _ hs
  have he : ((Finset.range (64 * b.size)).filter fun id => (b.unmark i).marked id) =
      ((Finset.range (64 * b.size)).filter fun id => b.marked id).erase (b.bit i) := by
    ext k
    simp only [marked_unmark, Finset.mem_filter, Finset.mem_erase, Finset.mem_range,
      Bool.and_eq_true, decide_eq_true_eq]
    have hk : k < 64 * b.size → b.bit k = k := Nat.mod_eq_of_lt
    constructor
    · rintro ⟨hr, hp, hb⟩
      exact ⟨fun he => hb (by rw [hk hr, he]), hr, hp⟩
    · rintro ⟨hb, hr, hp⟩
      exact ⟨hr, hp, fun he => hb (by rw [he, hk hr])⟩
  rw [count, size_unmark, he]
  exact Finset.card_erase_add_one (by simp [hm, hlt])

end Bitmap

end FramePool
