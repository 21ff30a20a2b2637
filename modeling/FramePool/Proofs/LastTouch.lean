import FramePool.Proofs.SharedBits
import Mathlib.Data.Nat.ModEq

/-! What a bit tells: of all operations so far that touch it, the last one. Frames touch the same bit if
they are congruent modulo the number of bits. -/

namespace FramePool

namespace Bitmap

def Op.touches (words : Nat) (id : FrameId) : Op → Bool
  | .mark k | .takeMark k => decide (k ≡ id [MOD 64 * words])
  | .ask _ => false
  | .wipe => true

def lastTouch (words : Nat) (id : FrameId) (ops : List Op) : Option Op :=
  (ops.filter (Op.touches words id)).getLast?

variable {b : Bitmap} {i j : FrameId} {op : Op} {ops : List Op} {words : Nat}

lemma lastTouch_concat : lastTouch words i (ops ++ [op]) =
    if op.touches words i = true then some op else lastTouch words i ops := by
  rw [lastTouch, List.filter_append, List.filter_singleton]
  cases op.touches words i with
  | true => exact List.getLast?_concat
  | false => exact congrArg List.getLast? (List.append_nil _)

lemma bit_eq_iff_modEq : b.bit i = b.bit j ↔ i ≡ j [MOD 64 * b.size] := Iff.rfl

lemma marked_apply_of_touches (hw : 0 < b.size) (ht : op.touches b.size i = true) :
    (b.apply op).marked i = true ↔ ∃ k, op = .mark k := by
  cases op with
  | mark k =>
    have hb : b.bit k = b.bit i := of_decide_eq_true ht
    change (b.mark k).marked i = true ↔ _
    simp [marked_mark b k i hw, hb]
  | takeMark k =>
    have hb : b.bit k = b.bit i := of_decide_eq_true ht
    change (b.unmark k).marked i = true ↔ _
    simp [marked_unmark, hb]
  | ask k => cases ht
  | wipe =>
    change b.wipe.marked i = true ↔ _
    simp

lemma marked_apply_of_not_touches (hw : 0 < b.size) (ht : op.touches b.size i = false) :
    (b.apply op).marked i = b.marked i := by
  cases op with
  | mark k =>
    have hb : ¬b.bit k = b.bit i := of_decide_eq_false ht
    change (b.mark k).marked i = _
    rw [marked_mark b k i hw, decide_eq_false hb, Bool.or_false]
  | takeMark k =>
    have hb : b.bit k ≠ b.bit i := of_decide_eq_false ht
    change (b.unmark k).marked i = _
    rw [marked_unmark, decide_eq_true hb, Bool.and_true]
  | ask k => rfl
  | wipe => cases ht

lemma marked_after_blank (hw : 0 < words) :
    ((blank words).after ops).marked i = true ↔ ∃ k, lastTouch words i ops = some (.mark k) := by
  induction ops using List.reverseRecOn with
  | nil => simp [after, lastTouch]
  | append_singleton ops op ih =>
    have hsize : ((blank words).after ops).size = words := size_after.trans (size_blank words)
    rw [after_append, lastTouch_concat]
    change (((blank words).after ops).apply op).marked i = true ↔ _
    cases ht : op.touches words i with
    | true => simp [marked_apply_of_touches (hsize ▸ hw) (hsize ▸ ht)]
    | false => simp [marked_apply_of_not_touches (hsize ▸ hw) (hsize ▸ ht), ih]

lemma marked_takeMark : (b.takeMark i).2.marked j = true ↔
    b.marked j = true ∧ ¬j ≡ i [MOD 64 * b.size] := by
  change (b.unmark i).marked j = true ↔ _
  rw [marked_unmark, Bool.and_eq_true, decide_eq_true_eq, ← bit_eq_iff_modEq, ne_comm]

lemma wordOf_eq_and (hp : isPowerOfTwo b.size = true) (id : FrameId) :
    b.wordOf id = id / 64 &&& (b.size - 1) := by
  have hsize : 2 ^ b.size.log2 = b.size := by simpa [isPowerOfTwo, Nat.one_shiftLeft] using hp
  rw [wordOf, ← hsize, Nat.and_two_pow_sub_one_eq_mod]

lemma and_mask_ne_zero (word : BitVec 64) (id : FrameId) :
    word &&& mask id ≠ 0 ↔ word.getLsbD (id % 64) = true := by
  have hpow : BitVec.twoPow 64 (id % 64) ≠ 0 := by
    intro h0
    have hbit := congrArg (BitVec.getLsbD · (id % 64)) h0
    simp [Nat.mod_lt id (show 64 > 0 by decide)] at hbit
  rw [mask, BitVec.and_twoPow]
  split_ifs with hb <;> simp_all

lemma marked_iff_word : b.marked i = true ↔
    ∃ word, b.words[b.wordOf i]? = some word ∧ word &&& mask i ≠ 0 := by
  simp only [and_mask_ne_zero, marked]
  cases b.words[b.wordOf i]? <;> simp

theorem bit_tells_last_touch (hc : create words = .ok b) (ops : List Op) (id : FrameId) :
    let now := b.after ops
    now.wordOf id = id / 64 &&& (words - 1) ∧
      (now.marked id = true ↔ ∃ word, now.words[now.wordOf id]? = some word ∧ word &&& mask id ≠ 0) ∧
      (now.marked id = true ↔ ∃ k, lastTouch words id ops = some (.mark k)) ∧
      (now.takeMark id).1 = now.marked id ∧
      ∀ j, (now.takeMark id).2.marked j = true ↔ now.marked j = true ∧ ¬j ≡ id [MOD 64 * words] := by
  intro now
  obtain ⟨rfl, hp⟩ := create_ok hc
  have hsize : now.size = words := size_after.trans (size_blank words)
  have hword := now.wordOf_eq_and (hsize ▸ hp) id
  have htake : ∀ j, (now.takeMark id).2.marked j = true ↔ _ := fun j => marked_takeMark
  rw [hsize] at hword htake
  exact ⟨hword, marked_iff_word, marked_after_blank (pos_of_isPowerOfTwo hp), rfl, htake⟩

theorem last_touches_of_two_bits :
    let ops : List Op := [.mark 0, .mark 64, .ask 0, .takeMark 192]
    create 2 = .ok (blank 2) ∧ ((blank 2).after ops).marked 128 = true ∧
      ((blank 2).after ops).marked 64 = false := by
  intro ops
  have hc : create 2 = .ok (blank 2) := rfl
  obtain ⟨_, _, hmarked, _⟩ := bit_tells_last_touch hc ops 128
  obtain ⟨_, _, hunmarked, _⟩ := bit_tells_last_touch hc ops 64
  have hlast : lastTouch 2 128 ops = some (.mark 0) := rfl
  have htaken : lastTouch 2 64 ops = some (.takeMark 192) := rfl
  refine ⟨hc, hmarked.mpr ⟨0, hlast⟩, ?_⟩
  rw [← Bool.not_eq_true, hunmarked, htaken]
  simp

end Bitmap

end FramePool
