import FramePool.Proofs.Lru.Fresh
import Mathlib.Data.Set.Function

/-! How long a mark lasts. Marks and questions of other frames leave it alone, and frames with a bit of
their own cannot take it away. -/

namespace FramePool

namespace Bitmap

inductive Op where
  | mark (id : FrameId)
  | takeMark (id : FrameId)
  | ask (id : FrameId)
  | wipe

def Op.frame? : Op → Option FrameId
  | .mark id | .takeMark id | .ask id => some id
  | .wipe => none

def apply (b : Bitmap) : Op → Bitmap
  | .mark id => b.mark id
  | .takeMark id => (b.takeMark id).2
  | .ask _ => b
  | .wipe => b.wipe

def after (b : Bitmap) (ops : List Op) : Bitmap := ops.foldl apply b

/-- What makes the bit of `id` unset: a wipe, or a mark taken from this or a frame with the same bit. -/
def Op.Clears (b : Bitmap) (id : FrameId) : Op → Prop
  | .takeMark k => b.bit k = b.bit id
  | .wipe => True
  | .mark _ | .ask _ => False

/-- A mark lasts until it is taken from this frame or all marks are wiped, whatever else is done with
the given frames. -/
def MarksLast (b : Bitmap) (ids : Set FrameId) : Prop :=
  ∀ past since id, (∀ op ∈ past ++ .mark id :: since, ∀ k ∈ op.frame?, k ∈ ids) →
    .wipe ∉ since → .takeMark id ∉ since →
      (b.after (past ++ .mark id :: since)).marked id = true ∧
        ((b.after (past ++ .mark id :: since)).takeMark id).1 = true

variable {b : Bitmap} {id : FrameId} {op : Op} {ops past since : List Op} {ids : Set FrameId}

@[simp] lemma size_apply : (b.apply op).size = b.size := by
  cases op with
  | mark id => exact b.size_mark id
  | takeMark id => exact b.size_unmark id
  | ask id => rfl
  | wipe => exact b.size_wipe

lemma size_after : (b.after ops).size = b.size := by
  induction ops generalizing b with
  | nil => rfl
  | cons op ops ih => exact (ih (b := b.apply op)).trans size_apply

lemma after_append : b.after (past ++ since) = (b.after past).after since := List.foldl_append

lemma clears_congr {b' : Bitmap} (hs : b'.size = b.size) : op.Clears b' id ↔ op.Clears b id := by
  cases op <;> simp [Op.Clears, bit, hs]

lemma marked_apply (hm : b.marked id = true) : (b.apply op).marked id = true ↔ ¬op.Clears b id := by
  cases op with
  | mark k => exact iff_of_true (marked_mark_of_marked k hm) not_false
  | takeMark k =>
    change (b.unmark k).marked id = true ↔ b.bit k ≠ b.bit id
    rw [marked_unmark, hm, Bool.true_and, decide_eq_true_eq]
  | ask k => exact iff_of_true hm not_false
  | wipe =>
    change b.wipe.marked id = true ↔ ¬True
    simp

lemma marked_after (hm : b.marked id = true) (hs : ∀ op ∈ ops, ¬op.Clears b id) :
    (b.after ops).marked id = true := by
  induction ops generalizing b with
  | nil => exact hm
  | cons op ops ih =>
    obtain ⟨hop, hs⟩ := List.forall_mem_cons.mp hs
    apply ih ((marked_apply hm).mpr hop)
    intro op' hop'
    rw [clears_congr size_apply]
    exact hs op' hop'

lemma marked_after_mark (hw : 0 < b.size) (hs : ∀ op ∈ since, ¬op.Clears b id) :
    (b.after (past ++ .mark id :: since)).marked id = true := by
  rw [after_append]
  have hsize : (b.after past).size = b.size := size_after
  have hmark : ((b.after past).mark id).marked id = true := by
    rw [marked_mark _ _ _ (hsize ▸ hw)]
    simp
  apply marked_after hmark
  intro op hop
  rw [clears_congr ((size_mark _ id).trans hsize)]
  exact hs op hop

lemma marked_after_shared {j : FrameId} (hb : b.bit j = b.bit id) :
    (b.after [.mark id, .takeMark j]).marked id = false := by
  change ((b.mark id).unmark j).marked id = false
  have hbit : (b.mark id).bit j = (b.mark id).bit id := by simpa [bit] using hb
  rw [marked_unmark, decide_eq_false (not_not_intro hbit), Bool.and_false]

theorem marks_last_without_sharing {words : Nat} (hc : create words = .ok b) :
    (∀ ids : Set FrameId, b.MarksLast ids ↔ Set.InjOn b.bit ids) ∧
    (∀ past since id, (∀ op ∈ since, ¬op.Clears b id) →
      (b.after (past ++ .mark id :: since)).marked id = true ∧
        ((b.after (past ++ .mark id :: since)).takeMark id).1 = true) ∧
    ∀ past op id, (b.after past).marked id = true →
      (((b.after past).apply op).marked id = true ↔ ¬op.Clears b id) := by
  obtain ⟨rfl, hp⟩ := create_ok hc
  have hw : 0 < (blank words).size := by
    rw [size_blank]
    exact pos_of_isPowerOfTwo hp
  have hlast : ∀ past since id, (∀ op ∈ since, ¬op.Clears (blank words) id) →
      ((blank words).after (past ++ .mark id :: since)).marked id = true :=
    fun past since id hs => marked_after_mark hw hs
  refine ⟨fun ids => ⟨fun hl => ?_, fun hinj => ?_⟩, fun past since id hs => ?_, fun past op id hm => ?_⟩
  · intro i hi j hj hb
    by_contra hne
    have hboth : ∀ op ∈ [Op.mark i, .takeMark j], ∀ k ∈ op.frame?, k ∈ ids := by
      simpa [Op.frame?] using ⟨hi, hj⟩
    have hm := (hl [] [.takeMark j] i hboth (by simp) (by simpa using hne)).1
    rw [List.nil_append, marked_after_shared hb.symm] at hm
    cases hm
  · intro past since id hids hwipe htake
    have hm := hlast past since id fun op hop => ?_
    · exact ⟨hm, hm⟩
    cases op with
    | mark k | ask k => exact not_false
    | takeMark k =>
      intro hb
      have hk : k ∈ ids := hids (.takeMark k) (by simp [hop]) k rfl
      have hid : id ∈ ids := hids (.mark id) (by simp) id rfl
      exact htake (hinj hk hid hb ▸ hop)
    | wipe => exact absurd hop hwipe
  · exact ⟨hlast past since id hs, hlast past since id hs⟩
  · rw [marked_apply hm, clears_congr size_after]

theorem marks_last_below_128 :
    create 2 = .ok (blank 2) ∧ (blank 2).MarksLast {id | id < 128} ∧
      ((blank 2).after [.mark 5, .mark 69, .takeMark 133, .mark 5, .takeMark 69]).marked 5 = true := by
  have hc : create 2 = .ok (blank 2) := rfl
  obtain ⟨hiff, hlast, _⟩ := marks_last_without_sharing hc
  refine ⟨hc, (hiff _).mpr ?_, (hlast [.mark 5, .mark 69, .takeMark 133] [.takeMark 69] 5 ?_).1⟩
  · intro i hi j hj hb
    rwa [bit, bit, size_blank, Nat.mod_eq_of_lt hi, Nat.mod_eq_of_lt hj] at hb
  · simp [Op.Clears, bit]

theorem mark_taken_by_another_frame :
    ∃ b, create 2 = .ok b ∧ (b.after [.mark 0, .takeMark 128]).marked 0 = false ∧
      ((b.after [.mark 0, .takeMark 128]).takeMark 0).1 = false ∧ ¬b.MarksLast Set.univ := by
  refine ⟨blank 2, rfl, rfl, rfl, fun hl => ?_⟩
  have hm := (hl [] [.takeMark 128] 0 (by simp) (by simp) (by simp)).1
  cases hm

end Bitmap

end FramePool
