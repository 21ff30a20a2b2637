import FramePool.Proofs.Lru.History
import Mathlib.Data.List.DropRight
import Mathlib.Data.List.Induction

/-! A frame that has its bits for itself and is accessed before every scan is never evicted. -/

namespace FramePool

lemma Bitmap.not_mem_sift_evicted {b : Bitmap} {f : FrameId} {cs : List Cell}
    (hm : b.marked f = true) (hn : (cs.map Cell.id).Nodup)
    (hd : ∀ c ∈ cs, c.id ≠ f → b.bit c.id ≠ b.bit f) : f ∉ (b.sift cs).evicted.map Cell.id := by
  induction cs generalizing b with
  | nil => simp [Bitmap.sift]
  | cons c cs ih =>
    obtain ⟨hc, hn⟩ := List.nodup_cons.mp hn
    obtain ⟨hdc, hd⟩ := List.forall_mem_cons.mp hd
    rw [Bitmap.sift]
    split
    · by_cases he : c.id = f
      · intro hin
        rw [he] at hc
        exact hc ((Bitmap.sift_evicted_ids _ cs).mem hin)
      · apply ih
        · rw [Bitmap.marked_unmark, hm, Bool.true_and, decide_eq_true_eq]
          exact hdc he
        · exact hn
        · simpa using hd
    · rename_i hmc
      intro hin
      cases hin with
      | head => exact hmc hm
      | tail _ hin => exact ih hm hn hd hin

namespace Lru

def Op.quiet : Op → Bool
  | .scan _ | .age => false
  | _ => true

def Op.isScan : Op → Bool
  | .scan _ => true
  | _ => false

def Op.removes (f : FrameId) : Op → Bool
  | .remove id => id == f
  | .retire e => e.id == f
  | _ => false

def JustAccessed (f : FrameId) (past : List Op) : Prop := .touch f ∈ past.rtakeWhile Op.quiet

def AccessedBeforeScans (f : FrameId) (ops : List Op) : Prop :=
  ∀ k (hk : k < ops.length), ops[k].isScan = true → JustAccessed f (ops.take k)

instance (f : FrameId) (past : List Op) : Decidable (JustAccessed f past) :=
  inferInstanceAs (Decidable (_ ∈ _))

instance (f : FrameId) (ops : List Op) : Decidable (AccessedBeforeScans f ops) :=
  inferInstanceAs (Decidable (∀ k (hk : k < ops.length), ops[k].isScan = true →
    JustAccessed f (ops.take k)))

/-- No frame that is ever resident shares a bit with `f` in a tracker of `64 * words` bits. -/
structure Sustained (l : Lru) (f : FrameId) (words : Nat) (ops : List Op) : Prop where
  apart : ∀ id, l.contains id = true ∨ .insert id ∈ ops → id ≠ f →
    id % (64 * words) ≠ f % (64 * words)
  kept : ∀ op ∈ ops, op.removes f = false
  accessed : AccessedBeforeScans f ops

def Armed (l : Lru) (f : FrameId) : Prop :=
  ∃ e, l.entry? f = some e ∧ (l.bitmap e.generation).marked f = true

def Uniform (l : Lru) (words : Nat) : Prop :=
  ∀ g, g < l.generations.size → (l.bitmap g).size = words

variable {l l' : Lru} {f : FrameId} {words : Nat} {op : Op} {ops past : List Op}
  {out : Outcome} {outs : List Outcome}

lemma justAccessed_concat : JustAccessed f (past ++ [op]) ↔
    op.quiet = true ∧ (op = .touch f ∨ JustAccessed f past) := by
  rw [JustAccessed, List.rtakeWhile_concat]
  by_cases hq : op.quiet = true
  · rw [if_pos hq, List.mem_append, List.mem_singleton, eq_comm, or_comm]
    exact (and_iff_right hq).symm
  · simp [hq]

lemma AccessedBeforeScans.of_append {more : List Op} (h : AccessedBeforeScans f (ops ++ more)) :
    AccessedBeforeScans f ops := by
  intro k hk hs
  have hj := h k (by rw [List.length_append]; omega)
  rw [List.getElem_append_left hk, List.take_append_of_le_length hk.le] at hj
  exact hj hs

lemma AccessedBeforeScans.justAccessed (h : AccessedBeforeScans f (ops ++ [op]))
    (hs : op.isScan = true) : JustAccessed f ops := by
  have hj := h ops.length (by simp)
  rw [List.getElem_concat_length rfl, List.take_left] at hj
  exact hj hs

lemma Sustained.of_append {more : List Op} (h : Sustained l f words (ops ++ more)) :
    Sustained l f words ops where
  apart id hid := h.apart id (hid.imp_right fun hin => List.mem_append_left _ hin)
  kept op hop := h.kept op (List.mem_append_left _ hop)
  accessed := h.accessed.of_append

lemma Armed.of_entry_eq (ha : l.Armed f) (he : l'.entry? f = l.entry? f)
    (hm : ∀ g, (l.bitmap g).marked f = true → (l'.bitmap g).marked f = true) : l'.Armed f := by
  obtain ⟨e, hf, hb⟩ := ha
  exact ⟨e, he.trans hf, hm _ hb⟩

lemma Uniform.of_words_eq (hu : l.Uniform words) (hsz : l'.generations.size = l.generations.size)
    (hw : ∀ g, (l'.bitmap g).size = (l.bitmap g).size) : l'.Uniform words := by
  intro g hg
  rw [hw, hu g (hsz ▸ hg)]

lemma Touched.armed (ht : Touched l l' f) (h : l.Coherent) (hu : l.Uniform words) (hw : 0 < words)
    (hf : l.contains f = true) : l'.Armed f := by
  rw [contains_eq_isSome] at hf
  obtain ⟨e, he⟩ := Option.isSome_iff_exists.mp hf
  obtain ⟨_, hc⟩ := (h.mapped f e).mp he
  have hin : f ∈ l.ids e.generation := List.mem_map.mpr ⟨_, hc, rfl⟩
  have hsize := hu e.generation (lt_of_mem_cells hc)
  refine ⟨e, (ht.entry_eq f).trans he, ?_⟩
  rw [ht.bitmap_eq, if_pos hin, Bitmap.marked_mark _ _ _ (hsize ▸ hw)]
  simp

lemma Stepped.quiet (hs : Stepped l op out l') (hf : l.contains f = true)
    (hr : op.removes f = false) (hq : op.quiet = true) :
    evicted (op, out) = [] ∧ l'.entry? f = l.entry? f ∧
      ∀ g, (l.bitmap g).marked f = true → (l'.bitmap g).marked f = true := by
  cases hs with
  | @insert l' id hid ha =>
    have hne : id ≠ f := by
      rintro rfl
      rw [hf] at hid
      cases hid
    exact ⟨rfl, ha.entry_of_ne hne, fun g hm => by rwa [ha.moved.bitmap_eq]⟩
  | @touch l' id ht =>
    refine ⟨rfl, ht.entry_eq f, fun g hm => ?_⟩
    rw [ht.bitmap_eq]
    split_ifs
    · exact Bitmap.marked_mark_of_marked id hm
    · exact hm
  | scanEmpty => cases hq
  | scan => cases hq
  | age => cases hq
  | remove hd =>
    exact ⟨rfl, hd.entry_of_ne (by simpa [Op.removes] using hr), fun g hm => by
      rwa [hd.moved.bitmap_eq]⟩
  | retire _ hd =>
    exact ⟨rfl, hd.entry_of_ne (by simpa [Op.removes] using hr), fun g hm => by
      rwa [hd.moved.bitmap_eq]⟩
  | retireStale => exact ⟨rfl, rfl, fun _ hm => hm⟩

lemma Coherent.marked_of_candidate (h : l.Coherent) (ha : l.Armed f) {budget : Nat}
    (hin : f ∈ (l.candidates budget).map Cell.id) : (l.bitmap l.oldest).marked f = true := by
  obtain ⟨c, hc, rfl⟩ := List.mem_map.mp hin
  obtain ⟨e, he, hm⟩ := ha
  obtain ⟨_, hce⟩ := (h.mapped c.id e).mp he
  obtain ⟨hg, _⟩ := h.mapped.generation_eq (mem_cells_of_mem_candidates hc) hce rfl
  rwa [hg]

namespace Scanned

variable {l₁ : Lru} {budget : Nat} {s : Scan}

lemma not_mem_evicted (hs : Scanned l l₁ l' budget s) (h : l.Coherent) (hu : l.Uniform words)
    (ha : l.Armed f)
    (hd : ∀ id, l.contains id = true → id ≠ f → id % (64 * words) ≠ f % (64 * words)) :
    f ∉ s.evicted.toList := by
  rw [hs.evicted_eq]
  intro hev
  have hin := (Bitmap.sift_evicted_ids _ _).mem hev
  refine Bitmap.not_mem_sift_evicted (h.marked_of_candidate ha hin) (h.candidates_nodup budget) ?_ hev
  intro c hc
  rw [Bitmap.bit, Bitmap.bit, hu _ h.oldest_lt]
  exact hd c.id (h.contains_of_mem (mem_cells_of_mem_candidates hc))

lemma contains_of_not_evicted (hs : Scanned l l₁ l' budget s) (h : l.Coherent)
    (hf : l.contains f = true) (hev : f ∉ s.evicted.toList) : l'.contains f = true := by
  rw [← hs.coherent.mem_order]
  have hin := (hs.order_perm h).mem_iff.mpr (h.mem_order.mpr hf)
  exact (List.mem_append.mp hin).resolve_left hev

end Scanned

lemma Stepped.accessed (hs : Stepped l op out l') (h : l.Coherent) (hu : l.Uniform words)
    (hw : 0 < words) (hf : l.contains f = true) (hr : op.removes f = false)
    (hd : ∀ id, l.contains id = true → id ≠ f → id % (64 * words) ≠ f % (64 * words))
    (ha : op.isScan = true → l.Armed f) :
    l'.contains f = true ∧ f ∉ evicted (op, out) ∧
      (op.quiet = true → op = .touch f ∨ l.Armed f → l'.Armed f) := by
  by_cases hq : op.quiet = true
  · obtain ⟨hev, he, hm⟩ := hs.quiet hf hr hq
    refine ⟨?_, by simp [hev], fun _ hop => ?_⟩
    · rw [contains_eq_isSome, he, ← contains_eq_isSome, hf]
    · cases hop with
      | inl hop =>
        subst hop
        cases hs with
        | touch ht => exact ht.armed h hu hw hf
      | inr ha => exact ha.of_entry_eq he hm
  · cases hs with
    | scanEmpty _ _ hag =>
      exact ⟨(hag.contains_eq f).trans hf, by simp [evicted], fun hq' => absurd hq' hq⟩
    | scan _ hsc =>
      have hev := hsc.not_mem_evicted h hu (ha rfl) hd
      exact ⟨hsc.contains_of_not_evicted h hf hev, hev, fun hq' => absurd hq' hq⟩
    | age _ hag =>
      exact ⟨(hag.contains_eq f).trans hf, List.not_mem_nil, fun hq' => absurd hq' hq⟩
    | insert | touch | remove | retire | retireStale => exact (hq rfl).elim

lemma Coherent.run_sustained (h : l.Coherent) (hu : l.Uniform words) (hw : 0 < words)
    (hf : l.contains f = true) (hsus : Sustained l f words ops)
    (hrun : Lru.run ops l = .ok (outs, l')) :
    l'.contains f = true ∧ f ∉ evictions (ops.zip outs) ∧ (JustAccessed f ops → l'.Armed f) := by
  -- From the end of the history: whether `f` is marked depends on what came after its last access.
  induction ops using List.reverseRecOn generalizing outs l' with
  | nil =>
    obtain ⟨rfl, rfl⟩ := Prod.mk.inj (Except.ok.inj hrun)
    exact ⟨hf, by simp [evictions], fun hj => by simp [JustAccessed] at hj⟩
  | append_singleton ops op ih =>
    obtain ⟨outs', l₁, out, hrun₁, hs, hz⟩ := run_concat_eq_ok hrun
    obtain ⟨hf₁, hev₁, harm₁⟩ := ih hsus.of_append hrun₁
    obtain ⟨h₁, hsz₁, hw₁, hin₁⟩ := h.run hrun₁
    have hu₁ : l₁.Uniform words := hu.of_words_eq hsz₁ hw₁
    have hop : op.removes f = false := hsus.kept op (by simp)
    have hst : Stepped l₁ op out l' := (h₁.step op).of_eq_ok hs
    obtain ⟨hf', hev, harm⟩ := hst.accessed h₁ hu₁ hw hf₁ hop
      (fun id hid => hsus.of_append.apart id (hin₁ id hid))
      (fun hsc => harm₁ (hsus.accessed.justAccessed hsc))
    refine ⟨hf', ?_, fun hj => ?_⟩
    · simp only [hz, evictions, List.flatMap_append, List.mem_append, not_or]
      exact ⟨hev₁, by simpa using hev⟩
    · obtain ⟨hq, hj⟩ := justAccessed_concat.mp hj
      exact harm hq (hj.imp_right harm₁)

lemma fresh_uniform (n words : Nat) : (fresh n words).Uniform words := by
  intro g hg
  rw [fresh_size] at hg
  rw [bitmap, fresh_getElem?, if_pos hg]
  exact Bitmap.size_blank words

theorem survives_while_accessed {n : Nat} {start : Lru} {before : List Op}
    (hc : Lru.create n words = .ok start) (hb : run before start = .ok (outs, l))
    (hf : l.contains f = true) (hs : Sustained l f words ops) :
    (l.resident ≤ Arena.slotLimit → Legal ops l → ∃ outs' l', run ops l = .ok (outs', l')) ∧
      ∀ past outs' l', past <+: ops → run past l = .ok (outs', l') →
        l'.contains f = true ∧ f ∉ evictions (past.zip outs') := by
  obtain ⟨rfl, hpos, hpow⟩ := create_ok hc
  obtain ⟨h, hsz, hw, _⟩ := (fresh_coherent n words hpos).run hb
  constructor
  · intro hfit hl
    have hcons : l.Consistent := ⟨h, hfit⟩
    obtain ⟨outs', l', hrun, _⟩ := hcons.run hl
    exact ⟨outs', l', hrun⟩
  · rintro past outs' l' ⟨more, rfl⟩ hrun
    have hu : l.Uniform words := (fresh_uniform n words).of_words_eq hsz hw
    obtain ⟨hf', hev, _⟩ :=
      h.run_sustained hu (pos_of_isPowerOfTwo hpow) hf hs.of_append hrun
    exact ⟨hf', hev⟩

theorem survives_promotion_and_aging :
    ∃ start, Lru.create 2 1 = .ok start ∧
      ∃ outs l, run [.insert 5, .insert 9, .age] start = .ok (outs, l) ∧ l.contains 5 = true ∧
      let ops : List Op := [.touch 5, .scan 8, .insert 7, .touch 5, .age, .touch 5, .remove 7, .scan 1]
      Sustained l 5 1 ops ∧
      ∃ outs' l', run ops l = .ok (outs', l') ∧ l'.contains 5 = true ∧
        5 ∉ evictions (ops.zip outs') := by
  have hp : ∃ outs l, run [.insert 5, .insert 9, .age] (fresh 2 1) = .ok (outs, l) ∧
      l.contains 5 = true ∧ l.table.keys = [5, 9] ∧ l.resident ≤ Arena.slotLimit ∧
      Legal [.touch 5, .scan 8, .insert 7, .touch 5, .age, .touch 5, .remove 7, .scan 1] l :=
    ⟨_, _, rfl, by decide +kernel⟩
  obtain ⟨outs, l, hr, hf, hk, hn, hl⟩ := hp
  have hs : Sustained l 5 1
      [.touch 5, .scan 8, .insert 7, .touch 5, .age, .touch 5, .remove 7, .scan 1] := by
    refine ⟨?_, by decide, by decide⟩
    intro id hid hne
    have hres : l.contains id = true → id = 5 ∨ id = 9 := by
      rw [contains, Std.ExtTreeMap.contains_iff_mem, ← Std.ExtTreeMap.mem_keys, hk]
      simp
    rcases hid.imp_left hres with (rfl | rfl) | hin
    · exact absurd rfl hne
    · decide
    · obtain rfl : id = 7 := by simpa using hin
      decide
  refine ⟨fresh 2 1, rfl, outs, l, hr, hf, hs, ?_⟩
  obtain ⟨htotal, hsafe⟩ := @survives_while_accessed l 5 1 _ outs 2 _ _ rfl hr hf hs
  obtain ⟨outs', l', hrun⟩ := htotal hn hl
  obtain ⟨hf', hev⟩ := hsafe _ outs' l' List.prefix_rfl hrun
  exact ⟨outs', l', hrun, hf', hev⟩

end Lru

end FramePool
