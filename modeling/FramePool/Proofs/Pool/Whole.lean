import FramePool.Pool.Frames
import FramePool.Proofs.Lru.Order
import FramePool.Proofs.Lru.History

/-! Free and resident frames together are all frames of a pool, each of them once. No pass breaks this
and none fails. -/

namespace FramePool

namespace Queue

variable {α : Type}

lemma toList_foldl_push (q : Queue α) (xs : List α) :
    (xs.foldl push q).toList = q.toList ++ xs := by
  induction xs generalizing q with
  | nil => simp
  | cons x xs ih => simp [ih]

lemma isEmpty_iff (q : Queue α) : q.isEmpty = true ↔ q.toList = [] := by
  rw [← List.length_eq_zero_iff, length_toList]
  simp [isEmpty]

end Queue

namespace Pool

variable {σ : Type}

structure Whole (p : Pool σ) : Prop where
  lru : p.lru.Consistent
  split : (p.free.toList ++ p.lru.order).Perm (List.range p.settings.capacity)
  small : p.settings.capacity < Arena.slotLimit

variable {p q : Pool σ}

namespace Whole

lemma size_add_resident (h : p.Whole) : p.free.size + p.lru.resident = p.settings.capacity := by
  simpa [h.lru.resident_eq] using h.split.length_eq

lemma used_eq (h : p.Whole) : p.used = p.lru.resident := by
  have := h.size_add_resident
  rw [used]
  omega

lemma resident_of_full (h : p.Whole) (hf : p.free.toList = []) :
    p.lru.resident = p.settings.capacity := by
  have := h.size_add_resident
  rw [← Queue.length_toList, hf, List.length_nil] at this
  omega

lemma checkTotal (h : p.Whole) : p.checkTotal = .ok () := by
  simp [Pool.checkTotal, h.size_add_resident]

lemma nodup (h : p.Whole) : (p.free.toList ++ p.lru.order).Nodup :=
  h.split.nodup_iff.mpr List.nodup_range

lemma not_resident (h : p.Whole) {id : FrameId} (hid : id ∈ p.free.toList) :
    p.lru.contains id = false := by
  rw [← Bool.not_eq_true, ← h.lru.mem_order]
  exact List.disjoint_of_nodup_append h.nodup hid

lemma congr (h : p.Whole) (hl : q.lru = p.lru) (hf : q.free = p.free)
    (hs : q.settings = p.settings) : q.Whole := by
  refine ⟨hl ▸ h.lru, ?_, hs ▸ h.small⟩
  rw [hl, hf, hs]
  exact h.split

end Whole

lemma report_frame [Pacer σ] (p : Pool σ) (s : Scan) : (p.report s).lru = p.lru ∧
    (p.report s).free = p.free ∧ (p.report s).settings = p.settings := by
  rw [report]
  split_ifs <;> exact ⟨rfl, rfl, rfl⟩

structure Passed (p q : Pool σ) (budget : Nat) (s : Scan) : Prop where
  scan_eq : p.lru.scan budget = .ok (s, q.lru)
  free_eq : q.free.toList = p.free.toList ++ s.evicted.toList
  settings_eq : q.settings = p.settings

variable [Pacer σ]

lemma allocate_cases {id : Option FrameId} (hq : p.allocate = .ok (id, q)) :
    (p.free.toList = [] ∧ ∃ count p₁, p.direct p.settings.directBudget = .ok (count, p₁) ∧
      p₁.handOut = .ok (id, q)) ∨ (p.free.toList ≠ [] ∧ p.handOut = .ok (id, q)) := by
  rw [allocate] at hq
  split_ifs at hq with hf
  · obtain ⟨⟨count, p₁⟩, hd, hq⟩ := bind_eq_ok.mp hq
    exact .inl ⟨p.free.isEmpty_iff.mp hf, count, p₁, hd, hq⟩
  · exact .inr ⟨fun hnil => hf (p.free.isEmpty_iff.mpr hnil), hq⟩

namespace Whole

lemma pass (h : p.Whole) (budget : Nat) (trigger : Trigger) :
    ∃ s q, p.pass budget trigger = .ok (s, q) ∧ q.Whole ∧ Passed p q budget s := by
  obtain ⟨s, l, hs, hl, _, hp, _⟩ := h.lru.scan budget
  have hfree : (p.takeBack s l).free.toList = p.free.toList ++ s.evicted.toList := by
    simp [takeBack, Queue.toList_foldl_push, ← Array.foldl_toList]
  have hback : (p.takeBack s l).Whole := by
    refine ⟨hl, ?_, h.small⟩
    rw [hfree, List.append_assoc]
    exact (hp.append_left _).trans h.split
  let q := ((p.takeBack s l).report s).countPass budget trigger s
  obtain ⟨hrl, hrf, hrs⟩ := report_frame (p.takeBack s l) s
  have hw : q.Whole := hback.congr hrl hrf hrs
  refine ⟨s, q, ?_, hw, ?_, ?_, hrs⟩
  · simp [Pool.pass, hs, q, hw.checkTotal]
  · rw [hs, show q.lru = l from hrl]
  · rw [show q.free = (p.takeBack s l).free from hrf, hfree]

lemma directPasses (h : p.Whole) (budget n : Nat) :
    ∃ count q, directPasses budget n p = .ok (count, q) ∧ q.Whole ∧ q.settings = p.settings := by
  induction n generalizing p with
  | zero => exact ⟨0, p, rfl, h, rfl⟩
  | succ n ih =>
    obtain ⟨s, q, hq, hw, hpq⟩ := h.pass budget .direct
    obtain ⟨count, r, hr, hw', hs⟩ := ih hw
    simp only [Pool.directPasses, hq, ok_bind]
    split_ifs
    · exact ⟨_, q, rfl, hw, hpq.settings_eq⟩
    · exact ⟨0, q, rfl, hw, hpq.settings_eq⟩
    · exact ⟨count, r, hr, hw', hs.trans hpq.settings_eq⟩

lemma direct (h : p.Whole) (budget : Nat) :
    ∃ count q, p.direct budget = .ok (count, q) ∧ q.Whole ∧ q.settings = p.settings :=
  h.directPasses budget p.lru.generations.size

omit [Pacer σ] in
lemma handOut (h : p.Whole) :
    ∃ id q, p.handOut = .ok (id, q) ∧ q.Whole ∧ q.settings = p.settings := by
  rcases hf : p.free.pop? with _ | ⟨id, free⟩
  · simp only [Pool.handOut, hf]
    exact ⟨none, _, rfl, h.congr rfl rfl rfl, rfl⟩
  · have hfree := Queue.toList_of_pop? hf
    have hid : p.lru.contains id = false := h.not_resident (by simp [hfree])
    have hroom : p.lru.resident < Arena.slotLimit := by
      have := h.size_add_resident
      have := h.small
      omega
    obtain ⟨l, hi, hl, had⟩ := h.lru.insert hid hroom
    have ho := had.order_eq h.lru.toCoherent
    have hsplit : (free.toList ++ l.order).Perm (List.range p.settings.capacity) := by
      have hp := h.split
      rw [hfree, List.cons_append] at hp
      rw [ho]
      exact List.perm_middle.trans hp
    simp only [Pool.handOut, hf, hi]
    exact ⟨some id, _, rfl, ⟨hl, hsplit, h.small⟩, rfl⟩

lemma allocate (h : p.Whole) :
    ∃ id q, p.allocate = .ok (id, q) ∧ q.Whole ∧ q.settings = p.settings := by
  rw [Pool.allocate]
  split_ifs
  · obtain ⟨_, q, hq, hw, hs⟩ := h.direct p.settings.directBudget
    obtain ⟨id, r, hr, hw', hs'⟩ := hw.handOut
    exact ⟨id, r, by simp [hq, hr], hw', hs'.trans hs⟩
  · exact h.handOut

omit [Pacer σ] in
lemma access (h : p.Whole) (id : FrameId) : (p.access id).Whole ∧ (p.access id).settings = p.settings := by
  rw [Pool.access]
  split_ifs
  · obtain ⟨hl, ho⟩ := h.lru.touch id
    exact ⟨⟨hl, by simpa [ho] using h.split, h.small⟩, rfl⟩
  · exact ⟨h.congr rfl rfl rfl, rfl⟩
  · exact ⟨h, rfl⟩

omit [Pacer σ] in
lemma release (h : p.Whole) (id : FrameId) :
    ∃ q, p.release id = .ok q ∧ q.Whole ∧ q.settings = p.settings := by
  obtain ⟨l, hr, hl, hrm⟩ := h.lru.remove id
  have ho := hrm.order_eq
  simp only [Pool.release, hr, ok_bind]
  cases hid : p.lru.contains id with
  | false =>
    have hno : id ∉ p.lru.order := by simp [h.lru.mem_order, hid]
    rw [List.erase_of_not_mem hno] at ho
    exact ⟨_, rfl, ⟨hl, by simpa [ho] using h.split, h.small⟩, rfl⟩
  | true =>
    have hin : id ∈ p.lru.order := h.lru.mem_order.mpr hid
    refine ⟨_, rfl, ⟨hl, ?_, h.small⟩, rfl⟩
    have hp := (List.perm_cons_erase hin).symm
    simp only [Queue.toList_push, ho, List.append_assoc, List.singleton_append]
    exact (hp.append_left _).trans h.split

end Whole

end Pool

end FramePool
