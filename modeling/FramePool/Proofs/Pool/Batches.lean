import FramePool.Proofs.Lru.Fifo
import FramePool.Proofs.Pool.Deeds
import Mathlib.Data.Nat.Find

/-! Direct reclaim without access bits. The passes age until the eldest frames are in the oldest
generation, and then one pass evicts a batch of them. -/

namespace FramePool

namespace Lru

structure Eldest (l : Lru) (g : Nat) : Prop where
  ne_nil : l.ids g ≠ []
  above : ∀ k, g < k → l.ids k = []

variable {l l' : Lru} {s : Scan} {budget g : Nat}

lemma Coherent.le_oldest (h : l.Coherent) (hg : l.ids g ≠ []) : g ≤ l.oldest := by
  obtain ⟨id, hid⟩ := List.exists_mem_of_ne_nil _ hg
  obtain ⟨c, hc, _⟩ := List.mem_map.mp hid
  have hlt := lt_of_mem_cells hc
  rw [h.size_eq_succ] at hlt
  exact Nat.le_of_lt_succ hlt

lemma Coherent.exists_ids_ne_nil (h : l.Coherent) (hr : 0 < l.resident) : ∃ g, l.ids g ≠ [] := by
  rw [h.resident_eq] at hr
  obtain ⟨id, hid⟩ := List.exists_mem_of_length_pos hr
  obtain ⟨g, c, hc, _⟩ := h.sound.mem_order.mp hid
  exact ⟨g, List.ne_nil_of_mem (List.mem_map_of_mem hc)⟩

lemma Coherent.resident_pos (h : l.Coherent) (hg : l.ids g ≠ []) : 0 < l.resident := by
  have hle := h.length_le g
  have hpos := List.length_pos_of_ne_nil hg
  rw [length_ids] at hpos
  exact hpos.trans_le hle

lemma Coherent.exists_eldest (h : l.Coherent) (hr : 0 < l.resident) : ∃ g, l.Eldest g := by
  obtain ⟨g, hg⟩ := h.exists_ids_ne_nil hr
  have hle := h.le_oldest hg
  refine ⟨Nat.findGreatest (fun k => l.ids k ≠ []) l.oldest, ?_, fun k hk => ?_⟩
  · exact Nat.findGreatest_spec (P := fun k => l.ids k ≠ []) hle hg
  · by_contra hne
    exact Nat.not_le.mpr hk (Nat.le_findGreatest (h.le_oldest hne) hne)

lemma Eldest.le (he : l.Eldest g) {k : Nat} (hk : l.ids k ≠ []) : k ≤ g :=
  Nat.le_of_not_lt fun hlt => hk (he.above k hlt)

lemma Aged.ids_succ_ne_nil (ha : Aged l l') (hg : g < l.oldest) (hne : l.ids g ≠ []) :
    l'.ids (g + 1) ≠ [] := by
  rw [ha.ids_eq, older, if_neg (by omega), if_neg (Nat.succ_ne_zero g), Nat.add_sub_cancel]
  exact List.append_ne_nil_of_left_ne_nil hne _

lemma Aged.eldest (ha : Aged l l') (he : l.Eldest g) (hg : g < l.oldest) :
    l'.Eldest (g + 1) ∧ l'.ids (g + 1) = l.ids g := by
  have hids : l'.ids (g + 1) = l.ids g := by
    have hend : (if g + 1 = l.oldest then l.ids l.oldest else []) = [] := by
      rw [he.above l.oldest hg, ite_self]
    rw [ha.ids_eq, older, if_neg (by omega), if_neg (Nat.succ_ne_zero g), Nat.add_sub_cancel, hend,
      List.append_nil]
  refine ⟨⟨?_, fun k hk => ?_⟩, hids⟩
  · rw [hids]
    exact he.ne_nil
  · have h₀ : l.ids k = [] := he.above k (by omega)
    have h₁ : l.ids (k - 1) = [] := he.above (k - 1) (by omega)
    have h₂ : l.ids l.oldest = [] := he.above l.oldest hg
    rw [ha.ids_eq, older, h₀, h₁, h₂]
    simp

namespace Consistent

lemma evicted_size_unmarked (h : l.Consistent) (hu : l.Unmarked) (hs : l.scan budget = .ok (s, l')) :
    s.evicted.size = min budget (l.ids l.oldest).length := by
  obtain ⟨s₁, l₁, hs₁, _, _, _, _, htake⟩ := h.scan_unmarked hu budget
  obtain ⟨rfl, -⟩ := Prod.mk.inj (Except.ok.inj (hs₁.symm.trans hs))
  have hlen := congrArg List.length htake
  have hle := h.length_le l.oldest
  rw [List.length_take, List.length_reverse, ← h.resident_eq, Array.length_toList] at hlen
  rw [length_ids]
  omega

lemma aged_of_no_eviction (h : l.Consistent) (hu : l.Unmarked) (hb : 0 < budget)
    (hs : l.scan budget = .ok (s, l')) (hev : s.evicted.size = 0) : l.ids l.oldest = [] ∧ Aged l l' := by
  have hnil : l.ids l.oldest = [] := by
    rw [← List.length_eq_zero_iff]
    have := h.evicted_size_unmarked hu hs
    omega
  obtain ⟨l₁, hs₁, _, ha⟩ := h.scan_of_empty (List.map_eq_nil_iff.mp hnil) budget
  obtain ⟨-, rfl⟩ := Prod.mk.inj (Except.ok.inj (hs₁.symm.trans hs))
  exact ⟨hnil, ha⟩

end Consistent

end Lru

namespace Pool

variable {σ : Type} [Pacer σ] {p q : Pool σ} {budget count n g : Nat} {s : Scan} {id : FrameId}

namespace Whole

lemma directPasses_unmarked (h : p.Whole) (hu : p.lru.Unmarked) (hb : 0 < budget)
    (he : p.lru.Eldest g) (hn : p.lru.oldest < g + n)
    (hq : Pool.directPasses budget n p = .ok (count, q)) :
    count = min budget (p.lru.ids g).length ∧ q.free.size = p.free.size + count ∧
      q.tally.directPasses = p.tally.directPasses + (p.lru.oldest - g + 1) := by
  -- Every pass but the last one finds the oldest generation empty and makes the eldest frames older.
  have hle := h.lru.le_oldest he.ne_nil
  induction n generalizing p g with
  | zero => omega
  | succ n ih =>
    obtain ⟨s, p₁, hp, hw, hpp⟩ := h.pass budget .direct
    have hone := (h.acts_pass hp).directPasses_eq
    have hsize := h.lru.evicted_size_unmarked hu hpp.scan_eq
    simp only [Pool.directPasses, hp, ok_bind] at hq
    by_cases hg : g = p.lru.oldest
    · subst hg
      have hpos := List.length_pos_of_ne_nil he.ne_nil
      have hfree := congrArg List.length hpp.free_eq
      rw [if_pos (show 0 < s.evicted.size by omega)] at hq
      obtain ⟨rfl, rfl⟩ := Prod.mk.inj (Except.ok.inj hq)
      simp only [List.length_append, Queue.length_toList, Array.length_toList] at hfree
      exact ⟨hsize, hfree, by omega⟩
    · have hlt : g < p.lru.oldest := by omega
      have hzero : s.evicted.size = 0 := by
        rw [hsize, he.above _ hlt]
        exact Nat.min_zero budget
      obtain ⟨_, ha⟩ := h.lru.aged_of_no_eviction hu hb hpp.scan_eq hzero
      obtain ⟨he₁, hids⟩ := ha.eldest he hlt
      have ho : p₁.lru.oldest = p.lru.oldest := by simp [Lru.oldest, ha.size_eq]
      have hres : p₁.lru.resident ≠ 0 := (hw.lru.resident_pos he₁.ne_nil).ne'
      rw [if_neg (by omega), if_neg hres] at hq
      obtain ⟨hcount, hfree, hpasses⟩ := ih hw ha.unmarked he₁ (by omega) hq (by omega)
      have hfree₁ : p₁.free.size = p.free.size := by
        have := congrArg List.length hpp.free_eq
        simpa [hzero] using this
      rw [hids] at hcount
      exact ⟨hcount, by omega, by omega⟩

lemma directPasses_evicts (h : p.Whole) (hu : p.lru.Unmarked) (hb : 0 < budget)
    (hg : p.lru.ids g ≠ []) (hn : p.lru.oldest < g + n)
    (hq : Pool.directPasses budget n p = .ok (count, q)) : 0 < count ∧ q.free.toList ≠ [] := by
  obtain ⟨k, he⟩ := h.lru.exists_eldest (h.lru.resident_pos hg)
  have hk := he.le hg
  obtain ⟨hcount, hfree, _⟩ := h.directPasses_unmarked hu hb he (by omega) hq
  have hpos := List.length_pos_of_ne_nil he.ne_nil
  have hsize : 0 < q.free.size := by omega
  rw [← Queue.length_toList] at hsize
  exact ⟨by omega, List.ne_nil_of_length_pos hsize⟩

end Whole

/-- An allocation from a full pool evicts a batch of the eldest frames and hands out one of them. The
allocations after it use up the rest. -/
structure InBatches (p q : Pool σ) : Prop where
  of_full : p.free.toList = [] → ∃ g, p.lru.Eldest g ∧
    q.free.size + 1 = min p.settings.directBudget (p.lru.ids g).length ∧
    q.tally.directPasses = p.tally.directPasses + (p.lru.oldest - g + 1)
  of_free : p.free.toList ≠ [] → q.free.size + 1 = p.free.size ∧
    q.tally.directPasses = p.tally.directPasses

lemma Acts.of_handOut (ha : Acts p (.handOut (some id)) q) : q.free.size + 1 = p.free.size ∧
    q.tally = p.tally ∧ q.lru.counters = p.lru.counters ∧ ∀ g, 0 < g → q.lru.ids g = p.lru.ids g := by
  cases ha.does with
  | @handOut _ free l hf hno had =>
    obtain ⟨_, _, hc⟩ := had.place_eq
    refine ⟨?_, rfl, had.moved.counters_eq, fun g hg => ?_⟩
    · simpa using (congrArg List.length hf).symm
    · rw [Lru.ids, Lru.ids, hc, Function.update_of_ne hg.ne']

lemma Whole.in_batches (h : p.Whole) (hu : p.lru.Unmarked) (hb : 0 < p.settings.directBudget)
    (hcap : 0 < p.settings.capacity) (hq : p.allocate = .ok (some id, q)) : InBatches p q := by
  obtain ⟨hnil, count, p₁, hd, ho⟩ | ⟨hne, ho⟩ := allocate_cases hq
  · refine ⟨fun _ => ?_, fun hne => absurd hnil hne⟩
    obtain ⟨g, he⟩ := h.lru.exists_eldest (h.resident_of_full hnil ▸ hcap)
    have hlt := h.lru.oldest_lt
    obtain ⟨hcount, hfree, hpasses⟩ := h.directPasses_unmarked hu hb he (by omega) hd
    obtain ⟨scans, hc, _⟩ := h.trace_directPasses hd
    obtain ⟨hsize, htally, _⟩ := ((hc.whole h).1.acts_handOut ho).of_handOut
    have hzero : p.free.size = 0 := by rw [← Queue.length_toList, hnil, List.length_nil]
    exact ⟨g, he, by omega, by rw [htally, hpasses]⟩
  · obtain ⟨hsize, htally, _⟩ := (h.acts_handOut ho).of_handOut
    exact ⟨fun hnil => absurd hnil hne, fun _ => ⟨hsize, by rw [htally]⟩⟩

end Pool

end FramePool
