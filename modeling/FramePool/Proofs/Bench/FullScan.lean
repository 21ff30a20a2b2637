import FramePool.Bench.Scanning
import FramePool.Proofs.Lru.Epochs
import FramePool.Proofs.Pool.Opening
import FramePool.Random.Xoshiro128

/-! The scan that is measured finds all frames in the oldest generation, so it examines as many of them
as its budget allows. -/

namespace FramePool

namespace Lru

variable {l : Lru}

@[simp] lemma cells_touch (l : Lru) (id : FrameId) : (l.touch id).cells = l.cells := by
  rw [touch]
  split
  · exact cells_modifyGeneration_of_frames_eq _ fun _ => rfl
  · rfl

lemma Coherent.order_of_younger (h : l.Coherent) (hy : ∀ g, g < l.oldest → l.ids g = []) :
    l.order = l.ids l.oldest := by
  have hnil : (List.range l.oldest).flatMap l.ids = [] :=
    List.flatMap_eq_nil_iff.mpr fun g hg => hy g (List.mem_range.mp hg)
  rw [h.sound.order_eq, h.size_eq_succ, List.range_succ, List.flatMap_append, hnil]
  simp

namespace Consistent

lemma foldlM_insert (h : l.Consistent) {ids : List FrameId} (hn : ids.Nodup)
    (hno : ∀ id ∈ ids, l.contains id = false) (hroom : l.resident + ids.length ≤ Arena.slotLimit) :
    ∃ l', ids.foldlM Lru.insert l = .ok l' ∧ l'.Consistent ∧
      l'.generations.size = l.generations.size ∧ l'.order = ids.reverse ++ l.order := by
  induction ids generalizing l with
  | nil => exact ⟨l, rfl, h, rfl, rfl⟩
  | cons id ids ih =>
    obtain ⟨hid, hn⟩ := List.nodup_cons.mp hn
    obtain ⟨hnew, hno⟩ := List.forall_mem_cons.mp hno
    rw [List.length_cons] at hroom
    obtain ⟨l₁, hi, h₁, ha⟩ := h.insert hnew (by omega)
    have hno₁ : ∀ k ∈ ids, l₁.contains k = false := by
      intro k hk
      have hne : k ≠ id := fun he => hid (he ▸ hk)
      rw [ha.contains_eq, hno k hk, decide_eq_false hne, Bool.or_false]
    obtain ⟨l', hr, h', hsize, horder⟩ := ih h₁ hn hno₁ (by rw [ha.resident_eq hnew]; omega)
    refine ⟨l', by rw [List.foldlM_cons, hi, ok_bind, hr], h', hsize.trans ha.moved.size_eq, ?_⟩
    rw [horder, ha.order_eq h.toCoherent]
    simp

lemma scan_scanned (h : l.Consistent) (budget : Nat) : ∃ s l', l.scan budget = .ok (s, l') ∧
    s.scanned = min budget (l.ids l.oldest).length := by
  by_cases he : l.cells l.oldest = []
  · obtain ⟨l', hs, _⟩ := h.scan_of_empty he budget
    exact ⟨_, l', hs, by simp [ids, he]⟩
  · obtain ⟨l₁, l', s, hs, _, hsc⟩ := h.scan_of_ne_nil he budget
    exact ⟨s, l', hs, by rw [hsc.scanned_eq, length_ids]⟩

end Consistent

lemma fresh_foldlM_insert {generations n : Nat} (words : Nat) (hg : 0 < generations)
    (hn : n ≤ Arena.slotLimit) :
    ∃ l, (List.range n).foldlM Lru.insert (fresh generations words) = .ok l ∧ l.Consistent ∧
      l.generations.size = generations ∧ l.order.reverse = List.range n := by
  have h₀ := fresh_consistent generations words hg
  have ho := fresh_order generations words hg
  have hno : ∀ id ∈ List.range n, (fresh generations words).contains id = false := by
    intro id _
    rw [← Bool.not_eq_true, ← h₀.mem_order, ho]
    exact List.not_mem_nil
  have hroom : (fresh generations words).resident + (List.range n).length ≤ Arena.slotLimit := by
    rw [h₀.resident_eq, ho, List.length_nil, List.length_range]
    omega
  obtain ⟨l, hi, h, hsize, horder⟩ := h₀.foldlM_insert List.nodup_range hno hroom
  refine ⟨l, hi, h, hsize.trans (fresh_size _ _), ?_⟩
  rw [horder, ho, List.append_nil, List.reverse_reverse]

end Lru

namespace ScanBench

/-- The frames `0, …, n - 1` came in this order and are all in the oldest generation. -/
structure Lined (generations n : Nat) (l : Lru) : Prop where
  consistent : l.Consistent
  size_eq : l.generations.size = generations
  younger : ∀ g, g < l.oldest → l.ids g = []
  oldest_eq : (l.ids l.oldest).reverse = List.range n

variable {ρ : Type} {b : ScanBench ρ} {l : Lru} {generations n : Nat}

lemma create_eq {generations : Nat} (hg : 0 < generations) : Lru.create generations (64 : UInt64).toNat =
    if generations * Generation.bytes ≤ blockLimit then .ok (Lru.fresh generations (64 : UInt64).toNat)
    else .error .capacityOverflow := by
  have hwords : isPowerOfTwo (64 : UInt64).toNat = true := by decide +kernel
  have hfits : (64 : UInt64).toNat * wordBytes ≤ blockLimit := by decide
  rw [Lru.create_eq hg.ne' hwords]
  simp only [hfits, and_true]

lemma ageTimes_outlived (h : l.Consistent) (k : Nat) (journal : Array Event) :
    ∃ l' journal', ageTimes k l journal = .ok (l', journal') ∧ l'.Consistent ∧
      Lru.Outlived k l l' ∧ l'.order = l.order := by
  induction k generalizing l journal with
  | zero => exact ⟨l, journal, rfl, h, .zero h.toCoherent, rfl⟩
  | succ k ih =>
    obtain ⟨l₁, ha, h₁, hag⟩ := h.age
    obtain ⟨l', journal', hr, h', ho, horder⟩ := ih h₁ (journal.push (.aged l₁.sizes))
    refine ⟨l', journal', ?_, h', (hag.outlived h.toCoherent h₁.toCoherent).cons ho,
      horder.trans hag.order_eq⟩
    rw [ageTimes, ha, ok_bind]
    exact hr

lemma ageTimes_lined (h : l.Consistent) (ho : l.order.reverse = List.range n) (journal : Array Event) :
    ∃ l' journal', ageTimes l.oldest l journal = .ok (l', journal') ∧
      Lined l.generations.size n l' := by
  obtain ⟨l', journal', hr, h', hout, horder⟩ := ageTimes_outlived h l.oldest journal
  have hy : ∀ g, g < l'.oldest → l'.ids g = [] := by
    intro g hg
    rw [Lru.ids, hout.younger h'.toCoherent hg, List.map_nil]
  refine ⟨l', journal', hr, h', hout.size_eq, hy, ?_⟩
  rw [← h'.toCoherent.order_of_younger hy, horder, ho]

lemma Lined.touch (h : Lined generations n l) (id : FrameId) : Lined generations n (l.touch id) := by
  have ht := h.consistent.toCoherent.touch id
  have hold : (l.touch id).oldest = l.oldest := by simp only [Lru.oldest, ht.size_eq]
  refine ⟨(h.consistent.touch id).1, ht.size_eq.trans h.size_eq, ?_, ?_⟩
  · simpa only [Lru.ids, Lru.cells_touch, hold] using h.younger
  · simpa only [Lru.ids, Lru.cells_touch, hold] using h.oldest_eq

lemma Lined.touchTimes [RandomSource ρ] {k : Nat} (h : Lined generations n l) (hk : n = 0 → k = 0) (source : ρ) :
    ∃ l' source', touchTimes n k l source = .ok (l', source') ∧ Lined generations n l' := by
  induction k generalizing l source with
  | zero => exact ⟨l, source, rfl, h⟩
  | succ k ih =>
    have hn : n ≠ 0 := fun h0 => Nat.succ_ne_zero k (hk h0)
    simp only [ScanBench.touchTimes, if_neg hn]
    exact ih (h.touch _) (fun h0 => absurd h0 hn) _

lemma accessed_eq_zero (hp : b.accessedPercent.toNat ≤ 100) (h0 : b.resident = 0) :
    (percentShare b.resident.toUInt64 b.accessedPercent).toNat = 0 := by
  rw [toNat_percentShare _ hp, h0]
  simp

variable [RandomSource ρ]

lemma prepare_lined (hr : b.resident < Arena.slotLimit) (hg : 0 < b.generations)
    (hp : b.accessedPercent.toNat ≤ 100) (hm : b.generations * Generation.bytes ≤ blockLimit) :
    ∃ l journal source, b.prepare = .ok (l, { b with journal, source }) ∧
      Lined b.generations b.resident l := by
  have hc := create_eq hg
  rw [if_pos hm] at hc
  obtain ⟨l₁, hi, h₁, hsize, horder⟩ := Lru.fresh_foldlM_insert (64 : UInt64).toNat hg hr.le
  have hold : l₁.oldest = b.generations - 1 := congrArg (· - 1) hsize
  obtain ⟨l₂, journal, ha, h₂⟩ := ageTimes_lined h₁ horder b.journal
  rw [hold] at ha
  rw [hsize] at h₂
  obtain ⟨l, source, ht, h⟩ := h₂.touchTimes (accessed_eq_zero hp) b.source
  refine ⟨l, journal, source, ?_, h⟩
  simp only [prepare, hc, hi, ha, ht, ok_bind, pure_eq_ok]

structure FullSized (b : ScanBench ρ) : Prop where
  prepared : ∃ l journal source, b.prepare = .ok (l, { b with journal, source }) ∧
    Lined b.generations b.resident l ∧
    ∃ s l', l.scan b.budget = .ok (s, l') ∧ s.scanned = min b.budget b.resident
  executed : ∀ timer, ∃ journal source,
    b.execute timer = .ok (timer.stop.1, { b with journal, source }, timer.stop.2)

theorem scan_is_full_size (hr : b.resident < Arena.slotLimit) (hg : 0 < b.generations)
    (hp : b.accessedPercent.toNat ≤ 100) :
    (b.generations * Generation.bytes ≤ blockLimit → b.FullSized) ∧
      (blockLimit < b.generations * Generation.bytes → b.prepare = .error .capacityOverflow ∧
        ∀ timer, b.execute timer = .error .capacityOverflow) := by
  constructor
  · intro hm
    obtain ⟨l, journal, source, hl, h⟩ := prepare_lined hr hg hp hm
    obtain ⟨s, l', hs, hscanned⟩ := h.consistent.scan_scanned b.budget
    have hlen : (l.ids l.oldest).length = b.resident := by
      simpa using congrArg List.length h.oldest_eq
    rw [hlen] at hscanned
    refine ⟨⟨l, journal, source, hl, h, s, l', hs, hscanned⟩, fun timer => ?_⟩
    refine ⟨journal ++ s.events l'.sizes, source, ?_⟩
    simp [execute, hl, hs, hscanned]
  · intro hm
    have hc := create_eq hg
    rw [if_neg (Nat.not_le.mpr hm)] at hc
    have hprep : b.prepare = .error .capacityOverflow := by
      simp only [prepare, hc, error_bind]
    exact ⟨hprep, fun timer => by simp only [execute, hprep, error_bind]⟩

theorem scan_of_four_frames_is_full_size :
    let b : ScanBench Xoshiro128 := ⟨4, 3, 3, 50, Xoshiro128.ofSeed [1, 2, 3], #[]⟩
    b.resident < Arena.slotLimit ∧ 0 < b.generations ∧ b.accessedPercent.toNat ≤ 100 ∧
      b.generations * Generation.bytes ≤ blockLimit ∧ b.FullSized := by
  intro b
  have hr : b.resident < Arena.slotLimit := by decide
  have hg : 0 < b.generations := by decide
  have hp : b.accessedPercent.toNat ≤ 100 := by decide
  have hm : b.generations * Generation.bytes ≤ blockLimit := by decide
  exact ⟨hr, hg, hp, hm, (scan_is_full_size hr hg hp).1 hm⟩

theorem largest_engines_are_not_scanned :
    let b : ScanBench Xoshiro128 :=
      ⟨4, 96076792050570582, 3, 50, Xoshiro128.ofSeed [1, 2, 3], #[]⟩
    b.resident < Arena.slotLimit ∧ 0 < b.generations ∧ b.accessedPercent.toNat ≤ 100 ∧
      b.prepare = .error .capacityOverflow := by
  exact ⟨by decide, by decide, by decide, rfl⟩

end ScanBench

end FramePool
