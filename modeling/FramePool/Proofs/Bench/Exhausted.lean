import FramePool.Bench.Allocation
import FramePool.Proofs.Bench.Warmup
import FramePool.Proofs.Pool.Rotation

/-! Allocations from an exhausted pool, measured one after another. The first of them evicts a batch of
frames, and the ones after it take what is left of the batch without a pass. -/

namespace FramePool

open Pool

namespace AllocationBench

def Full (b : AllocationBench) : Prop :=
  b.pool.used = b.pool.settings.capacity ∧ b.pool.free.toList = []

def Reaches (n : Nat) (b b' : AllocationBench) : Prop :=
  ∀ timer readings, ∃ readings' timer',
    Benchmark.executions n b timer readings = .ok (readings', b', timer')

structure Filling (p : Pool PidLoop) (k : Nat) : Prop extends Circling p k where
  young : ∀ g, 0 < g → p.lru.ids g = []
  evicted_eq : p.lru.counters.evicted = 0

structure Ready (b : AllocationBench) : Prop where
  exhausted : b.exhausted = true
  circling : ∃ k, Circling b.pool k
  budget : b.pool.settings.directBudget = 10
  capacity_pos : 0 < b.pool.settings.capacity

variable {b b' b'' : AllocationBench} {p q : Pool PidLoop} {id : FrameId} {n k : Nat}

namespace Filling

lemma used_eq (h : Filling p k) : p.used = k := by
  have := h.count_eq
  have := h.evicted_eq
  have := h.whole.used_eq
  omega

lemma allocate (h : Filling p k) (hb : 0 < p.settings.directBudget) (hk : k < p.settings.capacity) :
    ∃ id q, p.allocate = .ok (some id, q) ∧ q.settings = p.settings ∧ Filling q (k + 1) := by
  obtain ⟨q, hq, hs, hc⟩ := h.toCircling.allocate hb (by omega)
  obtain ⟨hnil, _⟩ | ⟨_, ho⟩ := allocate_cases hq
  · have := h.whole.resident_of_full hnil
    have := h.whole.used_eq
    have := h.used_eq
    omega
  · obtain ⟨_, _, hct, hids⟩ := (h.whole.acts_handOut ho).of_handOut
    exact ⟨_, q, hq, hs, hc, fun g hg => (hids g hg).trans (h.young g hg), hct ▸ h.evicted_eq⟩

lemma fill (h : Filling p k) (hb : 0 < p.settings.directBudget) (hn : k + n = p.settings.capacity) :
    ∃ q, AllocationBench.fill n p = .ok q ∧ q.settings = p.settings ∧ Filling q p.settings.capacity := by
  have hu := h.used_eq
  induction n generalizing p k with
  | zero =>
    obtain rfl : k = p.settings.capacity := hn
    rw [AllocationBench.fill, if_neg (by omega)]
    exact ⟨p, rfl, rfl, h⟩
  | succ n ih =>
    obtain ⟨id, p₁, hq, hs, h₁⟩ := h.allocate hb (by omega)
    rw [AllocationBench.fill, if_pos (by omega), hq, ok_bind]
    rw [← hs] at hb hn ⊢
    exact ih h₁ hb (by omega) h₁.used_eq

lemma length_ids (h : Filling p k) : (p.lru.ids 0).length = k := by
  have ho : p.lru.order = p.lru.ids 0 := by
    have hnil : ∀ g, p.lru.ids (g + 1) = [] := fun g => h.young _ (Nat.succ_pos g)
    rw [h.whole.lru.sound.order_eq, h.whole.lru.size_eq_succ, List.range_succ_eq_map]
    simp [List.flatMap_map, hnil]
  rw [← ho, ← h.whole.lru.resident_eq, ← h.whole.used_eq, h.used_eq]

lemma full (h : Filling b.pool b.pool.settings.capacity) : b.Full := by
  refine ⟨h.used_eq, List.eq_nil_of_length_eq_zero ?_⟩
  have := h.used_eq
  have := h.whole.size_add_resident
  have := h.whole.used_eq
  rw [Queue.length_toList]
  omega

lemma first_batch (h : Filling p p.settings.capacity) (hb : p.settings.directBudget = 10)
    (hf : p.free.toList = []) (hq : InBatches p q) : q.free.size + 1 = min 10 p.settings.capacity := by
  obtain ⟨g, he, hsize, _⟩ := hq.of_full hf
  have hg : g = 0 := by
    by_contra hne
    exact he.ne_nil (h.young g (Nat.pos_of_ne_zero hne))
  rw [hsize, hg, h.length_ids, hb]

end Filling

lemma execute_of_exhausted (he : b.exhausted = true) (hq : b.pool.allocate = .ok (some id, q))
    (timer : Timer) : b.execute timer = .ok (timer.stop.1, { b with pool := q }, timer.stop.2) := by
  rw [execute, hq, he]
  rfl

namespace Reaches

lemma refl (b : AllocationBench) : Reaches 0 b b := fun timer readings => ⟨readings, timer, rfl⟩

lemma cons (he : b.exhausted = true) (hq : b.pool.allocate = .ok (some id, q))
    (hr : Reaches n { b with pool := q } b') : Reaches (n + 1) b b' := by
  intro timer readings
  obtain ⟨readings', timer', hn⟩ := hr timer.stop.2 (readings.push timer.stop.1)
  refine ⟨readings', timer', ?_⟩
  rw [Benchmark.executions]
  change (b.execute timer >>= _) = _
  rw [execute_of_exhausted he hq, ok_bind]
  exact hn

lemma unique (h : Reaches n b b') (h' : Reaches n b b'') : b'' = b' := by
  obtain ⟨_, _, hn⟩ := h ⟨fun _ => 0, 0, 0⟩ #[]
  obtain ⟨_, _, hn'⟩ := h' ⟨fun _ => 0, 0, 0⟩ #[]
  rw [hn] at hn'
  cases hn'
  rfl

end Reaches

lemma exists_filled {capacity generations : UInt64} (hcap : 0 < capacity.toNat)
    (hgen : 0 < generations.toNat) (hn : capacity.toNat < Arena.slotLimit)
    (hm : generations.toNat * Generation.bytes ≤ blockLimit) :
    ∃ b, create capacity generations true = .ok b ∧ Ready b ∧
      b.pool.settings.capacity = capacity.toNat ∧ Filling b.pool b.pool.settings.capacity := by
  let c : Config := { capacity, generations, background := false }
  let pacer : PidLoop := { gains := {} }
  have hquiet : Benchmark.quietPool capacity generations pacer = .ok (fresh c pacer c.window) :=
    Benchmark.quietPool_eq pacer hcap hgen hn hm
  have hyoung : ∀ g, 0 < g → (fresh c pacer c.window).lru.ids g = [] :=
    fun g _ => List.map_eq_nil_iff.mpr (Lru.fresh_cells _ _ g)
  have hempty : Filling (fresh c pacer c.window) 0 := ⟨fresh_circling hgen hn, hyoung, rfl⟩
  have hb : (fresh c pacer c.window).settings.directBudget = 10 := rfl
  have hsize : 0 + capacity.toNat = (fresh c pacer c.window).settings.capacity := Nat.zero_add _
  obtain ⟨q, hq, hs, hf⟩ := hempty.fill (hb ▸ Nat.succ_pos 9) hsize
  rw [← hs] at hf
  refine ⟨⟨q, capacity, generations, true⟩, ?_, ⟨rfl, ⟨_, hf.toCircling⟩, ?_, ?_⟩, ?_, hf⟩
  · change (Benchmark.quietPool capacity generations pacer >>= _) = _
    rw [hquiet, ok_bind, if_pos rfl, hq]
    rfl
  all_goals rw [hs]
  · exact hb
  · exact hcap
  · rfl

namespace Ready

lemma full_iff (h : Ready b) : b.Full ↔ b.pool.free.toList = [] := by
  obtain ⟨k, hc⟩ := h.circling
  refine ⟨And.right, fun hnil => ⟨?_, hnil⟩⟩
  rw [hc.whole.used_eq, hc.whole.resident_of_full hnil]

lemma allocate (h : Ready b) : ∃ id q, b.pool.allocate = .ok (some id, q) ∧
    Ready { b with pool := q } ∧ q.settings = b.pool.settings ∧ InBatches b.pool q := by
  obtain ⟨k, hc⟩ := h.circling
  have hb : 0 < b.pool.settings.directBudget := by
    rw [h.budget]
    decide
  obtain ⟨q, hq, hs, hc'⟩ := hc.allocate hb h.capacity_pos
  exact ⟨_, q, hq, ⟨h.exhausted, ⟨k + 1, hc'⟩, hs ▸ h.budget, hs ▸ h.capacity_pos⟩, hs,
    hc.whole.in_batches hc.unmarked hb h.capacity_pos hq⟩

lemma reaches (h : Ready b) (n : Nat) : ∃ b', Reaches n b b' ∧ Ready b' := by
  induction n generalizing b with
  | zero => exact ⟨b, .refl b, h⟩
  | succ n ih =>
    obtain ⟨id, q, hq, h₁, _⟩ := h.allocate
    obtain ⟨b', hr, h'⟩ := ih h₁
    exact ⟨b', .cons h.exhausted hq hr, h'⟩

lemma full_of_single (h : Ready b) (hf : b.Full) (hone : b.pool.settings.capacity = 1)
    (hq : InBatches b.pool q) : q.free.toList = [] := by
  obtain ⟨k, hc⟩ := h.circling
  obtain ⟨g, _, hsize, _⟩ := hq.of_full hf.2
  have hlen := hc.whole.lru.length_le g
  have hres := hc.whole.resident_of_full hf.2
  rw [Lru.length_ids] at hsize
  rw [← List.length_eq_zero_iff, Queue.length_toList]
  omega

lemma reaches_single (h : Ready b) (hf : b.Full) (hone : b.pool.settings.capacity = 1) (n : Nat) :
    ∃ b', Reaches n b b' ∧ b'.Full := by
  induction n generalizing b with
  | zero => exact ⟨b, .refl b, hf⟩
  | succ n ih =>
    obtain ⟨id, q, hq, h₁, hs, hin⟩ := h.allocate
    have hf₁ : Full { b with pool := q } := h₁.full_iff.mpr (h.full_of_single hf hone hin)
    obtain ⟨b', hr, hf'⟩ := ih h₁ hf₁ (hs ▸ hone)
    exact ⟨b', .cons h.exhausted hq hr, hf'⟩

lemma passes_iff (h : Ready b) (hq : InBatches b.pool q) :
    b.pool.tally.directPasses < q.tally.directPasses ↔ b.Full := by
  rw [h.full_iff]
  constructor
  · intro hlt
    by_contra hne
    have := (hq.of_free hne).2
    omega
  · intro hnil
    obtain ⟨g, _, _, hpasses⟩ := hq.of_full hnil
    omega

end Ready

theorem exhausted_pool_reclaims_in_batches {capacity generations : UInt64} (hcap : 0 < capacity.toNat)
    (hgen : 0 < generations.toNat) (hn : capacity.toNat < Arena.slotLimit)
    (hm : generations.toNat * Generation.bytes ≤ blockLimit) :
    ∃ b, create capacity generations true = .ok b ∧ b.Full ∧
      (∀ b', Reaches 1 b b' → b'.pool.free.size + 1 = min 10 capacity.toNat) ∧
      (∀ n, ∃ b' b'', Reaches n b b' ∧ Reaches 1 b' b'' ∧
        (∃ id, b'.pool.allocate = .ok (some id, b''.pool)) ∧
        b'.pool.settings.directBudget = 10 ∧ InBatches b'.pool b''.pool ∧
        (b'.pool.tally.directPasses < b''.pool.tally.directPasses ↔ b'.Full)) ∧
      ((∀ n b', Reaches n b b' → b'.Full) ↔ capacity = 1) := by
  obtain ⟨b, hc, h, hcapacity, hfill⟩ := exists_filled hcap hgen hn hm
  have hfull : b.Full := hfill.full
  obtain ⟨_, q, hq, _, _, hin⟩ := h.allocate
  have hone : Reaches 1 b { b with pool := q } := .cons h.exhausted hq (.refl _)
  have hbatch := hfill.first_batch h.budget hfull.2 hin
  rw [hcapacity] at hbatch
  refine ⟨b, hc, hfull, fun b' hr => ?_, fun n => ?_, fun hall => ?_, ?_⟩
  · rw [hone.unique hr]
    exact hbatch
  · obtain ⟨b', hr, h'⟩ := h.reaches n
    obtain ⟨id, q', hq', _, _, hin'⟩ := h'.allocate
    exact ⟨b', { b' with pool := q' }, hr, .cons h'.exhausted hq' (.refl _), ⟨id, hq'⟩, h'.budget,
      hin', h'.passes_iff hin'⟩
  · obtain ⟨_, hnil⟩ := hall 1 _ hone
    rw [← Queue.length_toList, hnil, List.length_nil] at hbatch
    apply UInt64.toNat_inj.mp
    change capacity.toNat = 1
    omega
  · rintro rfl n b' hr
    obtain ⟨b₁, hr₁, hf₁⟩ := h.reaches_single hfull hcapacity n
    rwa [hr₁.unique hr]

theorem one_frame_stays_exhausted :
    ∃ b, create 1 3 true = .ok b ∧ b.Full ∧ ∀ n, ∃ b', Reaches n b b' ∧ b'.Full := by
  obtain ⟨b, hc, hf, _, hrun, hiff⟩ := @exhausted_pool_reclaims_in_batches 1 3 (by decide) (by decide)
    (by decide) (by decide)
  refine ⟨b, hc, hf, fun n => ?_⟩
  obtain ⟨b', _, hr, _⟩ := hrun n
  exact ⟨b', hr, hiff.mpr rfl n b' hr⟩

theorem two_frames_do_not_stay_exhausted :
    ∃ b b' b'', create 2 1 true = .ok b ∧ b.Full ∧ Reaches 1 b b' ∧ ¬b'.Full ∧ Reaches 1 b' b'' ∧
      b''.pool.tally.directPasses = b'.pool.tally.directPasses := by
  obtain ⟨b, hc, h, hcapacity, hfill⟩ := @exists_filled 2 1 (by decide) (by decide) (by decide)
    (by decide)
  have hfull : b.Full := hfill.full
  obtain ⟨id, q, hq, h', _, hin⟩ := h.allocate
  obtain ⟨id', q', hq', _, _, hin'⟩ := h'.allocate
  have hone : q.free.size = 1 := by
    have hbatch := hfill.first_batch h.budget hfull.2 hin
    have htwo : b.pool.settings.capacity = 2 := hcapacity
    omega
  have hne : q.free.toList ≠ [] := List.ne_nil_of_length_pos (by simp [hone])
  exact ⟨b, _, _, hc, hfull, .cons h.exhausted hq (.refl _), fun hf => hne hf.2,
    .cons h'.exhausted hq' (.refl _), (hin'.of_free hne).2⟩

end AllocationBench

end FramePool
