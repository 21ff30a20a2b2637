import FramePool.Pacer.Steady
import FramePool.Proofs.Pool.Fresh

/-! In every run of operations on a pool no frame is lost, and none is in two places. -/

namespace FramePool

namespace Pool

inductive Op where
  | allocate
  | access (id : FrameId)
  | release (id : FrameId)
  | reclaim (budget : Nat)
  | direct (budget : Nat)
  | proactive
  | background (budget : Nat)

inductive Outcome where
  | done
  | allocated (id : Option FrameId)
  | scanned (s : Scan)
  | reclaimed (count : Nat)

structure Conserved {σ : Type} (p : Pool σ) : Prop where
  free_nodup : p.free.toList.Nodup
  free_lt : ∀ id ∈ p.free.toList, id < p.settings.capacity
  resident_lt : ∀ id, p.lru.contains id = true → id < p.settings.capacity
  one_place : ∀ id < p.settings.capacity, (id ∈ p.free.toList ↔ p.lru.contains id = false)
  free_le : p.free.size ≤ p.settings.capacity
  used_eq : p.used = p.lru.resident
  resident_eq : p.lru.resident = p.lru.sizes.sum

section Runs

variable {σ : Type} [Pacer σ]

def step (p : Pool σ) : Op → Except Fault (Outcome × Pool σ)
  | .allocate => do
      let (id, p) ← p.allocate
      return (.allocated id, p)
  | .access id => return (.done, p.access id)
  | .release id => do return (.done, ← p.release id)
  | .reclaim budget => do
      let (s, p) ← p.reclaim budget
      return (.scanned s, p)
  | .direct budget => do
      let (count, p) ← p.direct budget
      return (.reclaimed count, p)
  | .proactive => do
      let (count, p) ← p.proactive
      return (.reclaimed count, p)
  | .background budget => do
      let (s, p) ← p.pass budget .background
      return (.scanned s, p)

def run : List Op → Pool σ → Except Fault (List Outcome × Pool σ)
  | [], p => .ok ([], p)
  | op :: ops, p => do
      let (out, p) ← p.step op
      let (outs, p) ← run ops p
      return (out :: outs, p)

variable {p : Pool σ}

omit [Pacer σ] in
lemma Whole.conserved (h : p.Whole) : p.Conserved := by
  have hmem : ∀ id, id ∈ p.free.toList ∨ p.lru.contains id = true ↔ id < p.settings.capacity := by
    intro id
    rw [← h.lru.mem_order, ← List.mem_append, h.split.mem_iff, List.mem_range]
  refine ⟨(List.nodup_append.mp h.nodup).1, ?_, ?_, ?_, ?_, h.used_eq, ?_⟩
  · intro id hid
    exact (hmem id).mp (.inl hid)
  · intro id hid
    exact (hmem id).mp (.inr hid)
  · intro id hid
    refine ⟨h.not_resident, fun hno => ?_⟩
    rcases (hmem id).mpr hid with hfree | hres
    · exact hfree
    · rw [hno] at hres
      cases hres
  · have := h.size_add_resident
    omega
  · rw [h.lru.sound.sizes_sum, h.lru.resident_eq]

lemma Whole.step (h : p.Whole) (op : Op) :
    ∃ out q, p.step op = .ok (out, q) ∧ q.Whole ∧ q.settings = p.settings := by
  cases op with
  | allocate =>
    obtain ⟨id, q, hq, hw, hs⟩ := h.allocate
    exact ⟨.allocated id, q, by simp [Pool.step, hq], hw, hs⟩
  | access id =>
    obtain ⟨hw, hs⟩ := h.access id
    exact ⟨.done, p.access id, rfl, hw, hs⟩
  | release id =>
    obtain ⟨q, hq, hw, hs⟩ := h.release id
    exact ⟨.done, q, by simp [Pool.step, hq], hw, hs⟩
  | reclaim budget =>
    obtain ⟨s, q, hq, hw, hpq⟩ := h.pass budget .requested
    exact ⟨.scanned s, q, by simp [Pool.step, reclaim, hq], hw, hpq.settings_eq⟩
  | direct budget =>
    obtain ⟨count, q, hq, hw, hs⟩ := h.direct budget
    exact ⟨.reclaimed count, q, by simp [Pool.step, hq], hw, hs⟩
  | proactive =>
    obtain ⟨s, q, hq, hw, hpq⟩ := h.pass (Pacer.pace p.pacer) .requested
    exact ⟨.reclaimed s.evicted.size, q, by simp [Pool.step, proactive, reclaim, hq], hw,
      hpq.settings_eq⟩
  | background budget =>
    obtain ⟨s, q, hq, hw, hpq⟩ := h.pass budget .background
    exact ⟨.scanned s, q, by simp [Pool.step, hq], hw, hpq.settings_eq⟩

lemma Whole.run (h : p.Whole) (ops : List Op) :
    ∃ outs q, run ops p = .ok (outs, q) ∧ q.Whole ∧ q.settings = p.settings := by
  induction ops generalizing p with
  | nil => exact ⟨[], p, rfl, h, rfl⟩
  | cons op ops ih =>
    obtain ⟨out, q, hq, hw, hs⟩ := h.step op
    obtain ⟨outs, r, hr, hw', hs'⟩ := ih hw
    exact ⟨out :: outs, r, by simp [Pool.run, hq, hr], hw', hs'.trans hs⟩

theorem conserved_in_every_run {c : Config} {pacer : σ} {start : Pool σ}
    (hc : create c pacer = .ok start) (hn : c.capacity.toNat < Arena.slotLimit) (ops : List Op) :
    ∃ outs p, run ops start = .ok (outs, p) ∧ p.settings.capacity = c.capacity.toNat ∧
      p.Conserved := by
  obtain ⟨hw, hcap, _⟩ := create_whole hc hn
  obtain ⟨outs, p, hr, hp, hs⟩ := hw.run ops
  exact ⟨outs, p, hr, by rw [hs, hcap], hp.conserved⟩

end Runs

theorem conserved_with_three_frames :
    ∃ start, create { capacity := 3, generations := 2, trackerWords := 1 } (Steady.ofNat 1) = .ok start ∧
      ∃ outs p, run [.allocate, .allocate, .allocate, .access 0, .allocate, .release 1, .release 1,
        .access 9, .background 1, .proactive, .direct 2] start = .ok (outs, p) ∧
        p.settings.capacity = 3 ∧ p.Conserved := by
  have hc : ∃ start, create { capacity := 3, generations := 2, trackerWords := 1 } (Steady.ofNat 1) =
      .ok start := ⟨_, rfl⟩
  obtain ⟨start, hc⟩ := hc
  exact ⟨start, hc, conserved_in_every_run hc (by decide) _⟩

end Pool

end FramePool
