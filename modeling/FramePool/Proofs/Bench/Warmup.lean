import FramePool.Bench.Basic
import FramePool.Proofs.Pool.Batches
import FramePool.Proofs.Pool.Opening

/-! The pools that benchmarks start from: new ones, and those whose first frames are handed out. -/

namespace FramePool

variable {σ : Type}

lemma Benchmark.quietPool_eq {capacity generations : UInt64} (pacer : σ) (hcap : 0 < capacity.toNat)
    (hgen : 0 < generations.toNat) (hn : capacity.toNat < Arena.slotLimit)
    (hm : generations.toNat * Generation.bytes ≤ blockLimit) :
    let c : Config := { capacity, generations, background := false }
    Benchmark.quietPool capacity generations pacer = .ok (Pool.fresh c pacer c.window) := by
  intro c
  have hlimit : Arena.slotLimit = 4294967295 := rfl
  have hblock : blockLimit = 9223372036854775800 := rfl
  have hwords : isPowerOfTwo c.trackerWords.toNat = true :=
    show isPowerOfTwo (64 : UInt64).toNat = true by decide +kernel
  have hv : c.validate = .ok () := by
    refine Config.validate_eq_ok_iff.mpr ⟨?_, ?_, hwords, by simp [c], by simp [c], by simp [c]⟩
    · rintro h0
      simp [show capacity = 0 from h0] at hcap
    · rintro h0
      simp [show generations = 0 from h0] at hgen
  have hfits : c.Fits := by
    refine ⟨⟨hm, show (64 : UInt64).toNat * wordBytes ≤ blockLimit by decide⟩, ?_, ?_⟩
    · change capacity.toNat * 8 ≤ blockLimit
      omega
    · change (capacity.toNat + 3) / 4 * 16 ≤ blockLimit
      omega
  have hopen : Pool.create c pacer = .ok (Pool.fresh c pacer c.window) := by
    apply Pool.create_of_fits hv pacer ?_ hfits
    change capacity.toNat + 4 < 18446744073709551616
    omega
  simp only [Benchmark.quietPool, hopen, c]

namespace Pool

variable {p q : Pool σ} {id : FrameId}

namespace Whole

lemma lt_of_mem_free (h : p.Whole) (hid : id ∈ p.free.toList) : id < p.settings.capacity :=
  List.mem_range.mp (h.split.subset (List.mem_append_left _ hid))

variable [Pacer σ]

lemma lt_of_allocate (h : p.Whole) (hq : p.allocate = .ok (some id, q)) :
    id < p.settings.capacity := by
  have hhand : ∀ {p₁ : Pool σ}, p₁.Whole → p₁.handOut = .ok (some id, q) →
      id < p₁.settings.capacity := by
    intro p₁ h₁ ho
    cases (h₁.acts_handOut ho).does with
    | handOut hf => exact h₁.lt_of_mem_free (by simp [hf])
  obtain ⟨_, _, p₁, hd, ho⟩ | ⟨_, ho⟩ := allocate_cases hq
  · obtain ⟨_, p₂, hd', h₂, hs⟩ := h.direct p.settings.directBudget
    obtain ⟨-, rfl⟩ := Prod.mk.inj (Except.ok.inj (hd'.symm.trans hd))
    exact hs ▸ hhand h₂ ho
  · exact hhand h ho

lemma allocate_free (h : p.Whole) (hf : 0 < p.free.size) : ∃ id q, p.allocate = .ok (some id, q) ∧
    q.Whole ∧ q.settings = p.settings ∧ q.free.size + 1 = p.free.size := by
  have hne : p.free.toList ≠ [] := List.ne_nil_of_length_pos (by simpa using hf)
  obtain ⟨id, q, hq, hw, hs⟩ := h.allocate
  obtain ⟨hnil, _⟩ | ⟨_, ho⟩ := allocate_cases hq
  · exact absurd hnil hne
  have ha := h.acts_handOut ho
  cases id with
  | none =>
    cases ha.does with
    | exhausted hnil => exact absurd hnil hne
  | some id => exact ⟨id, q, hq, hw, hs, ha.of_handOut.1⟩

lemma collect {n : Nat} (h : p.Whole) (hn : n ≤ p.free.size) (ids : Array FrameId)
    (hids : ∀ id ∈ ids, id < p.settings.capacity) :
    ∃ all q, p.collect n ids = .ok (all, q) ∧ q.Whole ∧ q.settings = p.settings ∧
      all.size = ids.size + n ∧ ∀ id ∈ all, id < p.settings.capacity := by
  induction n generalizing p ids with
  | zero => exact ⟨ids, p, rfl, h, rfl, rfl, hids⟩
  | succ n ih =>
    obtain ⟨id, p₁, hp, h₁, hs, hsize⟩ := h.allocate_free (by omega)
    have hpush : ∀ k ∈ ids.push id, k < p₁.settings.capacity := by
      intro k hk
      rw [hs]
      obtain hk | rfl := Array.mem_push.mp hk
      · exact hids k hk
      · exact h.lt_of_allocate hp
    obtain ⟨all, q, hq, hw, hs', hall, hlt⟩ := ih h₁ (by omega) (ids.push id) hpush
    refine ⟨all, q, by simp [Pool.collect, hp, hq], hw, hs'.trans hs, ?_, hs ▸ hlt⟩
    rw [hall, Array.size_push]
    omega

end Whole

end Pool

end FramePool
