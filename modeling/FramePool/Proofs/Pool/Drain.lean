import FramePool.Proofs.Lru.Progress
import FramePool.Proofs.Pool.Conservation

/-! Background reclaim ends, and it ends at the low watermark exactly. -/

namespace FramePool

lemma Lru.accessBits_le (l : Lru) :
    l.accessBits ≤ l.generations.foldl (fun n g => n + 64 * g.accessed.size) 0 := by
  have hf : l.generations.foldl (fun n g => n + 64 * g.accessed.size) 0 =
      (l.generations.toList.map fun g => 64 * g.accessed.size).sum := by
    rw [← Array.foldl_toList, List.sum_eq_foldl_nat, List.foldl_map]
  rw [hf]
  exact List.sum_le_sum fun g _ => g.accessed.count_le

namespace Pool

variable {σ : Type} [Pacer σ]

inductive Drains : Nat → Pool σ → Pool σ → Prop
  | done {p : Pool σ} : p.used ≤ p.settings.low → Drains 0 p p
  | pass {k : Nat} {p q r : Pool σ} : p.settings.low < p.used → p.drainStep = .ok q →
      q.settings.low ≤ q.used → Drains k q r → Drains (k + 1) p r

variable {p q : Pool σ}

lemma Drains.drainWithin_eq {k n : Nat} (h : Drains k p q) (hk : k ≤ n) :
    drainWithin n p = .ok q := by
  induction h generalizing n with
  | done hu =>
    cases n with
    | zero => rw [drainWithin, if_neg (Nat.not_lt.mpr hu)]
    | succ n => rw [drainWithin, if_neg (Nat.not_lt.mpr hu), pure_eq_ok]
  | pass hu hs _ _ ih =>
    obtain ⟨m, rfl⟩ : ∃ m, n = m + 1 := ⟨n - 1, by omega⟩
    simp [drainWithin, hu, hs, ih (Nat.le_of_succ_le_succ hk)]

namespace Whole

lemma drainStep (h : p.Whole) (hu : p.settings.low < p.used) :
    ∃ q, p.drainStep = .ok q ∧ q.Whole ∧ q.settings = p.settings ∧ p.settings.low ≤ q.used ∧
      q.lru.potential < p.lru.potential := by
  have hb : 0 < p.used - p.settings.low := by omega
  obtain ⟨s, q, hq, hw, hpq⟩ := h.pass (p.used - p.settings.low) .background
  obtain ⟨s', l, hs', _, _, _, hev⟩ := h.lru.scan (p.used - p.settings.low)
  obtain ⟨s'', l', hs'', hpot⟩ := h.lru.scan_progress hb (by rw [← h.used_eq]; omega)
  obtain ⟨rfl, rfl⟩ := Prod.mk.inj (Except.ok.inj (hs'.symm.trans hpq.scan_eq))
  obtain ⟨rfl, rfl⟩ := Prod.mk.inj (Except.ok.inj (hs''.symm.trans hpq.scan_eq))
  refine ⟨q, by simp [Pool.drainStep, hq], hw, hpq.settings_eq, ?_, hpot⟩
  have hsize : q.free.size = p.free.size + s''.evicted.size := by
    simpa using congrArg List.length hpq.free_eq
  rw [used, hsize, hpq.settings_eq]
  rw [used] at hev hu
  omega

lemma drains (h : p.Whole) (hle : p.settings.low ≤ p.used) :
    ∃ k q, k ≤ p.lru.potential ∧ Drains k p q ∧ q.used = q.settings.low ∧
      q.settings = p.settings := by
  induction hm : p.lru.potential using Nat.strong_induction_on generalizing p with
  | _ m ih =>
    rcases hle.eq_or_lt with he | hu
    · exact ⟨0, p, Nat.zero_le _, .done he.ge, he.symm, rfl⟩
    · obtain ⟨q, hq, hw, hs, hq', hpot⟩ := h.drainStep hu
      have hle' : q.settings.low ≤ q.used := by rwa [hs]
      obtain ⟨k, r, hk, hd, hr, hs'⟩ := ih _ (hm ▸ hpot) hw hle' rfl
      exact ⟨k + 1, r, by omega, .pass hu hq hle' hd, hr, hs'.trans hs⟩

end Whole

theorem drains_to_low_watermark {c : Config} {pacer : σ} {start : Pool σ}
    (hc : create c pacer = .ok start) (hn : c.capacity.toNat < Arena.slotLimit) {ops : List Op}
    {outs : List Outcome} (hr : run ops start = .ok (outs, p)) (hu : p.settings.low < p.used) :
    ∃ k q, k ≤ p.lru.generations.size * (p.lru.resident + p.lru.accessBits) ∧ Drains k p q ∧
      q.used = p.settings.low ∧ p.drain = .ok q := by
  obtain ⟨hw, _⟩ := create_whole hc hn
  obtain ⟨outs', p', hr', hp, _⟩ := hw.run ops
  obtain ⟨rfl, rfl⟩ := Prod.mk.inj (Except.ok.inj (hr'.symm.trans hr))
  obtain ⟨k, q, hk, hd, hq, hs⟩ := hp.drains hu.le
  have hk' := hk.trans hp.lru.potential_le
  refine ⟨k, q, hk', hd, by rw [hq, hs], hd.drainWithin_eq (hk'.trans ?_)⟩
  exact Nat.mul_le_mul_left _ (Nat.add_le_add_left p'.lru.accessBits_le _)

def sixFrames : Config where
  capacity := 6
  generations := 2
  trackerWords := 1
  highPercent := 50
  lowPercent := 20

theorem drains_five_frames_to_one :
    ∃ start outs p, create sixFrames (Steady.ofNat 1) = .ok start ∧
      run (List.replicate 5 .allocate ++ [.access 0, .access 3]) start = .ok (outs, p) ∧
      p.settings.low < p.used ∧
      ∃ k q, k ≤ p.lru.generations.size * (p.lru.resident + p.lru.accessBits) ∧ Drains k p q ∧
        q.used = p.settings.low ∧ p.drain = .ok q := by
  have hp : ∃ start outs p, create sixFrames (Steady.ofNat 1) = .ok start ∧
      run (List.replicate 5 .allocate ++ [.access 0, .access 3]) start = .ok (outs, p) ∧
      p.settings.low < p.used := ⟨_, _, _, rfl, rfl, by decide +kernel⟩
  obtain ⟨start, outs, p, hc, hr, hu⟩ := hp
  exact ⟨start, outs, p, hc, hr, hu, drains_to_low_watermark hc (by decide) hr hu⟩

end Pool

end FramePool
