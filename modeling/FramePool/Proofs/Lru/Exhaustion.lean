import FramePool.Proofs.Lru.History
import FramePool.Proofs.Lru.Progress

/-! Scans without accesses in between empty an engine, whatever their budgets are. -/

namespace FramePool

namespace Lru

def scans (budgets : List Nat) : List Op := budgets.map .scan

@[simp] lemma scans_cons (b : Nat) (budgets : List Nat) :
    scans (b :: budgets) = .scan b :: scans budgets := rfl

variable {l : Lru} {budgets : List Nat}

lemma Coherent.resident_eq_zero (h : l.Coherent) : l.resident = 0 ↔ l.order = [] := by
  rw [h.resident_eq, List.length_eq_zero_iff]

lemma Consistent.run_scans (h : l.Consistent) (hb : ∀ b ∈ budgets, 1 ≤ b) :
    ∃ outs l', Lru.run (scans budgets) l = .ok (outs, l') ∧ l'.Consistent ∧
      (evictions ((scans budgets).zip outs) ++ l'.order).Perm l.order ∧
      (l'.resident = 0 ∨ l'.potential + budgets.length ≤ l.potential) := by
  induction budgets generalizing l with
  | nil => exact ⟨[], l, rfl, h, by simp [scans, evictions], Or.inr le_rfl⟩
  | cons b budgets ih =>
    obtain ⟨hpos, hb⟩ := List.forall_mem_cons.mp hb
    obtain ⟨s, l₁, hs, h₁, _, hp₁, _⟩ := h.scan b
    obtain ⟨outs, l', hr, h', hp', hpot⟩ := ih h₁ hb
    have hperm : (evictions ((scans (b :: budgets)).zip (.scanned s :: outs)) ++ l'.order).Perm
        l.order := by
      have hp := (hp'.append_left s.evicted.toList).trans hp₁
      simpa [evictions, evicted] using hp
    refine ⟨.scanned s :: outs, l', by simp [Lru.run, Lru.step, hs, hr], h', hperm, ?_⟩
    -- Once no frame is left none comes back, and until then each scan lowers the potential.
    rcases Nat.eq_zero_or_pos l.resident with h0 | hres
    · left
      rw [h.resident_eq_zero.mp h0] at hperm
      exact h'.resident_eq_zero.mpr (List.append_eq_nil_iff.mp hperm.eq_nil).2
    · obtain ⟨s', l₂, hs', hlt⟩ := h.scan_progress hpos hres
      obtain ⟨_, rfl⟩ := Prod.mk.inj (Except.ok.inj (hs.symm.trans hs'))
      cases hpot with
      | inl h0 => exact Or.inl h0
      | inr hle =>
        right
        rw [List.length_cons]
        omega

theorem emptied_by_scans {n words : Nat} {start : Lru} {past : List Op} {outs : List Outcome}
    (hc : Lru.create n words = .ok start) (hr : run past start = .ok (outs, l))
    (hn : l.resident < Arena.slotLimit) (hb : ∀ b ∈ budgets, 1 ≤ b)
    (hlen : n * (l.resident + l.accessBits) ≤ budgets.length) :
    ∃ outs' l', run (scans budgets) l = .ok (outs', l') ∧ l'.resident = 0 ∧
      (evictions ((scans budgets).zip outs')).Perm l.table.keys := by
  obtain ⟨rfl, hpos, _⟩ := create_ok hc
  obtain ⟨h, hsz, _⟩ := (fresh_coherent n words hpos).run hr
  have hcons : l.Consistent := ⟨h, hn.le⟩
  obtain ⟨outs', l', hr', h', hp, hpot⟩ := hcons.run_scans hb
  have hempty : l'.resident = 0 := by
    cases hpot with
    | inl h0 => exact h0
    | inr hle =>
      have hup := h.potential_le
      have hdown := h'.resident_le_distance
      rw [hsz, fresh_size] at hup
      have hd : l'.distance ≤ l'.potential := Nat.le_add_right _ _
      omega
  refine ⟨outs', l', hr', hempty, ?_⟩
  rw [h'.resident_eq_zero.mp hempty, List.append_nil] at hp
  exact hp.trans h.order_perm_keys

theorem emptied_in_single_steps :
    ∃ start, Lru.create 3 1 = .ok start ∧
      ∃ outs l, run [.insert 4, .insert 9, .age, .touch 4, .insert 2, .touch 2] start =
        .ok (outs, l) ∧ l.resident = 3 ∧ l.accessBits = 2 ∧
      ∃ outs' l', run (scans (List.replicate 15 1)) l = .ok (outs', l') ∧ l'.resident = 0 ∧
        (evictions ((scans (List.replicate 15 1)).zip outs')).Perm l.table.keys := by
  have hp : ∃ outs l, run [.insert 4, .insert 9, .age, .touch 4, .insert 2, .touch 2] (fresh 3 1) =
      .ok (outs, l) ∧ l.resident = 3 ∧ l.accessBits = 2 := ⟨_, _, rfl, by decide +kernel⟩
  obtain ⟨outs, l, hr, hres, hbits⟩ := hp
  refine ⟨fresh 3 1, rfl, outs, l, hr, hres, hbits, ?_⟩
  apply @emptied_by_scans l (List.replicate 15 1) 3 1 _ _ outs rfl hr
  · rw [hres]
    decide
  · decide
  · rw [hres, hbits]
    decide

end Lru

end FramePool
