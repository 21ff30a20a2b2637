import FramePool.Proofs.Lru.Fresh
import FramePool.Proofs.Pool.Whole
import FramePool.Proofs.Recency

/-! A new pool: no frame is resident and all of them are free. Its watermarks are shares of the
capacity. -/

namespace FramePool

lemma toNat_pos {x : UInt64} (h : x ≠ 0) : 0 < x.toNat :=
  Nat.pos_of_ne_zero fun h0 => h (UInt64.toNat_inj.mp h0)

namespace Config

variable {c : Config}

lemma of_validate (h : c.validate = .ok ()) :
    0 < c.capacity.toNat ∧ c.highPercent.toNat ≤ 100 ∧ c.lowPercent.toNat < c.highPercent.toNat ∧
      0 < c.directBudget.toNat := by
  rw [validate] at h
  split_ifs at h with hcap _ _ hmarks hbudget
  rw [not_or, UInt8.not_lt, UInt8.not_le, UInt8.le_iff_toNat_le, UInt8.lt_iff_toNat_lt] at hmarks
  exact ⟨toNat_pos hcap, hmarks.1, hmarks.2, toNat_pos hbudget⟩

end Config

lemma toNat_percentShare (value : UInt64) {percent : UInt8} (h : percent.toNat ≤ 100) :
    (percentShare value percent).toNat = value.toNat * percent.toNat / 100 := by
  have hle : value.toNat * percent.toNat / 100 ≤ value.toNat := by
    apply Nat.div_le_of_le_mul
    rw [Nat.mul_comm]
    exact Nat.mul_le_mul_right _ h
  rw [percentShare, Nat.toUInt64, UInt64.toNat_ofNat']
  exact Nat.mod_eq_of_lt (Nat.lt_of_le_of_lt hle value.toNat_lt)

lemma toNat_divUp {x y z : UInt64} (h : divUp x y = .ok z) :
    z.toNat = (x.toNat + y.toNat - 1) / y.toNat := by
  rw [divUp] at h
  split_ifs at h with hadd hpos hy
  obtain rfl := Except.ok.inj h
  have hsum : (x + y).toNat = x.toNat + y.toNat := by
    rw [UInt64.toNat_add]
    exact Nat.mod_eq_of_lt (Nat.lt_of_not_le hadd)
  have hone : (1 : UInt64) ≤ x + y := by
    rw [UInt64.le_iff_toNat_le, hsum]
    exact Nat.one_le_iff_ne_zero.mpr hpos
  rw [UInt64.toNat_div, UInt64.toNat_sub_of_le _ _ hone, hsum]
  rfl

def Config.window (c : Config) : Nat :=
  (c.refaultWindow.map UInt64.toNat).getD ((c.capacity.toNat + 3) / 4)

lemma Config.window_eq {c : Config} {quarter : UInt64} (hq : divUp c.capacity 4 = .ok quarter) :
    (c.refaultWindow.getD quarter).toNat = c.window := by
  rw [window]
  cases c.refaultWindow with
  | none => exact toNat_divUp hq
  | some w => rfl

namespace Pool

variable {σ : Type}

def fresh (c : Config) (pacer : σ) (window : Nat) : Pool σ where
  settings := ⟨c.capacity.toNat, (percentShare c.capacity c.highPercent).toNat,
    (percentShare c.capacity c.lowPercent).toNat, c.directBudget.toNat, c.background⟩
  lru := Lru.fresh c.generations.toNat c.trackerWords.toNat
  free := Queue.ofList (List.range c.capacity.toNat)
  pacer
  ghosts := GhostList.empty window
  tally := {}
  journal := #[.opened c.capacity.toNat c.generations.toNat
    (percentShare c.capacity c.lowPercent).toNat (percentShare c.capacity c.highPercent).toNat
    c.background]

variable {c : Config} {pacer : σ} {p : Pool σ}

lemma fresh_whole {window : Nat} (hg : 0 < c.generations.toNat)
    (hn : c.capacity.toNat < Arena.slotLimit) : (fresh c pacer window).Whole := by
  have ho := Lru.fresh_order c.generations.toNat c.trackerWords.toNat hg
  exact ⟨Lru.fresh_consistent _ _ hg, by simp [fresh, ho], hn⟩

lemma create_eq_fresh_window (hc : create c pacer = .ok p) :
    c.validate = .ok () ∧ 0 < c.generations.toNat ∧ p = fresh c pacer c.window := by
  rw [create] at hc
  split at hc
  · cases hc
  rename_i hv
  cases hb : build c pacer with
  | error f =>
    rw [hb] at hc
    cases hc
  | ok q =>
    rw [hb] at hc
    obtain rfl : q = p := Except.ok.inj hc
    simp only [build, bind_eq_ok] at hb
    obtain ⟨quarter, hquarter, l, hl, _, _, ghosts, hg, hq⟩ := hb
    obtain ⟨rfl, hpos, _⟩ := Lru.create_ok hl
    rw [GhostList.create_eq_empty hg, Config.window_eq hquarter] at hq
    exact ⟨hv, hpos, (Except.ok.inj hq).symm⟩

lemma create_eq_fresh (hc : create c pacer = .ok p) :
    c.validate = .ok () ∧ 0 < c.generations.toNat ∧ ∃ window, p = fresh c pacer window := by
  obtain ⟨hv, hg, hp⟩ := create_eq_fresh_window hc
  exact ⟨hv, hg, _, hp⟩

lemma create_whole (hc : create c pacer = .ok p) (hn : c.capacity.toNat < Arena.slotLimit) :
    p.Whole ∧ p.settings.capacity = c.capacity.toNat ∧ c.validate = .ok () := by
  obtain ⟨hv, hg, window, rfl⟩ := create_eq_fresh hc
  exact ⟨fresh_whole hg hn, rfl, hv⟩

end Pool

end FramePool
