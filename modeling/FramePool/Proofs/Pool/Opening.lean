import FramePool.Pacer.Steady
import FramePool.Proofs.Pool.Fresh

/-! A valid configuration opens a pool if there is memory for it and the default window can be computed.
For the last four capacities it cannot. -/

namespace FramePool

def LacksOnlyRoom {α : Type} (x : Except Fault α) : Prop := ∀ f, x = .error f → f = .capacityOverflow

lemma LacksOnlyRoom.of_ite {α : Type} {room : Prop} [Decidable room] {x : Except Fault α} {a : α}
    (h : x = if room then .ok a else .error .capacityOverflow) : LacksOnlyRoom x := by
  intro f hf
  rw [h] at hf
  split_ifs at hf
  exact (Except.error.inj hf).symm

lemma reserve_bind {α : Type} (count itemBytes : Nat) (x : Except Fault α) :
    (reserve count itemBytes >>= fun _ => x) =
      if count * itemBytes ≤ blockLimit then x else .error .capacityOverflow := by
  rw [reserve]
  split_ifs <;> rfl

lemma Bitmap.create_eq {words : Nat} (hp : isPowerOfTwo words = true) : Bitmap.create words =
    if words * wordBytes ≤ blockLimit then .ok (blank words) else .error .capacityOverflow := by
  simp only [Bitmap.create, hp, Bool.not_true, Bool.false_eq_true, if_false, pure_eq_ok]
  exact reserve_bind _ _ _

lemma GhostList.create_eq {capacity : Nat} (hc : capacity ≠ 0) : GhostList.create capacity =
    if capacity * entryBytes ≤ blockLimit then .ok (empty capacity) else .error .capacityOverflow := by
  simp only [GhostList.create, hc, if_false, pure_eq_ok]
  exact reserve_bind _ _ _

lemma Lru.create_eq {n words : Nat} (hn : n ≠ 0) (hp : isPowerOfTwo words = true) :
    Lru.create n words = if n * Generation.bytes ≤ blockLimit ∧ words * wordBytes ≤ blockLimit then
      .ok (fresh n words) else .error .capacityOverflow := by
  simp only [Lru.create, hn, if_false, pure_eq_ok]
  refine (reserve_bind _ _ _).trans ?_
  rw [ite_and]
  congr 1
  have hb := Bitmap.create_eq hp
  split_ifs at hb ⊢ with hw
  · have hg : ∀ index, Generation.create index words = .ok ⟨index, Arena.empty, Bitmap.blank words⟩ := by
      intro index
      simp [Generation.create, hb]
    rw [mapM_eq_ok _ hg]
    rfl
  · obtain ⟨m, rfl⟩ := Nat.exists_eq_succ_of_ne_zero hn
    simp [List.range_succ_eq_map, Generation.create, hb]

lemma divUp_eq (x : UInt64) {y : UInt64} (hy : y ≠ 0) : divUp x y =
    if x.toNat + y.toNat < UInt64.size then .ok ((x + y - 1) / y) else .error .addOverflow := by
  have hpos := toNat_pos hy
  have hsum : x.toNat + y.toNat ≠ 0 := by omega
  rw [divUp, if_neg hsum, if_neg hy]
  by_cases hs : x.toNat + y.toNat < UInt64.size
  · rw [if_pos hs, if_neg (Nat.not_le.mpr hs)]
  · rw [if_neg hs, if_pos (Nat.le_of_not_lt hs)]

namespace Config

variable {c : Config}

lemma validate_eq_ok_iff : c.validate = .ok () ↔ c.capacity ≠ 0 ∧ c.generations ≠ 0 ∧
    isPowerOfTwo c.trackerWords.toNat = true ∧
    (c.highPercent.toNat ≤ 100 ∧ c.lowPercent.toNat < c.highPercent.toNat) ∧ c.directBudget ≠ 0 ∧
      c.refaultWindow ≠ some 0 := by
  have hmarks : (100 < c.highPercent ∨ c.highPercent ≤ c.lowPercent) ↔
      ¬(c.highPercent.toNat ≤ 100 ∧ c.lowPercent.toNat < c.highPercent.toNat) := by
    rw [UInt8.lt_iff_toNat_lt, UInt8.le_iff_toNat_le]
    change 100 < _ ∨ _ ↔ _
    omega
  rw [validate]
  simp only [hmarks]
  split_ifs <;> simp_all

def Fits (c : Config) : Prop :=
  (c.generations.toNat * Generation.bytes ≤ blockLimit ∧ c.trackerWords.toNat * wordBytes ≤ blockLimit) ∧
    c.capacity.toNat * wordBytes ≤ blockLimit ∧ c.window * GhostList.entryBytes ≤ blockLimit

instance : Decidable c.Fits := inferInstanceAs (Decidable (_ ∧ _))

lemma window_ne_zero (hv : c.validate = .ok ()) : c.window ≠ 0 := by
  obtain ⟨hcap, _, _, _, _, hw⟩ := validate_eq_ok_iff.mp hv
  have hpos := toNat_pos hcap
  rw [window]
  cases hc : c.refaultWindow with
  | none =>
    change (c.capacity.toNat + 3) / 4 ≠ 0
    omega
  | some w =>
    rw [hc] at hw
    exact (toNat_pos fun h0 => hw (congrArg some h0)).ne'

end Config

namespace Pool

variable {σ : Type} {c : Config}

lemma toNat_watermarks (hv : c.validate = .ok ()) :
    (watermarks c).1.toNat = c.capacity.toNat * c.highPercent.toNat / 100 ∧
      (watermarks c).2.toNat = c.capacity.toNat * c.lowPercent.toNat / 100 := by
  obtain ⟨_, hhigh, hlow, _⟩ := Config.of_validate hv
  exact ⟨toNat_percentShare _ hhigh, toNat_percentShare _ (hlow.le.trans hhigh)⟩

lemma watermarks_le (hv : c.validate = .ok ()) :
    (watermarks c).2 ≤ (watermarks c).1 ∧ (watermarks c).1 ≤ c.capacity := by
  obtain ⟨_, hhigh, hlow, _⟩ := Config.of_validate hv
  obtain ⟨hh, hl⟩ := toNat_watermarks hv
  rw [UInt64.le_iff_toNat_le, UInt64.le_iff_toNat_le, hh, hl]
  constructor
  · exact Nat.div_le_div_right (Nat.mul_le_mul_left _ hlow.le)
  · apply Nat.div_le_of_le_mul
    rw [Nat.mul_comm 100]
    exact Nat.mul_le_mul_left _ hhigh

lemma build_eq (hv : c.validate = .ok ()) (pacer : σ) {quarter : UInt64}
    (hq : divUp c.capacity 4 = .ok quarter) : build c pacer =
      if c.Fits then .ok (fresh c pacer c.window) else .error .capacityOverflow := by
  obtain ⟨_, hgen, hwords, _⟩ := Config.validate_eq_ok_iff.mp hv
  have hl := Lru.create_eq (toNat_pos hgen).ne' hwords
  have hg := GhostList.create_eq (Config.window_ne_zero hv)
  simp only [build, hq, ok_bind, hl]
  by_cases hparts : c.generations.toNat * Generation.bytes ≤ blockLimit ∧
      c.trackerWords.toNat * wordBytes ≤ blockLimit
  · rw [if_pos hparts, ok_bind, reserve_bind, Config.window_eq hq, hg]
    by_cases hframes : c.capacity.toNat * wordBytes ≤ blockLimit
    · rw [if_pos hframes]
      by_cases hwindow : c.window * GhostList.entryBytes ≤ blockLimit
      · rw [if_pos hwindow, if_pos (show c.Fits from ⟨hparts, hframes, hwindow⟩)]
        rfl
      · rw [if_neg hwindow, if_neg fun h : c.Fits => hwindow h.2.2]
        rfl
    · rw [if_neg hframes, if_neg fun h : c.Fits => hframes h.2.1]
  · rw [if_neg hparts, if_neg fun h : c.Fits => hparts h.1]
    rfl

lemma quarter_eq (c : Config) : divUp c.capacity 4 = if c.capacity.toNat + 4 < UInt64.size then
    .ok ((c.capacity + 4 - 1) / 4) else .error .addOverflow := divUp_eq c.capacity (by decide)

lemma create_of_fits (hv : c.validate = .ok ()) (pacer : σ) (hs : c.capacity.toNat + 4 < UInt64.size)
    (hf : c.Fits) : create c pacer = .ok (fresh c pacer c.window) := by
  have hdiv := quarter_eq c
  rw [if_pos hs] at hdiv
  have hbuild := build_eq hv pacer hdiv
  rw [if_pos hf] at hbuild
  simp only [create, hv, hbuild, Except.mapError]

theorem opens_unless_quarter_overflows (hv : c.validate = .ok ()) (pacer : σ) :
    ((watermarks c).2.toNat = c.capacity.toNat * c.lowPercent.toNat / 100 ∧
      (watermarks c).1.toNat = c.capacity.toNat * c.highPercent.toNat / 100 ∧
      (watermarks c).2 ≤ (watermarks c).1 ∧ (watermarks c).1 ≤ c.capacity) ∧
    LacksOnlyRoom (Lru.create c.generations.toNat c.trackerWords.toNat) ∧
    LacksOnlyRoom (Bitmap.create c.trackerWords.toNat) ∧
    (UInt64.size ≤ c.capacity.toNat + 4 → divUp c.capacity 4 = .error .addOverflow ∧
      create c pacer = .error (.broken .addOverflow)) ∧
    (c.capacity.toNat + 4 < UInt64.size → ∃ quarter, divUp c.capacity 4 = .ok quarter ∧
      1 ≤ quarter.toNat ∧ c.capacity.toNat ≤ 4 * quarter.toNat ∧
      4 * quarter.toNat < c.capacity.toNat + 4 ∧
      LacksOnlyRoom (GhostList.create (c.refaultWindow.getD quarter).toNat) ∧
      (¬c.Fits → create c pacer = .error (.broken .capacityOverflow)) ∧
      (c.Fits → ∃ p, create c pacer = .ok p ∧ p.settings.capacity = c.capacity.toNat ∧
        p.settings.low = (watermarks c).2.toNat ∧ p.settings.high = (watermarks c).1.toNat ∧
        p.ghosts.capacity = (c.refaultWindow.getD quarter).toNat)) := by
  obtain ⟨hcap, hgen, hwords, _⟩ := Config.validate_eq_ok_iff.mp hv
  have hpos := toNat_pos hcap
  have hdiv := quarter_eq c
  obtain ⟨hh, hl⟩ := toNat_watermarks hv
  refine ⟨⟨hl, hh, watermarks_le hv⟩, .of_ite (Lru.create_eq (toNat_pos hgen).ne' hwords),
    .of_ite (Bitmap.create_eq hwords), fun hlarge => ?_, fun hsmall => ?_⟩
  · rw [if_neg (Nat.not_lt.mpr hlarge)] at hdiv
    refine ⟨hdiv, ?_⟩
    simp only [create, hv, build, hdiv, error_bind, Except.mapError]
  · rw [if_pos hsmall] at hdiv
    have hquarter : ((c.capacity + 4 - 1) / 4).toNat = (c.capacity.toNat + 3) / 4 := toNat_divUp hdiv
    have hghosts := GhostList.create_eq (Config.window_ne_zero hv)
    have hbuild := build_eq hv pacer hdiv
    rw [← Config.window_eq hdiv] at hghosts
    refine ⟨_, hdiv, by omega, by omega, by omega, .of_ite hghosts, fun hno => ?_, fun hfits => ?_⟩
    · rw [if_neg hno] at hbuild
      simp only [create, hv, hbuild, Except.mapError]
    · exact ⟨fresh c pacer c.window, create_of_fits hv pacer hsmall hfits, rfl, rfl, rfl,
        (Config.window_eq hdiv).symm⟩

theorem opens_with_window_of_one_quarter :
    let c : Config := { capacity := 9, generations := 2, trackerWords := 1, lowPercent := 20, highPercent := 100 }
    c.validate = .ok () ∧ c.Fits ∧ ∃ p, create c (Steady.ofNat 1) = .ok p ∧ p.settings.low = 1 ∧
      p.settings.high = 9 ∧ p.ghosts.capacity = 3 := by
  intro c
  have hv : c.validate = .ok () := rfl
  have hfits : c.Fits := by decide
  obtain ⟨_, _, _, _, hsmall⟩ := opens_unless_quarter_overflows hv (Steady.ofNat 1)
  obtain ⟨quarter, hq, _, hle, hlt, _, _, hopens⟩ := hsmall (by decide)
  obtain ⟨p, hp, _, hlow, hhigh, hwindow⟩ := hopens hfits
  refine ⟨hv, hfits, p, hp, hlow.trans (by decide), hhigh.trans (by decide), ?_⟩
  have hcap : c.capacity.toNat = 9 := rfl
  have hnone : c.refaultWindow.getD quarter = quarter := rfl
  rw [hwindow, hnone]
  omega

theorem largest_pools_do_not_open :
    let c : Config := { capacity := 18446744073709551612, refaultWindow := some 1 }
    c.validate = .ok () ∧ divUp c.capacity 4 = .error .addOverflow ∧
      create c (Steady.ofNat 1) = .error (.broken .addOverflow) :=
  ⟨rfl, rfl, rfl⟩

end Pool

end FramePool
