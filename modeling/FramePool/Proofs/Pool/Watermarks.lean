import FramePool.Proofs.Pool.Drain
import FramePool.Proofs.Pool.Lives

/-! With background reclaim the usage between two operations is never above the high watermark. If that
watermark leaves a frame free, no allocation fails and none reclaims by itself. -/

namespace FramePool

namespace Pool

def Op.external : Op → Bool
  | .background _ => false
  | _ => true

def Deed.passes (trigger : Trigger) : Deed → Bool
  | .pass _ t _ => decide (t = trigger)
  | _ => false

def Deed.fails : Deed → Bool
  | .handOut none => true
  | _ => false

section Watermarks

variable {σ : Type} [Pacer σ]

def settledStep (p : Pool σ) : Op → Except Fault (Outcome × Pool σ)
  | .allocate => do
      let (id, p) ← p.allocateSettled
      return (.allocated id, p)
  | op => p.step op

def settledRun : List Op → Pool σ → Except Fault (List Outcome × Pool σ)
  | [], p => .ok ([], p)
  | op :: ops, p => do
      let (out, p) ← p.settledStep op
      let (outs, p) ← settledRun ops p
      return (out :: outs, p)

def Triggers (p : Pool σ) : Prop :=
  ∃ id q, p.allocate = .ok (id, q) ∧ q.settings.high < q.used

structure Tallied (p q : Pool σ) (ds : List Deed) : Prop where
  background_eq : q.tally.backgroundPasses =
    p.tally.backgroundPasses + ds.countP (Deed.passes .background)
  direct_eq : q.tally.directPasses = p.tally.directPasses + ds.countP (Deed.passes .direct)
  failed_eq : q.tally.failedAllocations = p.tally.failedAllocations + ds.countP Deed.fails

structure Settled (p : Pool σ) : Prop where
  whole : p.Whole
  background : p.settings.background = true
  low_le : p.settings.low ≤ p.settings.high
  used_le : p.used ≤ p.settings.high

structure Calmed (p q : Pool σ) : Prop where
  whole : q.Whole
  settings_eq : q.settings = p.settings
  used_le : q.used ≤ q.settings.high
  direct_eq : q.tally.directPasses = p.tally.directPasses
  failed_eq : q.tally.failedAllocations = p.tally.failedAllocations
  drained : p.settings.high < p.used → q.used = q.settings.low
  unchanged : p.used ≤ p.settings.high → q = p

structure Guarded (p : Pool σ) (op : Op) (out : Outcome) (q : Pool σ) : Prop where
  used_le : q.used ≤ q.settings.high
  drained : op = .allocate → Triggers p → q.used = q.settings.low
  background_only : q.tally.backgroundPasses ≠ p.tally.backgroundPasses → op = .allocate ∧ Triggers p
  answered : p.settings.high < p.settings.capacity →
    out ≠ .allocated none ∧ q.tally.failedAllocations = p.tally.failedAllocations
  direct_only : p.settings.high < p.settings.capacity →
    q.tally.directPasses ≠ p.tally.directPasses → ∃ budget, op = .direct budget

variable {p q r : Pool σ} {ds : List Deed} {op : Op} {out : Outcome} {budget : Nat} {trigger : Trigger}
  {s : Scan} {l : Lru}

omit [Pacer σ] in
lemma Tallied.trans {es : List Deed} (h : Tallied p q ds) (h' : Tallied q r es) :
    Tallied p r (ds ++ es) where
  background_eq := by rw [h'.background_eq, h.background_eq, List.countP_append, Nat.add_assoc]
  direct_eq := by rw [h'.direct_eq, h.direct_eq, List.countP_append, Nat.add_assoc]
  failed_eq := by rw [h'.failed_eq, h.failed_eq, List.countP_append, Nat.add_assoc]

lemma Acts.tallied {d : Deed} (ha : Acts p d q) : Tallied p q [d] := by
  cases ha.does with
  | @pass _ trigger =>
    constructor
    all_goals
      rw [swept_tally]
      cases trigger <;> rfl
  | handOut | exhausted | touch | refault | overlook | release | ignore => exact ⟨rfl, rfl, rfl⟩

lemma DeedTrace.tallied (hc : DeedTrace p ds q) : Tallied p q ds := by
  induction hc with
  | nil => exact ⟨rfl, rfl, rfl⟩
  | cons ha _ ih => exact ha.tallied.trans ih

lemma Whole.used_le_add (h : p.Whole) (hcs : OpDeeds p op out ds) (hc : DeedTrace p ds q) :
    q.used ≤ p.used + out.frame?.toList.length := by
  have hbal := (hc.movesBetween h).balance
  rw [hcs.opMoves.total_handedOut] at hbal
  rw [h.used_eq, (hc.whole h).1.used_eq]
  omega

lemma OpDeeds.counts (hcs : OpDeeds p op out ds) (hx : op.external = true) (ha : op ≠ .allocate) :
    ds.countP (Deed.passes .background) = 0 ∧ ds.countP Deed.fails = 0 ∧
      (ds.countP (Deed.passes .direct) ≠ 0 → ∃ budget, op = .direct budget) ∧ out.answer? = none := by
  cases hcs with
  | allocate => exact absurd rfl ha
  | background => cases hx
  | @direct budget scans => exact ⟨by simp [Deed.passes], by simp [Deed.fails], fun _ => ⟨budget, rfl⟩, rfl⟩
  | access | release | reclaim | proactive => exact ⟨rfl, rfl, absurd rfl, rfl⟩

lemma OpDeeds.allocate_counts {id : Option FrameId} (hcs : OpDeeds p .allocate (.allocated id) ds)
    (hc : DeedTrace p ds q) : ds.countP (Deed.passes .background) = 0 ∧ (p.free.toList ≠ [] →
      id ≠ none ∧ ds.countP (Deed.passes .direct) = 0 ∧ ds.countP Deed.fails = 0) := by
  cases hcs with
  | @allocate _ scans hscans =>
    refine ⟨by simp [Deed.passes], fun hfree => ?_⟩
    obtain rfl : scans = [] := by
      by_contra hne
      exact hfree (hscans hne)
    cases id with
    | some id => exact ⟨Option.some_ne_none id, rfl, rfl⟩
    | none =>
      cases hc with
      | cons ha _ =>
        cases ha.does with
        | exhausted hnil => exact absurd hnil hfree

lemma Whole.trace_drains (h : p.Whole) {k : Nat} (hd : Drains k p q) :
    ∃ ds, DeedTrace p ds q ∧ ds.countP (Deed.passes .direct) = 0 ∧ ds.countP Deed.fails = 0 := by
  induction hd with
  | done => exact ⟨[], .nil, rfl, rfl⟩
  | pass _ hs _ _ ih =>
    simp only [Pool.drainStep, bind_eq_ok] at hs
    obtain ⟨⟨s, _⟩, hp, he⟩ := hs
    obtain rfl := Except.ok.inj he
    have ha := h.acts_pass hp
    obtain ⟨ds, hc, hdirect, hfails⟩ := ih ha.whole
    exact ⟨_, .cons ha hc, hdirect, hfails⟩

lemma Whole.settle (h : p.Whole) (hb : p.settings.background = true)
    (hle : p.settings.low ≤ p.settings.high) : ∃ q, p.settle = .ok q ∧ Calmed p q := by
  by_cases hu : p.settings.high < p.used
  · obtain ⟨k, q, hk, hd, hq, hs⟩ := h.drains (hle.trans hu.le)
    obtain ⟨ds, hc, hdirect, hfails⟩ := h.trace_drains hd
    have ht := hc.tallied
    have hbound : p.lru.potential ≤ p.drainBound := h.lru.potential_le.trans
      (Nat.mul_le_mul_left _ (Nat.add_le_add_left p.lru.accessBits_le _))
    refine ⟨q, ?_, (hc.whole h).1, hs, ?_, ?_, ?_, fun _ => hq, fun hn => absurd hu hn.not_gt⟩
    · rw [Pool.settle, if_pos ⟨hb, hu⟩]
      exact hd.drainWithin_eq (hk.trans hbound)
    · rw [hq, hs]
      exact hle
    · rw [ht.direct_eq, hdirect, Nat.add_zero]
    · rw [ht.failed_eq, hfails, Nat.add_zero]
  · refine ⟨p, ?_, h, rfl, Nat.le_of_not_lt hu, rfl, rfl, fun hn => absurd hn hu, fun _ => rfl⟩
    rw [Pool.settle, if_neg fun hand => hu hand.2]

lemma triggers_iff {id : Option FrameId} (hq : p.allocate = .ok (id, q)) :
    Triggers p ↔ q.settings.high < q.used := by
  refine ⟨?_, fun hu => ⟨id, q, hq, hu⟩⟩
  rintro ⟨_, _, hq', hu⟩
  obtain ⟨-, rfl⟩ := Prod.mk.inj (Except.ok.inj (hq'.symm.trans hq))
  exact hu

namespace Settled

omit [Pacer σ] in
lemma exists_free (h : Settled p) (hlt : p.settings.high < p.settings.capacity) : p.free.toList ≠ [] := by
  intro hnil
  have hu := h.used_le
  rw [used, ← Queue.length_toList, hnil, List.length_nil] at hu
  omega

lemma allocate (h : Settled p) : ∃ out q, p.settledStep .allocate = .ok (out, q) ∧ Settled q ∧
    q.settings = p.settings ∧ Guarded p .allocate out q := by
  obtain ⟨id, p₁, hq, hw, hs⟩ := h.whole.allocate
  obtain ⟨ds, hcs, hc⟩ := h.whole.trace_allocate hq
  obtain ⟨hbackground, hcounts⟩ := hcs.allocate_counts hc
  have ht := hc.tallied
  obtain ⟨q, hsettle, hcalm⟩ := hw.settle (hs ▸ h.background) (hs ▸ h.low_le)
  have hset := hcalm.settings_eq.trans hs
  refine ⟨.allocated id, q, by simp [settledStep, allocateSettled, hq, hsettle],
    ⟨hcalm.whole, hset ▸ h.background, hset ▸ h.low_le, hcalm.used_le⟩, hset, hcalm.used_le, ?_, ?_, ?_, ?_⟩
  · exact fun _ htr => hcalm.drained ((triggers_iff hq).mp htr)
  · intro hne
    refine ⟨rfl, (triggers_iff hq).mpr (by_contra fun hu => hne ?_)⟩
    rw [hcalm.unchanged (Nat.le_of_not_lt hu), ht.background_eq, hbackground, Nat.add_zero]
  · intro hlt
    obtain ⟨hid, _, hfails⟩ := hcounts (h.exists_free hlt)
    refine ⟨fun he => hid (Outcome.allocated.inj he), ?_⟩
    rw [hcalm.failed_eq, ht.failed_eq, hfails, Nat.add_zero]
  · intro hlt hne
    obtain ⟨_, hpasses, _⟩ := hcounts (h.exists_free hlt)
    rw [hcalm.direct_eq, ht.direct_eq, hpasses] at hne
    exact absurd rfl hne

lemma step (h : Settled p) (hx : op.external = true) : ∃ out q, p.settledStep op = .ok (out, q) ∧
    Settled q ∧ q.settings = p.settings ∧ Guarded p op out q := by
  by_cases ha : op = .allocate
  · subst ha
    exact h.allocate
  obtain ⟨out, q, hq, hw, hs⟩ := h.whole.step op
  obtain ⟨ds, hcs, hc⟩ := h.whole.trace_step hq
  obtain ⟨hbackground, hfails, hdirect, hans⟩ := hcs.counts hx ha
  have ht := hc.tallied
  have hused : q.used ≤ q.settings.high := by
    have hu := h.whole.used_le_add hcs hc
    rw [Outcome.frame?, hans] at hu
    rw [hs]
    exact hu.trans h.used_le
  have hstep : p.settledStep op = p.step op := by
    cases op <;> first | rfl | exact absurd rfl ha
  refine ⟨out, q, hstep.trans hq, ⟨hw, hs ▸ h.background, hs ▸ h.low_le, hused⟩, hs, hused, ?_, ?_, ?_, ?_⟩
  · exact fun he => absurd he ha
  · intro hne
    rw [ht.background_eq, hbackground] at hne
    exact absurd rfl hne
  · refine fun _ => ⟨?_, by rw [ht.failed_eq, hfails, Nat.add_zero]⟩
    rintro rfl
    cases hans
  · refine fun _ hne => hdirect fun hzero => hne ?_
    rw [ht.direct_eq, hzero, Nat.add_zero]

lemma run (h : Settled p) {ops : List Op} (hx : ∀ op ∈ ops, op.external = true) :
    ∃ outs q, settledRun ops p = .ok (outs, q) ∧ Settled q ∧ q.settings = p.settings ∧
      (p.settings.high < p.settings.capacity → .allocated none ∉ outs ∧
        q.tally.failedAllocations = p.tally.failedAllocations) := by
  induction ops generalizing p with
  | nil => exact ⟨[], p, rfl, h, rfl, fun _ => ⟨List.not_mem_nil, rfl⟩⟩
  | cons op ops ih =>
    obtain ⟨hop, hx⟩ := List.forall_mem_cons.mp hx
    obtain ⟨out, p₁, hq, h₁, hs, hg⟩ := h.step hop
    obtain ⟨outs, q, hr, h', hs', hans⟩ := ih h₁ hx
    refine ⟨out :: outs, q, by simp [settledRun, hq, hr], h', hs'.trans hs, fun hlt => ?_⟩
    obtain ⟨hout, hfail⟩ := hg.answered hlt
    rw [hs] at hans
    obtain ⟨houts, hfail'⟩ := hans hlt
    exact ⟨List.not_mem_cons_of_ne_of_not_mem hout.symm houts, hfail'.trans hfail⟩

end Settled

omit [Pacer σ] in
lemma settled_fresh {c : Config} {pacer : σ} {window : Nat} (hw : (fresh c pacer window).Whole)
    (hv : c.validate = .ok ()) (hb : c.background = true) : Settled (fresh c pacer window) := by
  obtain ⟨_, hhigh, hlt, _⟩ := Config.of_validate hv
  refine ⟨hw, hb, ?_, ?_⟩
  · change (percentShare _ _).toNat ≤ (percentShare _ _).toNat
    rw [toNat_percentShare _ hhigh, toNat_percentShare _ (hlt.le.trans hhigh)]
    exact Nat.div_le_div_right (Nat.mul_le_mul_left _ hlt.le)
  · rw [hw.used_eq]
    exact Nat.zero_le _

theorem used_within_watermarks {c : Config} {pacer : σ} {start : Pool σ}
    (hc : create c pacer = .ok start) (hn : c.capacity.toNat < Arena.slotLimit)
    (hb : c.background = true) {ops : List Op} (hx : ∀ op ∈ ops, op.external = true) :
    ∃ outs p, settledRun ops start = .ok (outs, p) ∧
      p.settings.high = c.capacity.toNat * c.highPercent.toNat / 100 ∧
      p.settings.low = c.capacity.toNat * c.lowPercent.toNat / 100 ∧
      (p.settings.high < p.settings.capacity ↔ c.highPercent < 100) ∧
      p.used ≤ p.settings.high ∧
      (c.highPercent < 100 → .allocated none ∉ outs ∧ p.tally.failedAllocations = 0) ∧
      ∀ op, op.external = true → ∃ out q, p.settledStep op = .ok (out, q) ∧ Guarded p op out q := by
  obtain ⟨hv, hgen, window, rfl⟩ := create_eq_fresh hc
  obtain ⟨hcap, hhigh, hlt, _⟩ := Config.of_validate hv
  have hfresh : Settled (fresh c pacer window) := settled_fresh (fresh_whole hgen hn) hv hb
  obtain ⟨outs, p, hr, hp, hs, hans⟩ := hfresh.run hx
  have hhi : (fresh c pacer window).settings.high = c.capacity.toNat * c.highPercent.toNat / 100 :=
    toNat_percentShare _ hhigh
  have hlo : (fresh c pacer window).settings.low = c.capacity.toNat * c.lowPercent.toNat / 100 :=
    toNat_percentShare _ (hlt.le.trans hhigh)
  have hspare : (fresh c pacer window).settings.high < c.capacity.toNat ↔ c.highPercent < 100 := by
    rw [hhi, Nat.div_lt_iff_lt_mul (by decide), Nat.mul_lt_mul_left hcap, UInt8.lt_iff_toNat_lt]
    rfl
  refine ⟨outs, p, hr, by rw [hs, hhi], by rw [hs, hlo], by rwa [hs], hp.used_le, ?_, ?_⟩
  · exact fun h => hans (hspare.mpr h)
  · intro op hop
    obtain ⟨out, q, hq, _, _, hg⟩ := hp.step hop
    exact ⟨out, q, hq, hg⟩

end Watermarks

def tenCalls : List Op :=
  [.allocate, .allocate, .allocate, .access 1, .allocate, .release 9, .direct 1, .allocate, .allocate,
    .allocate]

theorem watermarks_of_six_frames :
    ∃ start outs p out q, create sixFrames (Steady.ofNat 1) = .ok start ∧
      settledRun tenCalls start = .ok (outs, p) ∧ p.settings.high = 3 ∧
      p.settings.low = 1 ∧ p.used ≤ 3 ∧ .allocated none ∉ outs ∧ p.tally.failedAllocations = 0 ∧
      Triggers p ∧ p.settledStep .allocate = .ok (out, q) ∧ q.used = q.settings.low := by
  have hc : ∃ start, create sixFrames (Steady.ofNat 1) = .ok start := ⟨_, rfl⟩
  obtain ⟨start, hc⟩ := hc
  obtain ⟨outs, p, hr, hhigh, hlow, _, hused, hans, hnext⟩ :=
    @used_within_watermarks _ _ sixFrames _ _ hc (by decide) rfl tenCalls (by decide)
  have hwakes : ((create sixFrames (Steady.ofNat 1)).toOption.bind fun start =>
      (settledRun tenCalls start).toOption.bind fun r =>
      r.2.allocate.toOption.map fun r => (r.2.settings.high, r.2.used)) = some (3, 4) := by decide +kernel
  have ht : Triggers p := by
    cases ha : p.allocate with
    | error f => simp [hc, hr, ha, Except.toOption] at hwakes
    | ok r =>
      obtain ⟨hhi, hu⟩ : r.2.settings.high = 3 ∧ r.2.used = 4 := by
        simpa [hc, hr, ha, Except.toOption] using hwakes
      exact ⟨r.1, r.2, ha, by omega⟩
  obtain ⟨out, q, hq, hg⟩ := hnext .allocate rfl
  obtain ⟨hnone, hfailed⟩ := hans (by decide)
  exact ⟨start, outs, p, out, q, hc, hr, hhigh, hlow, hused.trans_eq hhigh, hnone, hfailed, ht, hq,
    hg.drained rfl ht⟩

end Pool

end FramePool
