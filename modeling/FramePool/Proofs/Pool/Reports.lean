import FramePool.Pool.Stats
import FramePool.Proofs.Pool.Deeds

/-! What the pacer is told adds up to what the pool counts. A pass that tells nothing has aged, or it had
nothing to do. -/

namespace FramePool

def Event.report? : Event → Option Report
  | .reported r => some r
  | _ => none

def Tally.passes (t : Tally) : Nat := t.backgroundPasses + t.directPasses + t.requestedPasses

namespace Pool

def Deed.isPass : Deed → Bool
  | .pass _ _ _ => true
  | _ => false

section Reports

variable {σ : Type}

def reports (p : Pool σ) : List Report := p.journal.toList.filterMap Event.report?

def agings (p : Pool σ) : Nat := p.lru.counters.agings

structure Accounted [Pacer σ] (first : σ) (p : Pool σ) : Prop where
  told : p.pacer = p.reports.foldl Pacer.report first
  refaults_eq : p.stats.refaults = p.tally.pendingRefaults + (p.reports.map Report.refaults).sum
  scanned_eq : p.stats.counters.scanned = (p.reports.map Report.scanned).sum
  evicted_eq : p.stats.counters.evicted = (p.reports.map Report.reclaimed).sum
  bounds : ∀ r ∈ p.reports, 1 ≤ r.scanned ∧ r.reclaimed ≤ r.scanned

structure Noted (p : Pool σ) (budget : Nat) (q : Pool σ) : Prop where
  one_report : q.reports = p.reports ∨ ∃ r, q.reports = p.reports ++ [r]
  one_aging : q.agings = p.agings ∨ q.agings = p.agings + 1
  silent : q.reports = p.reports → q.agings = p.agings + 1 ∨ budget = 0

variable {p q : Pool σ} {first : σ} {budget : Nat} {trigger : Trigger} {s : Scan} {l : Lru}

lemma reports_push (e : Event) (he : e.report? = none) (hj : q.journal = p.journal.push e) :
    q.reports = p.reports := by
  simp [reports, hj, he]

variable [Pacer σ]

lemma reports_swept : (p.swept budget trigger s l).reports = p.reports ++ p.due s := by
  have hnotes : (s.events l.sizes).filterMap Event.report? = [] := by
    rw [Scan.events]
    split_ifs <;> rfl
  have htold : ∀ rs : List Report, (rs.map Event.reported).filterMap Event.report? = rs := by
    intro rs
    induction rs with
    | nil => rfl
    | cons r rs ih => simpa [Event.report?] using ih
  obtain ⟨inUse, hj⟩ := @swept_journal _ _ p budget trigger s l
  simp [reports, hj, hnotes, htold, Event.report?]

lemma Accounted.of_quiet (h : p.Accounted first) (hp : q.pacer = p.pacer)
    (hr : q.reports = p.reports)
    (hf : q.tally.refaults + p.tally.pendingRefaults = p.tally.refaults + q.tally.pendingRefaults)
    (hc : q.lru.counters = p.lru.counters) : q.Accounted first where
  told := by rw [hp, hr, h.told]
  refaults_eq := by
    have hold : p.tally.refaults = _ := h.refaults_eq
    change q.tally.refaults = _
    rw [hr]
    omega
  scanned_eq := by
    rw [hr, ← h.scanned_eq]
    exact congrArg Counters.scanned hc
  evicted_eq := by
    rw [hr, ← h.evicted_eq]
    exact congrArg Counters.evicted hc
  bounds := hr ▸ h.bounds

lemma Accounted.swept (h : p.Accounted first) (hw : p.Whole) (hs : p.lru.scan budget = .ok (s, l)) :
    (p.swept budget trigger s l).Accounted first := by
  have hct := hw.lru.scan_counted hs
  have hex := hct.examined_eq
  have hrefaults : p.tally.refaults = _ := h.refaults_eq
  have hscanned : p.lru.counters.scanned = _ := h.scanned_eq
  have hevicted : p.lru.counters.evicted = _ := h.evicted_eq
  have htally := @swept_tally _ _ p budget trigger s l
  have hpending : (p.swept budget trigger s l).tally.pendingRefaults =
      if s.scanned = 0 then p.tally.pendingRefaults else 0 := by
    rw [htally]
    cases trigger <;> rfl
  have hcounted : (p.swept budget trigger s l).tally.refaults = p.tally.refaults := by
    rw [htally]
    cases trigger <;> rfl
  constructor
  · rw [swept_pacer, reports_swept, List.foldl_append, h.told]
  · change (p.swept budget trigger s l).tally.refaults = _
    rw [hcounted, hpending, reports_swept, due]
    split_ifs
    · simpa using hrefaults
    · simp [hrefaults, Nat.add_comm]
  · change (p.swept budget trigger s l).lru.counters.scanned = _
    rw [swept_lru, hct.scanned_eq, hscanned, reports_swept, due]
    split_ifs with hzero
    · simp [hzero]
    · simp
  · change (p.swept budget trigger s l).lru.counters.evicted = _
    rw [swept_lru, hct.evicted_eq, hevicted, reports_swept, due]
    split_ifs with hzero
    · rw [List.append_nil]
      omega
    · simp
  · intro r hr
    rw [reports_swept, List.mem_append, due] at hr
    rcases hr with hr | hr
    · exact h.bounds r hr
    · split_ifs at hr with hzero
      · cases hr
      · obtain rfl := List.mem_singleton.mp hr
        exact ⟨Nat.pos_of_ne_zero hzero, by simp only; omega⟩

lemma Acts.accounted {d : Deed} (ha : Acts p d q) (hw : p.Whole) (h : p.Accounted first) :
    q.Accounted first := by
  cases ha.does with
  | pass hs => exact h.swept hw hs
  | @handOut id _ _ _ _ had =>
    exact h.of_quiet rfl (reports_push (.allocated id) rfl rfl) rfl had.moved.counters_eq
  | exhausted => exact h.of_quiet rfl (reports_push (.exhausted _) rfl rfl) rfl rfl
  | @touch id => exact h.of_quiet rfl rfl rfl (p.lru.counters_touch id)
  | @refault id =>
    refine h.of_quiet rfl (reports_push (.refaulted id) rfl rfl) ?_ rfl
    simp only
    omega
  | overlook => exact h
  | @release id _ _ hrm =>
    exact h.of_quiet rfl (reports_push (.freed id) rfl rfl) rfl hrm.moved.counters_eq
  | @ignore id => exact h.of_quiet rfl (reports_push (.freeIgnored id) rfl rfl) rfl rfl

lemma Acts.passes_eq {d : Deed} (ha : Acts p d q) :
    q.tally.passes = p.tally.passes + if d.isPass then 1 else 0 := by
  cases ha.does with
  | @pass _ trigger =>
    rw [swept_tally]
    cases trigger <;> simp only [Tally.passes, Tally.countPass, Deed.isPass, if_true] <;> omega
  | handOut | exhausted | touch | refault | overlook | release | ignore => rfl

lemma Acts.noted (ha : Acts p (.pass budget trigger s) q) (hw : p.Whole) : Noted p budget q := by
  cases ha.does with
  | pass hs =>
    obtain ⟨hag, hnone⟩ := hw.lru.scan_agings hs
    refine ⟨?_, ?_, fun hsame => ?_⟩
    · rw [reports_swept, due]
      split_ifs
      · exact Or.inl (List.append_nil _)
      · exact Or.inr ⟨_, rfl⟩
    · rw [agings, swept_lru, hag]
      cases s.aged
      · exact Or.inl rfl
      · exact Or.inr rfl
    · rw [reports_swept, List.append_right_eq_self, due, ite_eq_left_iff] at hsame
      have hzero : s.scanned = 0 := by_contra fun hne => List.cons_ne_nil _ _ (hsame hne)
      rw [agings, swept_lru, hag]
      refine (hnone hzero).imp_left fun haged => ?_
      rw [haged]
      rfl

lemma DeedTrace.accounted {ds : List Deed} (hc : DeedTrace p ds q) (hw : p.Whole)
    (h : p.Accounted first) :
    q.Accounted first ∧ q.tally.passes = p.tally.passes + ds.countP Deed.isPass := by
  induction hc with
  | nil => exact ⟨h, rfl⟩
  | cons hd _ ih =>
    obtain ⟨hacc, hp⟩ := ih hd.whole (hd.accounted hw h)
    refine ⟨hacc, ?_⟩
    rw [hp, hd.passes_eq, List.countP_cons]
    omega

lemma create_accounted {c : Config} (hc : create c first = .ok p) : p.Accounted first := by
  obtain ⟨_, _, window, rfl⟩ := create_eq_fresh hc
  have hnone : (fresh c first window).reports = [] := rfl
  exact ⟨rfl, rfl, rfl, rfl, by simp [hnone]⟩

theorem metrics_told_once {c : Config} {start : Pool σ} (hc : create c first = .ok start)
    (hn : c.capacity.toNat < Arena.slotLimit) (ops : List Op) :
    ∃ outs ds p, run ops start = .ok (outs, p) ∧ RunDeeds start ops outs ds p ∧
      p.Accounted first ∧
      ds.countP Deed.isPass = p.stats.backgroundPasses + p.stats.directPasses + p.stats.requestedPasses ∧
      ∀ es budget trigger s fs, ds = es ++ .pass budget trigger s :: fs →
        ∃ q r, DeedTrace start es q ∧ q.pass budget trigger = .ok (s, r) ∧ DeedTrace r fs p ∧
          Noted q budget r := by
  have hw : start.Whole := (create_whole hc hn).1
  obtain ⟨outs, ds, p, hr, hds⟩ := hw.runDeeds ops
  obtain ⟨hacc, hpasses⟩ := hds.trace.accounted hw (create_accounted hc)
  have hnone : start.tally.passes = 0 := by
    obtain ⟨_, _, window, rfl⟩ := create_eq_fresh hc
    rfl
  have hcount : ds.countP Deed.isPass = p.tally.passes := by omega
  refine ⟨outs, ds, p, hr, hds, hacc, hcount, ?_⟩
  rintro es budget trigger s fs rfl
  obtain ⟨q, hes, hrest⟩ := hds.trace.of_append
  cases hrest with
  | @cons _ r _ _ _ ha hfs =>
    exact ⟨q, r, hes, ha.pass_eq, hfs, ha.noted (hes.whole hw).1⟩

end Reports

structure Recorder where
  frames : Nat
  told : List Report

instance : Pacer Recorder where
  report p r := { p with told := p.told ++ [r] }
  pace p := p.frames

def fourFrames : Config where
  capacity := 4
  generations := 1
  trackerWords := 1
  refaultWindow := some 4

def tenSteps : List Op :=
  [.allocate, .allocate, .allocate, .allocate, .reclaim 2, .access 0, .proactive, .direct 2, .access 3,
    .release 3]

theorem metrics_of_two_reports :
    ∃ start outs ds p, create fourFrames (⟨2, []⟩ : Recorder) = .ok start ∧
      run tenSteps start = .ok (outs, p) ∧ RunDeeds start tenSteps outs ds p ∧
      p.Accounted ⟨2, []⟩ ∧ p.pacer.told = [⟨0, 2, 2⟩, ⟨1, 2, 2⟩] ∧ p.tally.pendingRefaults = 1 ∧
      List.countP Deed.isPass ds = 3 := by
  have hc : ∃ start, create fourFrames (⟨2, []⟩ : Recorder) = .ok start := ⟨_, rfl⟩
  obtain ⟨start, hc⟩ := hc
  obtain ⟨outs, ds, p, hr, hds, hacc, hcount, _⟩ := metrics_told_once hc (by decide) tenSteps
  have hend : ((create fourFrames (⟨2, []⟩ : Recorder)).toOption.bind fun start =>
      (run tenSteps start).toOption.map fun r =>
        (r.2.pacer.told, r.2.tally.pendingRefaults, r.2.tally.passes)) =
      some ([⟨0, 2, 2⟩, ⟨1, 2, 2⟩], 1, 3) := by decide +kernel
  obtain ⟨htold, hpending, hpasses⟩ : p.pacer.told = [⟨0, 2, 2⟩, ⟨1, 2, 2⟩] ∧
      p.tally.pendingRefaults = 1 ∧ p.tally.passes = 3 := by
    simpa [hc, hr, Except.toOption] using hend
  exact ⟨start, outs, ds, p, hc, hr, hds, hacc, htold, hpending, hcount.trans hpasses⟩

end Pool

end FramePool
