import FramePool.Proofs.Pool.Conservation

/-! The operations on a pool are made of passes, hand-outs, accesses and releases. What holds of each of
these holds of all operations. -/

namespace FramePool

namespace Pool

inductive Deed where
  | pass (budget : Nat) (trigger : Trigger) (s : Scan)
  | handOut (id : Option FrameId)
  | access (id : FrameId)
  | release (id : FrameId) (found : Bool)

def Outcome.answer? : Outcome → Option (Option FrameId)
  | .allocated id => some id
  | _ => none

def Outcome.frame? (out : Outcome) : Option FrameId := out.answer?.join

section Deeds

variable {σ : Type} [Pacer σ]

def swept (p : Pool σ) (budget : Nat) (trigger : Trigger) (s : Scan) (l : Lru) : Pool σ :=
  ((p.takeBack s l).report s).countPass budget trigger s

/-- What the pacer hears of a scan. A scan that examines no frame says nothing about reclaim. -/
def due (p : Pool σ) (s : Scan) : List Report :=
  if s.scanned = 0 then [] else [⟨p.tally.pendingRefaults, s.scanned, s.evicted.size⟩]

inductive Does (p : Pool σ) : Deed → Pool σ → Prop
  | pass {budget : Nat} {trigger : Trigger} {s : Scan} {l : Lru} : p.lru.scan budget = .ok (s, l) →
      Does p (.pass budget trigger s) (p.swept budget trigger s l)
  | handOut {id : FrameId} {free : Queue FrameId} {l : Lru} : p.free.toList = id :: free.toList →
      p.lru.contains id = false → Lru.Added p.lru l id →
      Does p (.handOut (some id)) { p with
        lru := l
        free := free
        ghosts := (p.ghosts.forget id).2
        journal := p.journal.push (.allocated id) }
  | exhausted : p.free.toList = [] → Does p (.handOut none) { p with
      tally.failedAllocations := p.tally.failedAllocations + 1
      journal := p.journal.push (.exhausted p.settings.capacity) }
  | touch {id : FrameId} : p.lru.contains id = true → Lru.Touched p.lru (p.lru.touch id) id →
      Does p (.access id) { p with lru := p.lru.touch id }
  | refault {id : FrameId} : p.lru.contains id = false → p.ghosts.contains id = true →
      Does p (.access id) { p with
        ghosts := (p.ghosts.forget id).2
        tally.refaults := p.tally.refaults + 1
        tally.pendingRefaults := p.tally.pendingRefaults + 1
        journal := p.journal.push (.refaulted id) }
  | overlook {id : FrameId} : p.lru.contains id = false → p.ghosts.contains id = false →
      Does p (.access id) p
  | release {id : FrameId} {l : Lru} : p.lru.contains id = true → Lru.Removed p.lru l id →
      Does p (.release id true) { p with
        lru := l
        free := p.free.push id
        journal := p.journal.push (.freed id) }
  | ignore {id : FrameId} : p.lru.contains id = false →
      Does p (.release id false) { p with journal := p.journal.push (.freeIgnored id) }

structure Acts (p : Pool σ) (d : Deed) (q : Pool σ) : Prop where
  does : Does p d q
  whole : q.Whole
  settings_eq : q.settings = p.settings

inductive DeedTrace : Pool σ → List Deed → Pool σ → Prop
  | nil {p : Pool σ} : DeedTrace p [] p
  | cons {p q r : Pool σ} {d : Deed} {ds : List Deed} : Acts p d q → DeedTrace q ds r →
      DeedTrace p (d :: ds) r

inductive OpDeeds (p : Pool σ) : Op → Outcome → List Deed → Prop
  | allocate {id : Option FrameId} {scans : List Scan} : (scans ≠ [] → p.free.toList = []) →
      OpDeeds p .allocate (.allocated id)
        (scans.map (.pass p.settings.directBudget .direct) ++ [.handOut id])
  | access {id : FrameId} : OpDeeds p (.access id) .done [.access id]
  | release {id : FrameId} : OpDeeds p (.release id) .done [.release id (p.lru.contains id)]
  | reclaim {budget : Nat} {s : Scan} :
      OpDeeds p (.reclaim budget) (.scanned s) [.pass budget .requested s]
  | direct {budget : Nat} {scans : List Scan} : OpDeeds p (.direct budget)
      (.reclaimed (scans.map (·.evicted.size)).sum) (scans.map (.pass budget .direct))
  | proactive {s : Scan} : OpDeeds p .proactive (.reclaimed s.evicted.size)
      [.pass (Pacer.pace p.pacer) .requested s]
  | background {budget : Nat} {s : Scan} :
      OpDeeds p (.background budget) (.scanned s) [.pass budget .background s]

inductive RunDeeds : Pool σ → List Op → List Outcome → List Deed → Pool σ → Prop
  | nil {p : Pool σ} : RunDeeds p [] [] [] p
  | cons {p q r : Pool σ} {op : Op} {ops : List Op} {out : Outcome} {outs : List Outcome}
      {ds es : List Deed} : p.step op = .ok (out, q) → OpDeeds p op out ds → DeedTrace p ds q →
      RunDeeds q ops outs es r → RunDeeds p (op :: ops) (out :: outs) (ds ++ es) r

variable {p q r : Pool σ} {d : Deed} {ds es : List Deed} {budget : Nat} {trigger : Trigger} {s : Scan}
  {l : Lru} {op : Op} {ops : List Op} {out : Outcome} {outs : List Outcome}

@[simp] lemma swept_lru : (p.swept budget trigger s l).lru = l := (report_frame (p.takeBack s l) s).1

@[simp] lemma swept_settings : (p.swept budget trigger s l).settings = p.settings :=
  (report_frame (p.takeBack s l) s).2.2

@[simp] lemma toList_free_swept :
    (p.swept budget trigger s l).free.toList = p.free.toList ++ s.evicted.toList := by
  have hf : (p.swept budget trigger s l).free = (p.takeBack s l).free :=
    (report_frame (p.takeBack s l) s).2.1
  rw [hf]
  simp [takeBack, Queue.toList_foldl_push, ← Array.foldl_toList]

@[simp] lemma swept_ghosts :
    (p.swept budget trigger s l).ghosts = s.evicted.toList.foldl GhostList.record p.ghosts := by
  have hg : ((p.takeBack s l).report s).ghosts = (p.takeBack s l).ghosts := by
    rw [report]
    split_ifs <;> rfl
  change ((p.takeBack s l).report s).ghosts = _
  rw [hg, takeBack, Array.foldl_toList]

omit [Pacer σ] in
@[simp] lemma due_takeBack : (p.takeBack s l).due s = p.due s := rfl

lemma report_told : (p.report s).pacer = (p.due s).foldl Pacer.report p.pacer ∧
    (p.report s).journal = p.journal ++ (p.due s).map Event.reported ∧
    (p.report s).tally = { p.tally with
      pendingRefaults := if s.scanned = 0 then p.tally.pendingRefaults else 0 } := by
  rw [report, due]
  split_ifs <;> simp

@[simp] lemma swept_pacer :
    (p.swept budget trigger s l).pacer = (p.due s).foldl Pacer.report p.pacer :=
  (report_told (p := p.takeBack s l)).1

lemma swept_tally : (p.swept budget trigger s l).tally = Tally.countPass { p.tally with
    pendingRefaults := if s.scanned = 0 then p.tally.pendingRefaults else 0 } trigger :=
  congrArg (Tally.countPass · trigger) (report_told (p := p.takeBack s l)).2.2

lemma swept_journal : ∃ inUse, (p.swept budget trigger s l).journal.toList = p.journal.toList ++
    (s.events l.sizes ++ (p.due s).map .reported ++
      [.passed trigger budget s.evicted.toList inUse]) := by
  have hj := congrArg Array.toList (report_told (p := p.takeBack s l) (s := s)).2.1
  refine ⟨((p.takeBack s l).report s).used, ?_⟩
  simp only [swept, countPass, Array.toList_push, hj, due_takeBack]
  simp [takeBack]

lemma DeedTrace.single (h : Acts p d q) : DeedTrace p [d] q := .cons h .nil

lemma DeedTrace.append (h : DeedTrace p ds q) (h' : DeedTrace q es r) :
    DeedTrace p (ds ++ es) r := by
  induction h with
  | nil => exact h'
  | cons hd _ ih => exact .cons hd (ih h')

lemma DeedTrace.of_append (h : DeedTrace p (ds ++ es) r) :
    ∃ q, DeedTrace p ds q ∧ DeedTrace q es r := by
  induction ds generalizing p with
  | nil => exact ⟨p, .nil, h⟩
  | cons d ds ih =>
    cases h with
    | cons hd hc =>
      obtain ⟨q, hq, hr⟩ := ih hc
      exact ⟨q, .cons hd hq, hr⟩

lemma DeedTrace.whole (h : DeedTrace p ds q) (hp : p.Whole) :
    q.Whole ∧ q.settings = p.settings := by
  induction h with
  | nil => exact ⟨hp, rfl⟩
  | cons hd _ ih =>
    obtain ⟨hw, hs⟩ := ih hd.whole
    exact ⟨hw, hs.trans hd.settings_eq⟩

lemma Acts.pass_eq (ha : Acts p (.pass budget trigger s) q) : p.pass budget trigger = .ok (s, q) := by
  have hw := ha.whole
  cases ha.does with
  | @pass _ _ _ l hs =>
    have hck : (((p.takeBack s l).report s).countPass budget trigger s).checkTotal = .ok () :=
      hw.checkTotal
    simp [Pool.pass, hs, hck, swept]

lemma Acts.directPasses_eq (ha : Acts p (.pass budget .direct s) q) :
    q.tally.directPasses = p.tally.directPasses + 1 := by
  cases ha.does
  rw [swept_tally]
  rfl

namespace Whole

lemma acts_pass (h : p.Whole) (hq : p.pass budget trigger = .ok (s, q)) :
    Acts p (.pass budget trigger s) q := by
  obtain ⟨s', q', hq', hw, hpq⟩ := h.pass budget trigger
  obtain ⟨rfl, rfl⟩ := Prod.mk.inj (Except.ok.inj (hq'.symm.trans hq))
  refine ⟨?_, hw, hpq.settings_eq⟩
  simp only [Pool.pass, bind_eq_ok] at hq
  obtain ⟨⟨s', l⟩, hs, _, _, he⟩ := hq
  obtain ⟨rfl, rfl⟩ := Prod.mk.inj (Except.ok.inj he)
  exact .pass hs

lemma acts_handOut (h : p.Whole) {id : Option FrameId} (hq : p.handOut = .ok (id, q)) :
    Acts p (.handOut id) q := by
  obtain ⟨id', q', hq', hw, hs⟩ := h.handOut
  obtain ⟨rfl, rfl⟩ := Prod.mk.inj (Except.ok.inj (hq'.symm.trans hq))
  refine ⟨?_, hw, hs⟩
  rw [Pool.handOut] at hq
  cases hf : p.free.pop? with
  | none =>
    rw [hf] at hq
    obtain ⟨rfl, rfl⟩ := Prod.mk.inj (Except.ok.inj hq)
    exact .exhausted (Queue.pop?_eq_none hf)
  | some popped =>
    obtain ⟨id, free⟩ := popped
    rw [hf] at hq
    simp only [bind_eq_ok] at hq
    obtain ⟨l, hi, he⟩ := hq
    obtain ⟨rfl, rfl⟩ := Prod.mk.inj (Except.ok.inj he)
    obtain ⟨hno, had⟩ := (h.lru.toCoherent.insert id).of_eq_ok hi
    exact .handOut (Queue.toList_of_pop? hf) hno had

lemma acts_access (h : p.Whole) (id : FrameId) : Acts p (.access id) (p.access id) := by
  obtain ⟨hw, hs⟩ := h.access id
  refine ⟨?_, hw, hs⟩
  rw [Pool.access]
  split_ifs with hid hg
  · exact .touch hid (h.lru.toCoherent.touch id)
  · exact .refault (Bool.eq_false_iff.mpr hid) hg
  · exact .overlook (Bool.eq_false_iff.mpr hid) (Bool.eq_false_iff.mpr hg)

lemma acts_release (h : p.Whole) {id : FrameId} (hq : p.release id = .ok q) :
    Acts p (.release id (p.lru.contains id)) q := by
  obtain ⟨q', hq', hw, hs⟩ := h.release id
  obtain rfl := Except.ok.inj (hq'.symm.trans hq)
  refine ⟨?_, hw, hs⟩
  rw [Pool.release] at hq
  cases hid : p.lru.contains id with
  | true =>
    obtain ⟨l, hr, _, hrm⟩ := h.lru.remove id
    rw [hr, hid] at hq
    obtain rfl := Except.ok.inj hq
    exact .release hid hrm
  | false =>
    have hno : p.lru.entry? id = none := by simpa [Lru.contains_eq_isSome] using hid
    simp only [Lru.remove, hno, ok_bind, pure_eq_ok] at hq
    obtain rfl := Except.ok.inj hq
    exact .ignore hid

lemma trace_directPasses (h : p.Whole) {n count : Nat}
    (hq : Pool.directPasses budget n p = .ok (count, q)) :
    ∃ scans : List Scan, DeedTrace p (scans.map (.pass budget .direct)) q ∧
      count = (scans.map (·.evicted.size)).sum := by
  induction n generalizing p with
  | zero =>
    obtain ⟨rfl, rfl⟩ := Prod.mk.inj (Except.ok.inj hq)
    exact ⟨[], .nil, rfl⟩
  | succ n ih =>
    simp only [Pool.directPasses, bind_eq_ok] at hq
    obtain ⟨⟨s, p₁⟩, hp, hq⟩ := hq
    have ha := h.acts_pass hp
    split_ifs at hq with hev hres
    · obtain ⟨rfl, rfl⟩ := Prod.mk.inj (Except.ok.inj hq)
      exact ⟨[s], .single ha, by simp⟩
    · obtain ⟨rfl, rfl⟩ := Prod.mk.inj (Except.ok.inj hq)
      have hzero : s.evicted.size = 0 := Nat.eq_zero_of_not_pos hev
      exact ⟨[s], .single ha, by simp [hzero]⟩
    · obtain ⟨scans, hc, hsum⟩ := ih ha.whole hq
      have hzero : s.evicted.size = 0 := Nat.eq_zero_of_not_pos hev
      exact ⟨s :: scans, .cons ha hc, by simp [hsum, hzero]⟩

lemma trace_allocate (h : p.Whole) {id : Option FrameId} (hq : p.allocate = .ok (id, q)) :
    ∃ ds, OpDeeds p .allocate (.allocated id) ds ∧ DeedTrace p ds q := by
  obtain ⟨hnil, count, p₁, hd, ho⟩ | ⟨_, ho⟩ := allocate_cases hq
  · obtain ⟨scans, hc, _⟩ := h.trace_directPasses hd
    have ha := (hc.whole h).1.acts_handOut ho
    exact ⟨_, .allocate fun _ => hnil, hc.append (.single ha)⟩
  · have hc : OpDeeds p .allocate (.allocated id) ([] ++ [.handOut id]) :=
      @OpDeeds.allocate _ _ p id [] (absurd rfl)
    exact ⟨_, hc, .single (h.acts_handOut ho)⟩

lemma trace_step (h : p.Whole) (hq : p.step op = .ok (out, q)) :
    ∃ ds, OpDeeds p op out ds ∧ DeedTrace p ds q := by
  cases op with
  | allocate =>
    simp only [Pool.step, bind_eq_ok] at hq
    obtain ⟨⟨id, p₁⟩, ha, he⟩ := hq
    obtain ⟨rfl, rfl⟩ := Prod.mk.inj (Except.ok.inj he)
    exact h.trace_allocate ha
  | access id =>
    obtain ⟨rfl, rfl⟩ := Prod.mk.inj (Except.ok.inj hq)
    exact ⟨_, .access, .single (h.acts_access id)⟩
  | release id =>
    simp only [Pool.step, bind_eq_ok] at hq
    obtain ⟨p₁, hr, he⟩ := hq
    obtain ⟨rfl, rfl⟩ := Prod.mk.inj (Except.ok.inj he)
    exact ⟨_, .release, .single (h.acts_release hr)⟩
  | reclaim budget =>
    simp only [Pool.step, reclaim, bind_eq_ok] at hq
    obtain ⟨⟨s, p₁⟩, hp, he⟩ := hq
    obtain ⟨rfl, rfl⟩ := Prod.mk.inj (Except.ok.inj he)
    exact ⟨_, .reclaim, .single (h.acts_pass hp)⟩
  | direct budget =>
    simp only [Pool.step, bind_eq_ok] at hq
    obtain ⟨⟨count, p₁⟩, hd, he⟩ := hq
    obtain ⟨rfl, rfl⟩ := Prod.mk.inj (Except.ok.inj he)
    obtain ⟨scans, hc, rfl⟩ := h.trace_directPasses hd
    exact ⟨_, .direct, hc⟩
  | proactive =>
    simp only [Pool.step, proactive, reclaim, bind_eq_ok] at hq
    obtain ⟨⟨count, p₁⟩, ⟨⟨s, p₂⟩, hp, he'⟩, he⟩ := hq
    obtain ⟨rfl, rfl⟩ := Prod.mk.inj (Except.ok.inj he')
    obtain ⟨rfl, rfl⟩ := Prod.mk.inj (Except.ok.inj he)
    exact ⟨_, .proactive, .single (h.acts_pass hp)⟩
  | background budget =>
    simp only [Pool.step, bind_eq_ok] at hq
    obtain ⟨⟨s, p₁⟩, hp, he⟩ := hq
    obtain ⟨rfl, rfl⟩ := Prod.mk.inj (Except.ok.inj he)
    exact ⟨_, .background, .single (h.acts_pass hp)⟩

lemma runDeeds (h : p.Whole) (ops : List Op) :
    ∃ outs ds q, Pool.run ops p = .ok (outs, q) ∧ RunDeeds p ops outs ds q := by
  induction ops generalizing p with
  | nil => exact ⟨[], [], p, rfl, .nil⟩
  | cons op ops ih =>
    obtain ⟨out, q, hq, hw, _⟩ := h.step op
    obtain ⟨ds, hcs, hc⟩ := h.trace_step hq
    obtain ⟨outs, es, r, hr, hds⟩ := ih hw
    exact ⟨out :: outs, ds ++ es, r, by simp [Pool.run, hq, hr], .cons hq hcs hc hds⟩

end Whole

lemma RunDeeds.trace (h : RunDeeds p ops outs ds q) : DeedTrace p ds q := by
  induction h with
  | nil => exact .nil
  | cons _ _ hc _ ih => exact hc.append ih

end Deeds

end Pool

end FramePool
