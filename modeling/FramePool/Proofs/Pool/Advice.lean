import FramePool.Proofs.Pool.Reports

/-! Pacers only give advice. Two pools that differ in nothing but their pacers answer alike, report alike
and count alike, unless a pass takes its budget from pacers that disagree. -/

namespace FramePool

namespace Pool

section Advice

variable {σ τ : Type}

structure Alike (p : Pool σ) (q : Pool τ) : Prop where
  settings_eq : q.settings = p.settings
  lru_eq : q.lru = p.lru
  free_eq : q.free = p.free
  ghosts_eq : q.ghosts = p.ghosts
  tally_eq : q.tally = p.tally
  journal_eq : q.journal = p.journal

/-- Where `x` succeeds `y` gives the same answer and a pool that differs from that of `x` in its pacer
only. -/
def Mirrors {α : Type} (x : Except Fault (α × Pool σ)) (y : Except Fault (α × Pool τ)) : Prop :=
  ∀ a p, x = .ok (a, p) → ∃ q, y = .ok (a, q) ∧ Alike p q

namespace Mirrors

variable {α β γ : Type} {p : Pool σ} {q : Pool τ}

lemma ok (h : Alike p q) (a : α) : Mirrors (.ok (a, p)) (.ok (a, q)) := by
  intro b p' he
  obtain ⟨rfl, rfl⟩ := Prod.mk.inj (Except.ok.inj he)
  exact ⟨q, rfl, h⟩

lemma bind {x : Except Fault (α × Pool σ)} {y : Except Fault (α × Pool τ)}
    {f : α × Pool σ → Except Fault (β × Pool σ)} {g : α × Pool τ → Except Fault (β × Pool τ)}
    (hx : Mirrors x y) (hf : ∀ a p q, Alike p q → Mirrors (f (a, p)) (g (a, q))) :
    Mirrors (x >>= f) (y >>= g) := by
  intro b p' he
  obtain ⟨⟨a, p⟩, ha, hb⟩ := bind_eq_ok.mp he
  obtain ⟨q, hy, h⟩ := hx a p ha
  obtain ⟨q', hg, h'⟩ := hf a p q h b p' hb
  exact ⟨q', bind_eq_ok.mpr ⟨(a, q), hy, hg⟩, h'⟩

lemma shared (z : Except Fault γ) {f : γ → Except Fault (β × Pool σ)}
    {g : γ → Except Fault (β × Pool τ)} (hf : ∀ c, Mirrors (f c) (g c)) :
    Mirrors (z >>= f) (z >>= g) := by
  intro b p' he
  obtain ⟨c, hc, hb⟩ := bind_eq_ok.mp he
  obtain ⟨q', hg, h'⟩ := hf c b p' hb
  exact ⟨q', bind_eq_ok.mpr ⟨c, hc, hg⟩, h'⟩

end Mirrors

variable {p p' : Pool σ} {q q' : Pool τ} {op : Op} {ops : List Op} {out : Outcome}
  {outs : List Outcome}

namespace Alike

lemma used_eq (h : Alike p q) : q.used = p.used := by rw [used, used, h.settings_eq, h.free_eq]

lemma reports_eq (h : Alike p q) : q.reports = p.reports := by rw [reports, reports, h.journal_eq]

lemma usage_eq (h : Alike p q) : q.usage = p.usage := by rw [usage, usage, h.used_eq, h.settings_eq]

lemma isResident_eq (h : Alike p q) (id : FrameId) : q.isResident id = p.isResident id := by
  rw [isResident, isResident, h.lru_eq]

lemma checkTotal_eq (h : Alike p q) : q.checkTotal = p.checkTotal := by
  rw [checkTotal, checkTotal, h.free_eq, h.lru_eq, h.settings_eq]

lemma takeBack (h : Alike p q) (s : Scan) (l : Lru) : Alike (p.takeBack s l) (q.takeBack s l) where
  settings_eq := h.settings_eq
  lru_eq := rfl
  free_eq := congrArg (s.evicted.foldl Queue.push) h.free_eq
  ghosts_eq := congrArg (s.evicted.foldl GhostList.record) h.ghosts_eq
  tally_eq := h.tally_eq
  journal_eq := by rw [Pool.takeBack, Pool.takeBack, h.journal_eq]

lemma countPass (h : Alike p q) (budget : Nat) (trigger : Trigger) (s : Scan) :
    Alike (p.countPass budget trigger s) (q.countPass budget trigger s) where
  settings_eq := h.settings_eq
  lru_eq := h.lru_eq
  free_eq := h.free_eq
  ghosts_eq := h.ghosts_eq
  tally_eq := congrArg (Tally.countPass · trigger) h.tally_eq
  journal_eq := by rw [Pool.countPass, Pool.countPass, h.used_eq, h.journal_eq]

lemma access (h : Alike p q) (id : FrameId) : Alike (p.access id) (q.access id) := by
  obtain ⟨hs, hl, hf, hg, ht, hj⟩ := h
  simp only [Pool.access, hl, hg]
  split_ifs
  · exact ⟨hs, rfl, hf, rfl, ht, hj⟩
  · exact ⟨hs, rfl, hf, rfl, by rw [ht], by rw [hj]⟩
  · exact ⟨hs, hl, hf, hg, ht, hj⟩

lemma handOut (h : Alike p q) : Mirrors p.handOut q.handOut := by
  obtain ⟨hs, hl, hf, hg, ht, hj⟩ := h
  rw [Pool.handOut, Pool.handOut, hl, hf, hg, hj]
  split
  · apply Mirrors.ok
    exact ⟨hs, rfl, rfl, rfl, by rw [ht], by rw [hs]⟩
  · apply Mirrors.shared
    intro l
    apply Mirrors.ok
    exact ⟨hs, rfl, rfl, rfl, ht, rfl⟩

lemma release (h : Alike p q) (id : FrameId) (out : Outcome) :
    Mirrors (p.release id >>= fun p => .ok (out, p)) (q.release id >>= fun q => .ok (out, q)) := by
  obtain ⟨hs, hl, hf, hg, ht, hj⟩ := h
  simp only [Pool.release, hl, hf, hj, bind_assoc]
  apply Mirrors.shared
  rintro ⟨found, l⟩
  cases found with
  | true =>
    apply Mirrors.ok
    exact ⟨hs, rfl, rfl, hg, ht, rfl⟩
  | false =>
    apply Mirrors.ok
    exact ⟨hs, rfl, rfl, hg, ht, rfl⟩

variable [Pacer σ] [Pacer τ]

lemma stats_eq (h : Alike p q) : q.stats = { p.stats with pace := q.stats.pace } := by
  obtain ⟨hs, hl, hf, -, ht, -⟩ := h
  simp only [stats, hs, hl, hf, ht]

lemma report (h : Alike p q) (s : Scan) : Alike (p.report s) (q.report s) := by
  obtain ⟨hs, hl, hf, hg, ht, hj⟩ := h
  simp only [Pool.report, ht, hj]
  split_ifs
  · exact ⟨hs, hl, hf, hg, ht, hj⟩
  · exact ⟨hs, hl, hf, hg, rfl, rfl⟩

lemma pass (h : Alike p q) (budget : Nat) (trigger : Trigger) :
    Mirrors (p.pass budget trigger) (q.pass budget trigger) := by
  rw [Pool.pass, Pool.pass, h.lru_eq]
  apply Mirrors.shared
  rintro ⟨s, l⟩
  have hend := ((h.takeBack s l).report s).countPass budget trigger s
  simp only [hend.checkTotal_eq]
  exact .shared _ fun _ => .ok hend s

lemma directPasses (h : Alike p q) (budget n : Nat) :
    Mirrors (Pool.directPasses budget n p) (Pool.directPasses budget n q) := by
  induction n generalizing p q with
  | zero => exact .ok h 0
  | succ n ih =>
    rw [Pool.directPasses, Pool.directPasses]
    apply (h.pass budget .direct).bind
    intro s p q h
    simp only [h.lru_eq]
    split_ifs
    · exact .ok h _
    · exact .ok h 0
    · exact ih h

lemma direct (h : Alike p q) (budget : Nat) : Mirrors (p.direct budget) (q.direct budget) := by
  rw [Pool.direct, Pool.direct, h.lru_eq]
  exact h.directPasses budget _

lemma allocate (h : Alike p q) : Mirrors p.allocate q.allocate := by
  rw [Pool.allocate, Pool.allocate, h.free_eq, h.settings_eq]
  split_ifs
  · exact (h.direct _).bind fun _ _ _ h => h.handOut
  · exact h.handOut

lemma step (h : Alike p q) (hpace : op = .proactive → Pacer.pace p.pacer = Pacer.pace q.pacer) :
    Mirrors (p.step op) (q.step op) := by
  cases op with
  | allocate => exact h.allocate.bind fun _ _ _ h => .ok h _
  | access id => exact .ok (h.access id) Outcome.done
  | release id => exact h.release id .done
  | reclaim budget => exact (h.pass budget .requested).bind fun _ _ _ h => .ok h _
  | direct budget => exact (h.direct budget).bind fun _ _ _ h => .ok h _
  | proactive =>
    have hpass : Mirrors p.proactive q.proactive := by
      rw [proactive, proactive, hpace rfl]
      exact (h.pass _ .requested).bind fun _ _ _ h => .ok h _
    exact hpass.bind fun _ _ _ h => .ok h _
  | background budget => exact (h.pass budget .background).bind fun _ _ _ h => .ok h _

end Alike

section Runs

variable [Pacer σ] [Pacer τ]

def PacesAgree (ops : List Op) (p : Pool σ) (q : Pool τ) : Prop :=
  ∀ past, past ++ [.proactive] <+: ops → ∀ outs p' outs' q', run past p = .ok (outs, p') →
    run past q = .ok (outs', q') → Pacer.pace p'.pacer = Pacer.pace q'.pacer

lemma PacesAgree.of_not_mem (h : .proactive ∉ ops) : PacesAgree ops p q :=
  fun _ hpast => (h (hpast.subset (by simp))).elim

lemma PacesAgree.of_prefix {past : List Op} (h : PacesAgree ops p q) (hpast : past <+: ops) :
    PacesAgree past p q :=
  fun _ hearlier => h _ (hearlier.trans hpast)

lemma PacesAgree.head (h : PacesAgree (op :: ops) p q) (hop : op = .proactive) :
    Pacer.pace p.pacer = Pacer.pace q.pacer :=
  h [] (by simp [hop]) [] p [] q rfl rfl

lemma PacesAgree.tail (h : PacesAgree (op :: ops) p q) (hp : p.step op = .ok (out, p'))
    (hq : q.step op = .ok (out, q')) : PacesAgree ops p' q' := by
  intro past hpast outs p₁ outs' q₁ hr hr'
  exact h (op :: past) (List.cons_prefix_cons.mpr ⟨rfl, hpast⟩) (out :: outs) p₁ (out :: outs') q₁
    (by simp [run, hp, hr]) (by simp [run, hq, hr'])

lemma Alike.run (h : Alike p q) (hpace : PacesAgree ops p q)
    (hp : Pool.run ops p = .ok (outs, p')) :
    ∃ q', Pool.run ops q = .ok (outs, q') ∧ Alike p' q' := by
  induction ops generalizing p q outs with
  | nil =>
    obtain ⟨rfl, rfl⟩ := Prod.mk.inj (Except.ok.inj hp)
    exact ⟨q, rfl, h⟩
  | cons op ops ih =>
    simp only [Pool.run, bind_eq_ok] at hp
    obtain ⟨⟨out, p₁⟩, hs, ⟨outs₁, p₂⟩, hr, he⟩ := hp
    obtain ⟨rfl, rfl⟩ := Prod.mk.inj (Except.ok.inj he)
    obtain ⟨q₁, hq₁, h₁⟩ := h.step hpace.head out p₁ hs
    obtain ⟨q', hq', h'⟩ := ih h₁ (hpace.tail hs hq₁) hr
    exact ⟨q', by simp [Pool.run, hq₁, hq'], h'⟩

omit [Pacer σ] [Pacer τ] in
lemma create_alike {c : Config} {first : σ} (hc : create c first = .ok p) (other : τ) :
    ∃ q, create c other = .ok q ∧ Alike p q := by
  rw [create] at hc
  split at hc
  · cases hc
  rename_i hv
  cases hb : build c first with
  | error f =>
    rw [hb] at hc
    cases hc
  | ok p₁ =>
    rw [hb] at hc
    obtain rfl : p₁ = p := Except.ok.inj hc
    simp only [build, bind_eq_ok] at hb
    obtain ⟨quarter, hquarter, l, hl, _, hroom, ghosts, hghosts, he⟩ := hb
    obtain rfl := Except.ok.inj he
    simp only [create, hv, build, hquarter, hl, hroom, hghosts, ok_bind]
    exact ⟨_, rfl, rfl, rfl, rfl, rfl, rfl, rfl⟩

omit [Pacer τ] in
lemma pace_foldl (h : ∀ (s : σ) r, Pacer.pace (Pacer.report s r) = Pacer.pace s) {rs : List Report}
    {s : σ} : Pacer.pace (rs.foldl Pacer.report s) = Pacer.pace s := by
  induction rs generalizing s with
  | nil => rfl
  | cons r rs ih => exact ih.trans (h s r)

omit [Pacer τ] in
lemma Whole.told {first : σ} (hw : p.Whole) (h : p.Accounted first)
    (hr : Pool.run ops p = .ok (outs, p')) : p'.pacer = p'.reports.foldl Pacer.report first := by
  obtain ⟨outs', ds, p₁, hr', hds⟩ := hw.runDeeds ops
  obtain ⟨rfl, rfl⟩ := Prod.mk.inj (Except.ok.inj (hr'.symm.trans hr))
  exact (hds.trace.accounted hw h).1.told

theorem pacer_only_advises {c : Config} {first : σ} {start : Pool σ} (hc : create c first = .ok start)
    (hn : c.capacity.toNat < Arena.slotLimit) (other : τ) :
    ∃ start', create c other = .ok start' ∧
      ∀ ops, .proactive ∉ ops ∨ PacesAgree ops start start' → ∀ past, past <+: ops →
        ∃ outs p q, run past start = .ok (outs, p) ∧ run past start' = .ok (outs, q) ∧
          q.reports = p.reports ∧ p.pacer = p.reports.foldl Pacer.report first ∧
          q.pacer = p.reports.foldl Pacer.report other ∧
          q.stats = { p.stats with pace := q.stats.pace } ∧
          (∀ id, q.isResident id = p.isResident id) ∧ q.usage = p.usage := by
  obtain ⟨start', hc', halike⟩ := create_alike hc other
  refine ⟨start', hc', fun ops hops past hpast => ?_⟩
  have hagree : PacesAgree past start start' := by
    rcases hops with hno | hagree
    · exact .of_not_mem fun hmem => hno (hpast.subset hmem)
    · exact hagree.of_prefix hpast
  have hw := (create_whole hc hn).1
  obtain ⟨outs, p, hr, _⟩ := hw.run past
  obtain ⟨q, hr', h⟩ := halike.run hagree hr
  have htold := (create_whole hc' hn).1.told (create_accounted hc') hr'
  rw [h.reports_eq] at htold
  exact ⟨outs, p, q, hr, hr', h.reports_eq, hw.told (create_accounted hc) hr, htold, h.stats_eq,
    h.isResident_eq, h.usage_eq⟩

end Runs

end Advice

theorem steady_and_recorder_advise_alike :
    ∃ (start : Pool Steady) (start' : Pool Recorder) (outs : List Outcome) (p : Pool Steady)
      (q : Pool Recorder),
      create fourFrames (Steady.ofNat 2) = .ok start ∧
      create fourFrames (⟨2, []⟩ : Recorder) = .ok start' ∧
      run tenSteps start = .ok (outs, p) ∧ run tenSteps start' = .ok (outs, q) ∧
      q.reports = p.reports ∧ q.stats = { p.stats with pace := q.stats.pace } := by
  have hc : ∃ start, create fourFrames (Steady.ofNat 2) = .ok start := ⟨_, rfl⟩
  obtain ⟨start, hc⟩ := hc
  obtain ⟨start', hc', hrun⟩ := pacer_only_advises hc (by decide) (⟨2, []⟩ : Recorder)
  have hagree : PacesAgree tenSteps start start' := by
    intro past _ outs p outs' q hr hr'
    have hp := (create_whole hc (by decide)).1.told (create_accounted hc) hr
    have hq := (create_whole hc' (by decide)).1.told (create_accounted hc') hr'
    rw [hp, hq, pace_foldl fun _ _ => rfl, pace_foldl fun _ _ => rfl]
    rfl
  obtain ⟨outs, p, q, hr, hr', hreports, _, _, hstats, _⟩ :=
    hrun tenSteps (.inr hagree) tenSteps List.prefix_rfl
  exact ⟨start, start', outs, p, q, hc, hc', hr, hr', hreports, hstats⟩

end Pool

end FramePool
