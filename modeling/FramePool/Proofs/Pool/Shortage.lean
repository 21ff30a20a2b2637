import FramePool.Proofs.Pool.Rotation

/-! When reclaim on request evicts no frame. The passes of one request reach every generation, so only
access bits can be the reason, and the bit of the oldest frame is one of them. -/

namespace FramePool

namespace Lru

def TailMarked (l : Lru) : Prop :=
  ∃ id, (l.ids l.oldest).getLast? = some id ∧ (l.bitmap l.oldest).marked id = true

variable {l l' : Lru} {s : Scan} {budget : Nat}

lemma TailMarked.ne_nil (h : l.TailMarked) : l.ids l.oldest ≠ [] := by
  obtain ⟨id, hid, _⟩ := h
  intro hnil
  simp [hnil] at hid

lemma Consistent.evicts_tail (h : l.Consistent) (hne : l.ids l.oldest ≠ []) (ht : ¬l.TailMarked)
    (hb : 0 < budget) (hs : l.scan budget = .ok (s, l')) : 0 < s.evicted.size := by
  have hcells : l.cells l.oldest ≠ [] := fun hnil => hne (by simp [ids, hnil])
  obtain ⟨l₁, l₂, s₁, hs₁, _, hsc⟩ := h.scan_of_ne_nil hcells budget
  obtain ⟨rfl, -⟩ := Prod.mk.inj (Except.ok.inj (hs₁.symm.trans hs))
  obtain ⟨c, cs, hc⟩ : ∃ c cs, (l.cells l.oldest).reverse = c :: cs :=
    List.exists_cons_of_ne_nil (by simpa using hcells)
  have hm : (l.bitmap l.oldest).marked c.id = false := by
    refine Bool.eq_false_iff.mpr fun hm => ht ⟨c.id, ?_, hm⟩
    rw [ids, ← List.head?_reverse, ← List.map_reverse, hc, List.map_cons, List.head?_cons]
  have hcand : l.candidates budget = c :: cs.take (budget - 1) := by
    rw [candidates, hc, List.take_cons hb]
  have hev := congrArg List.length hsc.evicted_eq
  simp only [verdict, hcand, Bitmap.sift, hm, Bool.false_eq_true, if_false, List.map_cons,
    List.length_cons, Array.length_toList] at hev
  omega

end Lru

namespace Pool

section Shortage

variable {σ : Type} [Pacer σ] {p q : Pool σ} {budget count : Nat}

lemma Whole.evicts_after_aging (h : p.Whole) (hb : 0 < budget) (hr : 0 < p.lru.resident)
    (he : p.lru.ids p.lru.oldest = []) {n : Nat} (hn : p.lru.oldest < n)
    (hq : Pool.directPasses budget n p = .ok (count, q)) : 0 < count := by
  obtain ⟨m, rfl⟩ := Nat.exists_eq_succ_of_ne_zero (Nat.ne_zero_of_lt hn)
  have hnil : p.lru.cells p.lru.oldest = [] := List.map_eq_nil_iff.mp he
  obtain ⟨l, hs, _, ha⟩ := h.lru.scan_of_empty hnil budget
  obtain ⟨s, p₁, hp, hw, hpp⟩ := h.pass budget .direct
  obtain ⟨rfl, rfl⟩ := Prod.mk.inj (Except.ok.inj (hs.symm.trans hpp.scan_eq))
  obtain ⟨g, hg⟩ := h.lru.exists_ids_ne_nil hr
  have hlt : g < p.lru.oldest := by
    refine Nat.lt_of_le_of_ne (h.lru.le_oldest hg) ?_
    rintro rfl
    exact hg he
  have hg₁ := ha.ids_succ_ne_nil hlt hg
  have ho : p₁.lru.oldest = p.lru.oldest := by simp [Lru.oldest, ha.size_eq]
  have hres : p₁.lru.resident ≠ 0 := (hw.lru.resident_pos hg₁).ne'
  simp only [Pool.directPasses, hp, ok_bind, List.size_toArray, List.length_nil, Nat.lt_irrefl,
    if_false, hres] at hq
  exact (hw.directPasses_evicts ha.unmarked hb hg₁ (by omega) hq).1

lemma Whole.direct_evicts (h : p.Whole) (hb : 0 < budget) (hr : 0 < p.lru.resident)
    (ht : ¬p.lru.TailMarked) (hq : p.direct budget = .ok (count, q)) : 0 < count := by
  by_cases he : p.lru.ids p.lru.oldest = []
  · exact h.evicts_after_aging hb hr he h.lru.oldest_lt hq
  · obtain ⟨s, p₁, hp, _, hpp⟩ := h.pass budget .direct
    have hev := h.lru.evicts_tail he ht hb hpp.scan_eq
    rw [Pool.direct, h.lru.size_eq_succ] at hq
    simp only [Pool.directPasses, hp, ok_bind, hev, if_true] at hq
    obtain ⟨rfl, -⟩ := Prod.mk.inj (Except.ok.inj hq)
    exact hev

lemma Whole.directPasses_le (h : p.Whole) {n : Nat}
    (hq : Pool.directPasses budget n p = .ok (count, q)) :
    q.tally.directPasses ≤ p.tally.directPasses + n := by
  induction n generalizing p with
  | zero =>
    obtain ⟨-, rfl⟩ := Prod.mk.inj (Except.ok.inj hq)
    exact Nat.le_refl _
  | succ n ih =>
    simp only [Pool.directPasses, bind_eq_ok] at hq
    obtain ⟨⟨s, p₁⟩, hp, hq⟩ := hq
    have ha := h.acts_pass hp
    have hone := ha.directPasses_eq
    split_ifs at hq
    · obtain ⟨-, rfl⟩ := Prod.mk.inj (Except.ok.inj hq)
      change p₁.tally.directPasses ≤ _
      omega
    · obtain ⟨-, rfl⟩ := Prod.mk.inj (Except.ok.inj hq)
      change p₁.tally.directPasses ≤ _
      omega
    · have := ih ha.whole hq
      omega

structure Fruitless (p q : Pool σ) : Prop where
  free_eq : q.free.toList = p.free.toList
  ghosts_eq : q.ghosts = p.ghosts
  refaults_eq : q.tally.refaults = p.tally.refaults
  failed_eq : q.tally.failedAllocations = p.tally.failedAllocations

lemma Acts.fruitless {trigger : Trigger} {s : Scan} (ha : Acts p (.pass budget trigger s) q)
    (hs : s.evicted.size = 0) : Fruitless p q := by
  have hnil : s.evicted.toList = [] := List.eq_nil_of_length_eq_zero hs
  cases ha.does
  constructor
  · rw [toList_free_swept, hnil, List.append_nil]
  · rw [swept_ghosts, hnil, List.foldl_nil]
  · rw [swept_tally]
    cases trigger <;> rfl
  · rw [swept_tally]
    cases trigger <;> rfl

lemma DeedTrace.fruitless {trigger : Trigger} {scans : List Scan}
    (hc : DeedTrace p (scans.map (.pass budget trigger)) q)
    (hs : (scans.map (·.evicted.size)).sum = 0) : Fruitless p q := by
  induction scans generalizing p with
  | nil =>
    cases hc
    exact ⟨rfl, rfl, rfl, rfl⟩
  | cons s scans ih =>
    rw [List.map_cons, List.sum_cons, Nat.add_eq_zero_iff] at hs
    cases hc with
    | cons ha hc =>
      have h₁ := ha.fruitless hs.1
      have h₂ := ih hc hs.2
      exact ⟨h₂.free_eq.trans h₁.free_eq, h₂.ghosts_eq.trans h₁.ghosts_eq,
        h₂.refaults_eq.trans h₁.refaults_eq, h₂.failed_eq.trans h₁.failed_eq⟩

lemma DeedTrace.length_free {trigger : Trigger} {scans : List Scan}
    (hc : DeedTrace p (scans.map (.pass budget trigger)) q) :
    q.free.toList.length = p.free.toList.length + (scans.map (·.evicted.size)).sum := by
  induction scans generalizing p with
  | nil =>
    cases hc
    rfl
  | cons s scans ih =>
    cases hc with
    | cons ha hc =>
      have hrest := ih hc
      cases ha.does
      simp [hrest, Nat.add_assoc]

structure Denied (p q : Pool σ) : Prop where
  free_eq : q.free.toList = []
  resident : ∀ id < p.settings.capacity, q.lru.contains id = true
  ghosts_eq : q.ghosts = p.ghosts
  refaults_eq : q.tally.refaults = p.tally.refaults
  failed_eq : q.tally.failedAllocations = p.tally.failedAllocations + 1

lemma Whole.denied (h : p.Whole) (hb : 0 < p.settings.directBudget) (hcap : 0 < p.settings.capacity)
    (hq : p.allocate = .ok (none, q)) :
    p.free.toList = [] ∧ p.lru.TailMarked ∧ Denied p q := by
  obtain ⟨hnil, count, p₁, hd, ho⟩ | ⟨hne, ho⟩ := allocate_cases hq
  · have hres : 0 < p.lru.resident := h.resident_of_full hnil ▸ hcap
    obtain ⟨scans, hc, hcount⟩ := h.trace_directPasses hd
    obtain ⟨h₁, hs₁⟩ := hc.whole h
    have ha := h₁.acts_handOut ho
    have hw := ha.whole
    have hcap₁ := ha.settings_eq
    cases ha.does with
    | exhausted hnil₁ =>
      have hnone : (scans.map (·.evicted.size)).sum = 0 := by
        have hlen := hc.length_free
        rw [hnil₁, hnil] at hlen
        simpa using hlen.symm
      have ht : p.lru.TailMarked := by
        by_contra ht
        exact (h.direct_evicts hb hres ht hd).ne' (hcount.trans hnone)
      have hfr := hc.fruitless hnone
      refine ⟨hnil, ht, hnil₁, fun id hid => ?_, hfr.ghosts_eq, hfr.refaults_eq, ?_⟩
      · have hplace := hw.conserved.one_place id (by rwa [hcap₁, hs₁])
        rw [hnil₁] at hplace
        simpa using hplace
      · exact congrArg (· + 1) hfr.failed_eq
  · cases (h.acts_handOut ho).does with
    | exhausted hnil => exact absurd hnil hne

theorem reclaim_fails_at_marked_tail {c : Config} {pacer : σ} {start : Pool σ}
    (hc : create c pacer = .ok start) (hn : c.capacity.toNat < Arena.slotLimit) (ops : List Op) :
    ∃ outs p, run ops start = .ok (outs, p) ∧
      (0 < p.lru.resident → ∀ budget, 0 < budget → ∃ count q, p.direct budget = .ok (count, q) ∧
        q.tally.directPasses ≤ p.tally.directPasses + p.lru.generations.size ∧
        (count = 0 → p.lru.TailMarked) ∧ (p.lru.ids p.lru.oldest = [] → 1 ≤ count)) ∧
      ∃ answer q, p.allocate = .ok (answer, q) ∧
        (answer = none → p.free.toList = [] ∧ p.lru.TailMarked ∧ Denied p q) := by
  obtain ⟨hv, hgen, window, rfl⟩ := create_eq_fresh hc
  obtain ⟨hcap, _, _, hb⟩ := Config.of_validate hv
  have hfresh : (fresh c pacer window).Whole := fresh_whole hgen hn
  obtain ⟨outs, p, hr, h, hs⟩ := hfresh.run ops
  have hcap' : 0 < p.settings.capacity := by rwa [hs]
  have hb' : 0 < p.settings.directBudget := by rwa [hs]
  refine ⟨outs, p, hr, fun hres budget hbudget => ?_, ?_⟩
  · obtain ⟨count, q, hq, _⟩ := h.direct budget
    have hevicts : ¬p.lru.TailMarked → 0 < count := fun ht => h.direct_evicts hbudget hres ht hq
    refine ⟨count, q, hq, h.directPasses_le hq, fun hzero => ?_, fun he => ?_⟩
    · by_contra ht
      exact (hevicts ht).ne' hzero
    · exact hevicts fun ht => ht.ne_nil he
  · obtain ⟨answer, q, hq, _⟩ := h.allocate
    refine ⟨answer, q, hq, ?_⟩
    rintro rfl
    exact h.denied hb' hcap' hq

end Shortage

theorem shortage_of_two_frames :
    ∃ start, create { capacity := 2, generations := 2, trackerWords := 1, directBudget := 1 }
        (Steady.ofNat 1) = .ok start ∧
      ∃ outs p q, run [.allocate, .allocate, .reclaim 1, .access 0, .access 1] start =
          .ok (outs, p) ∧ p.allocate = .ok (none, q) ∧ p.free.toList = [] ∧ p.lru.TailMarked ∧
        Denied p q ∧ q.tally.directPasses = 2 := by
  have hc : ∃ start,
      create { capacity := 2, generations := 2, trackerWords := 1, directBudget := 1 }
        (Steady.ofNat 1) = .ok start ∧
      ((run [.allocate, .allocate, .reclaim 1, .access 0, .access 1] start).toOption.bind fun r =>
        r.2.allocate.toOption.map fun r => (r.1, r.2.tally.directPasses)) = some (none, 2) :=
    ⟨_, rfl, by decide +kernel⟩
  obtain ⟨start, hc, hanswer⟩ := hc
  obtain ⟨outs, p, hr, _, answer, q, ha, hnone⟩ := @reclaim_fails_at_marked_tail _ _ _ _ _ hc
    (by decide) [.allocate, .allocate, .reclaim 1, .access 0, .access 1]
  obtain ⟨rfl, hpasses⟩ : answer = none ∧ q.tally.directPasses = 2 := by
    simpa [hr, ha, Except.toOption] using hanswer
  obtain ⟨hfree, ht, hd⟩ := hnone rfl
  exact ⟨start, hc, outs, p, q, hr, ha, hfree, ht, hd, hpasses⟩

end Pool

end FramePool
