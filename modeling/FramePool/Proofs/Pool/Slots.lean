import FramePool.Proofs.Lru.Slots
import FramePool.Proofs.Pool.Conservation

/-! Slots are reused: no list of an engine has more of them than it ever held frames at once, and no list
of a pool has more than the pool has frames. -/

namespace FramePool

namespace Pool

section Slots

variable {σ : Type} {p q r : Pool σ} {n budget : Nat} {trigger : Trigger} {s : Scan}
  {id : Option FrameId} {op : Op} {out : Outcome} {ops : List Op} {outs : List Outcome}

def Drives (n : Nat) (p q : Pool σ) : Prop := ∃ ops, Lru.Confined n p.lru ops q.lru

lemma Drives.of_lru_eq (h : q.lru = p.lru) : Drives n p q := ⟨[], h ▸ .nil⟩

lemma Drives.trans (h : Drives n p q) (h' : Drives n q r) : Drives n p r := by
  obtain ⟨ops, h⟩ := h
  obtain ⟨more, h'⟩ := h'
  exact ⟨ops ++ more, h.append h'⟩

lemma Drives.single (lop : Lru.Op) (lout : Lru.Outcome) (hs : p.lru.step lop = .ok (lout, q.lru))
    (hn : p.lru.order.length + Lru.Traced.arrivals lop ≤ n) : Drives n p q :=
  ⟨[lop], .cons hs hn .nil⟩

namespace Whole

lemma length_order_le (h : p.Whole) : p.lru.order.length ≤ p.settings.capacity := by
  have := h.size_add_resident
  rw [← h.lru.resident_eq]
  omega

lemma drives_handOut (h : p.Whole) (hq : p.handOut = .ok (id, q)) :
    Drives p.settings.capacity p q := by
  rw [Pool.handOut] at hq
  cases hf : p.free.pop? with
  | none =>
    rw [hf] at hq
    obtain ⟨-, rfl⟩ := Prod.mk.inj (Except.ok.inj hq)
    exact .of_lru_eq rfl
  | some popped =>
    obtain ⟨id, free⟩ := popped
    rw [hf] at hq
    obtain ⟨l, hi, he⟩ := bind_eq_ok.mp hq
    obtain ⟨-, rfl⟩ := Prod.mk.inj (Except.ok.inj he)
    refine .single (.insert id) .done (by simp [Lru.step, hi]) ?_
    have hfree := congrArg List.length (Queue.toList_of_pop? hf)
    have := h.size_add_resident
    rw [Queue.length_toList, List.length_cons] at hfree
    rw [← h.lru.resident_eq, Lru.Traced.arrivals]
    omega

lemma drives_access (h : p.Whole) (id : FrameId) : Drives p.settings.capacity p (p.access id) := by
  rw [Pool.access]
  split_ifs
  · exact .single (.touch id) .done rfl h.length_order_le
  · exact .of_lru_eq rfl
  · exact .of_lru_eq rfl

lemma drives_release (h : p.Whole) {id : FrameId} (hq : p.release id = .ok q) :
    Drives p.settings.capacity p q := by
  obtain ⟨⟨found, l⟩, hr, he⟩ := bind_eq_ok.mp hq
  have hl : q.lru = l := by
    simp only at he
    split_ifs at he <;> rw [← Except.ok.inj he]
  refine .single (.remove id) (.removed found) ?_ h.length_order_le
  simp [Lru.step, hr, hl]

variable [Pacer σ]

lemma drives_pass (h : p.Whole) (hq : p.pass budget trigger = .ok (s, q)) :
    Drives p.settings.capacity p q := by
  obtain ⟨s', q', hq', _, hpq⟩ := h.pass budget trigger
  obtain ⟨rfl, rfl⟩ := Prod.mk.inj (Except.ok.inj (hq'.symm.trans hq))
  refine .single (.scan budget) (.scanned s') ?_ h.length_order_le
  simp [Lru.step, hpq.scan_eq]

lemma drives_directPasses (h : p.Whole) {k count : Nat}
    (hq : Pool.directPasses budget k p = .ok (count, q)) : Drives p.settings.capacity p q := by
  induction k generalizing p with
  | zero =>
    obtain ⟨-, rfl⟩ := Prod.mk.inj (Except.ok.inj hq)
    exact .of_lru_eq rfl
  | succ k ih =>
    obtain ⟨⟨s, p₁⟩, hp, hq⟩ := bind_eq_ok.mp hq
    have hd := h.drives_pass hp
    obtain ⟨s', p₁', hp', hw, hpq⟩ := h.pass budget .direct
    obtain ⟨rfl, rfl⟩ := Prod.mk.inj (Except.ok.inj (hp'.symm.trans hp))
    simp only at hq
    split_ifs at hq
    · obtain ⟨-, rfl⟩ := Prod.mk.inj (Except.ok.inj hq)
      exact hd
    · obtain ⟨-, rfl⟩ := Prod.mk.inj (Except.ok.inj hq)
      exact hd
    · exact hd.trans (hpq.settings_eq ▸ ih hw hq)

lemma drives_allocate (h : p.Whole) (hq : p.allocate = .ok (id, q)) :
    Drives p.settings.capacity p q := by
  obtain ⟨_, count, p₁, hd, ho⟩ | ⟨_, ho⟩ := allocate_cases hq
  · obtain ⟨_, _, hd', hw, hs⟩ := h.direct p.settings.directBudget
    obtain ⟨-, rfl⟩ := Prod.mk.inj (Except.ok.inj (hd'.symm.trans hd))
    exact (h.drives_directPasses hd).trans (hs ▸ hw.drives_handOut ho)
  · exact h.drives_handOut ho

lemma drives_step (h : p.Whole) (hq : p.step op = .ok (out, q)) :
    Drives p.settings.capacity p q := by
  cases op with
  | allocate =>
    obtain ⟨⟨id, p₁⟩, ha, he⟩ := bind_eq_ok.mp hq
    obtain ⟨-, rfl⟩ := Prod.mk.inj (Except.ok.inj he)
    exact h.drives_allocate ha
  | access id =>
    obtain ⟨-, rfl⟩ := Prod.mk.inj (Except.ok.inj hq)
    exact h.drives_access id
  | release id =>
    obtain ⟨p₁, hr, he⟩ := bind_eq_ok.mp hq
    obtain ⟨-, rfl⟩ := Prod.mk.inj (Except.ok.inj he)
    exact h.drives_release hr
  | reclaim budget =>
    obtain ⟨⟨s, p₁⟩, hp, he⟩ := bind_eq_ok.mp hq
    obtain ⟨-, rfl⟩ := Prod.mk.inj (Except.ok.inj he)
    exact h.drives_pass hp
  | direct budget =>
    obtain ⟨⟨count, p₁⟩, hd, he⟩ := bind_eq_ok.mp hq
    obtain ⟨-, rfl⟩ := Prod.mk.inj (Except.ok.inj he)
    exact h.drives_directPasses hd
  | proactive =>
    obtain ⟨⟨count, p₁⟩, hpro, he⟩ := bind_eq_ok.mp hq
    obtain ⟨⟨s, p₂⟩, hp, he'⟩ := bind_eq_ok.mp hpro
    obtain ⟨-, rfl⟩ := Prod.mk.inj (Except.ok.inj he')
    obtain ⟨-, rfl⟩ := Prod.mk.inj (Except.ok.inj he)
    exact h.drives_pass hp
  | background budget =>
    obtain ⟨⟨s, p₁⟩, hp, he⟩ := bind_eq_ok.mp hq
    obtain ⟨-, rfl⟩ := Prod.mk.inj (Except.ok.inj he)
    exact h.drives_pass hp

lemma drives_run (h : p.Whole) (ops : List Op) :
    ∃ outs q, Pool.run ops p = .ok (outs, q) ∧ Drives p.settings.capacity p q := by
  induction ops generalizing p with
  | nil => exact ⟨[], p, rfl, .of_lru_eq rfl⟩
  | cons op ops ih =>
    obtain ⟨out, q, hq, hw, hs⟩ := h.step op
    obtain ⟨outs, r, hr, hd⟩ := ih hw
    exact ⟨out :: outs, r, by simp [Pool.run, hq, hr], (h.drives_step hq).trans (hs ▸ hd)⟩

end Whole

/-- In every engine, at every moment of every run, also inside its agings and scans and up to a failure,
the slots of each list are as many as the most frames that it held at one moment so far. A pool with fewer
frames than a list can have slots never fails: it drives its engine by operations that let no list have more
slots than there are frames. -/
theorem slots_match_most_frames_held :
    (∀ {generations words : Nat} {start : Lru} (ops : List Lru.Op),
      Lru.create generations words = .ok start →
      (Lru.Traced.run ops start).result = Lru.run ops start ∧
      (∀ outs l, Lru.run ops start = .ok (outs, l) →
        l.arena = ((Lru.Traced.run ops start).moments.getLastD start).arena) ∧
      ∀ seen m, seen ++ [m] <+: start :: (Lru.Traced.run ops start).moments →
        Lru.SlotsMatch (seen ++ [m]) m) ∧
    ∀ {σ : Type} [Pacer σ] {c : Config} {pacer : σ} {start : Pool σ} (ops : List Op),
      create c pacer = .ok start → c.capacity.toNat < Arena.slotLimit →
      ∃ outs p, run ops start = .ok (outs, p) ∧
      ∃ lruOps lruOuts, Lru.run lruOps start.lru = .ok (lruOuts, p.lru) ∧
        ∀ m ∈ (Lru.Traced.run lruOps start.lru).moments, ∀ g,
          (m.arena g).slots.size ≤ c.capacity.toNat := by
  constructor
  · intro generations words start ops hc
    obtain ⟨rfl, _, _⟩ := Lru.create_ok hc
    have h := Lru.Traced.follows_run ops (Lru.fresh generations words)
    obtain ⟨_, _, hp, hend⟩ := h.path
    refine ⟨h.result_eq, fun outs l hr => ?_, fun seen m hm => Lru.fresh_slotsMatch hm⟩
    obtain ⟨-, rfl⟩ := hend _ hr
    exact hp.arena_eq
  · intro σ _ c pacer start ops hc hn
    obtain ⟨_, hgen, window, rfl⟩ := create_eq_fresh hc
    have hw : (fresh c pacer window).Whole := fresh_whole hgen hn
    obtain ⟨outs, p, hr, lruOps, hcf⟩ := hw.drives_run ops
    obtain ⟨lruOuts, hrun, hms⟩ := hcf.slots_le hw.lru.toCoherent
    exact ⟨outs, p, hr, lruOps, lruOuts, hrun, hms⟩

theorem two_slots_and_three_frames :
    (∃ start, Lru.create 2 1 = .ok start ∧
      ∃ seen m, seen ++ [m] = start :: (Lru.Traced.run [.insert 1, .insert 2, .age, .insert 3,
        .touch 1, .scan 1, .remove 3, .age] start).moments ∧ Lru.SlotsMatch (seen ++ [m]) m ∧
        (m.arena 0).slots.size = 2 ∧ (m.arena 1).slots.size = 2) ∧
    ∃ start, create { capacity := 3, generations := 2, trackerWords := 1 } (Steady.ofNat 1) =
        .ok start ∧
      ∃ outs p, run [.allocate, .allocate, .allocate, .access 0, .allocate, .release 1, .background 1,
        .allocate, .proactive, .direct 2] start = .ok (outs, p) ∧
      ∃ lruOps lruOuts, Lru.run lruOps start.lru = .ok (lruOuts, p.lru) ∧
        ∀ m ∈ (Lru.Traced.run lruOps start.lru).moments, ∀ g, (m.arena g).slots.size ≤ 3 := by
  constructor
  · have hc : Lru.create 2 1 = .ok (Lru.fresh 2 1) := rfl
    have hlast := List.dropLast_append_getLast (List.cons_ne_nil (Lru.fresh 2 1)
      (Lru.Traced.run [.insert 1, .insert 2, .age, .insert 3, .touch 1, .scan 1, .remove 3, .age]
        (Lru.fresh 2 1)).moments)
    obtain ⟨-, -, hmatch⟩ := slots_match_most_frames_held.1 _ hc
    exact ⟨_, hc, _, _, hlast, hmatch _ _ ⟨[], (List.append_nil _).trans hlast⟩, by decide +kernel,
      by decide +kernel⟩
  · have hc : ∃ start, create { capacity := 3, generations := 2, trackerWords := 1 }
        (Steady.ofNat 1) = .ok start := ⟨_, rfl⟩
    obtain ⟨start, hc⟩ := hc
    exact ⟨start, hc, slots_match_most_frames_held.2 _ hc (by decide)⟩

end Slots

end Pool

end FramePool
