import FramePool.Proofs.Pool.Batches
import Mathlib.Data.List.Rotate

/-! Without accesses and releases the frames go round in a circle. Resident and free ones form two queues,
each of which feeds the other. -/

namespace FramePool

def turns (n k : Nat) : List FrameId := (List.range k).map (· % n)

lemma drop_turns (n : Nat) {k e : Nat} (hn : k ≤ e + n) :
    (turns n k).drop e = ((List.range n).rotate e).take (k - e) := by
  apply List.ext_getElem
  · simp [turns]
    omega
  · intro i _ _
    simp [turns, List.getElem_rotate, Nat.add_comm]

lemma drop_turns_eq_cons (n : Nat) {k m : Nat} (hk : k < m) :
    (turns n m).drop k = k % n :: (turns n m).drop (k + 1) := by
  rw [List.drop_eq_getElem_cons (by simpa [turns])]
  simp [turns]

namespace Pool

def Op.plain : Op → Bool
  | .access _ | .release _ => false
  | _ => true

def Op.allocates : Op → Bool
  | .allocate => true
  | _ => false

section Rotation

variable {σ : Type}

structure Circling (p : Pool σ) (k : Nat) : Prop where
  whole : p.Whole
  unmarked : p.lru.Unmarked
  circle : p.lru.order.reverse ++ p.free.toList =
    (List.range p.settings.capacity).rotate p.lru.counters.evicted
  count_eq : p.lru.counters.evicted + p.lru.resident = k

variable [Pacer σ] {p q : Pool σ} {k budget n : Nat} {trigger : Trigger} {s : Scan}

namespace Circling

omit [Pacer σ] in
lemma reverse_order_eq (h : Circling p k) :
    p.lru.order.reverse = (turns p.settings.capacity k).drop p.lru.counters.evicted := by
  have hk := h.count_eq
  have hsum := h.whole.size_add_resident
  have hlen : p.lru.order.reverse.length = k - p.lru.counters.evicted := by
    rw [List.length_reverse, ← h.whole.lru.resident_eq]
    omega
  rw [drop_turns _ (by omega), ← h.circle, ← hlen, List.take_left]

lemma pass (h : Circling p k) (ha : Acts p (.pass budget trigger s) q) : Circling q k := by
  have hw := ha.whole
  cases ha.does with
  | @pass _ _ _ l hs =>
    obtain ⟨s', l', hs', hl, hu, _, ho, _⟩ := h.whole.lru.scan_unmarked h.unmarked budget
    obtain ⟨rfl, rfl⟩ := Prod.mk.inj (Except.ok.inj (hs'.symm.trans hs))
    have hct := (h.whole.lru.scan_counted hs).evicted_eq
    have hlen : p.lru.resident = l'.resident + s'.evicted.size := by
      simpa [← h.whole.lru.resident_eq, ← hl.resident_eq] using congrArg List.length ho
    refine ⟨hw, by rwa [swept_lru], ?_, ?_⟩
    · have hcircle := h.circle
      rw [ho, List.reverse_append, List.reverse_reverse, List.append_assoc] at hcircle
      rw [swept_lru, swept_settings, toList_free_swept, hct, ← List.rotate_rotate, ← hcircle,
        ← Array.length_toList, List.rotate_append_length_eq, List.append_assoc]
    · have := h.count_eq
      rw [swept_lru]
      omega

lemma passes {scans : List Scan} (h : Circling p k)
    (hc : DeedTrace p (scans.map (.pass budget trigger)) q) : Circling q k := by
  induction scans generalizing p with
  | nil =>
    cases hc
    exact h
  | cons s scans ih =>
    cases hc with
    | cons ha hc => exact ih (h.pass ha) hc

omit [Pacer σ] in
lemma head_free {id : FrameId} {rest : List FrameId} (h : Circling p k)
    (hf : p.free.toList = id :: rest) : id = k % p.settings.capacity := by
  have hcircle := h.circle
  have hlen : p.lru.order.reverse.length = p.lru.resident := by
    rw [List.length_reverse, h.whole.lru.resident_eq]
  have hlt : p.lru.resident < p.settings.capacity := by
    have hsum := h.whole.size_add_resident
    rw [← Queue.length_toList, hf, List.length_cons] at hsum
    omega
  have hid : (p.lru.order.reverse ++ id :: rest)[p.lru.resident]? =
      ((List.range p.settings.capacity).rotate p.lru.counters.evicted)[p.lru.resident]? := by
    rw [← hf, hcircle]
  rw [List.getElem?_append_right hlen.le, hlen, Nat.sub_self, List.getElem?_rotate (by simpa),
    List.length_range, Nat.add_comm, h.count_eq, List.getElem?_range (Nat.mod_lt _ (by omega))] at hid
  exact Option.some.inj hid

lemma handOut {id : FrameId} (h : Circling p k) (ha : Acts p (.handOut (some id)) q) :
    id = k % p.settings.capacity ∧ Circling q (k + 1) := by
  have hw := ha.whole
  cases ha.does with
  | @handOut _ free l hf hno had =>
    have hcircle := h.circle
    have hk := h.count_eq
    rw [hf] at hcircle
    refine ⟨h.head_free hf, hw, had.moved.unmarked h.unmarked, ?_, ?_⟩
    · change l.order.reverse ++ free.toList = (List.range p.settings.capacity).rotate l.counters.evicted
      rw [had.order_eq h.whole.lru.toCoherent, had.moved.counters_eq, ← hcircle, List.reverse_cons,
        List.append_assoc, List.singleton_append]
    · change l.counters.evicted + l.resident = k + 1
      rw [had.moved.counters_eq, had.resident_eq hno]
      omega

end Circling

lemma Circling.allocate (h : Circling p k) (hb : 0 < p.settings.directBudget)
    (hcap : 0 < p.settings.capacity) :
    ∃ q, p.allocate = .ok (some (k % p.settings.capacity), q) ∧ q.settings = p.settings ∧
      Circling q (k + 1) := by
  obtain ⟨id, q, hq, _, hs⟩ := h.whole.allocate
  have hgiven : ∃ p₁, Circling p₁ k ∧ p₁.settings = p.settings ∧ p₁.free.toList ≠ [] ∧
      p₁.handOut = .ok (id, q) := by
    obtain ⟨hnil, count, p₁, hd, ho⟩ | ⟨hne, ho⟩ := allocate_cases hq
    · obtain ⟨g, hg⟩ := h.whole.lru.exists_ids_ne_nil (h.whole.resident_of_full hnil ▸ hcap)
      have hn : p.lru.oldest < g + p.lru.generations.size := by
        have hlt := h.whole.lru.oldest_lt
        omega
      obtain ⟨scans, hc, _⟩ := h.whole.trace_directPasses hd
      exact ⟨p₁, h.passes hc, (hc.whole h.whole).2,
        (h.whole.directPasses_evicts h.unmarked hb hg hn hd).2, ho⟩
    · exact ⟨p, h, rfl, hne, ho⟩
  obtain ⟨p₁, h₁, hs₁, hfree, ho⟩ := hgiven
  have ha := h₁.whole.acts_handOut ho
  cases id with
  | none =>
    cases ha.does with
    | exhausted hnil => exact absurd hnil hfree
  | some id =>
    obtain ⟨rfl, hk⟩ := h₁.handOut ha
    rw [hs₁] at hq
    exact ⟨q, hq, hs, hk⟩

lemma OpDeeds.eq_passes {op : Op} {out : Outcome} {ds : List Deed} (hc : OpDeeds p op out ds)
    (hp : op.plain = true) (ha : op.allocates = false) :
    out.answer? = none ∧ ∃ budget trigger, ∃ scans : List Scan, ds = scans.map (.pass budget trigger) := by
  cases hc with
  | allocate => cases ha
  | access | release => cases hp
  | @reclaim budget s => exact ⟨rfl, budget, .requested, [s], rfl⟩
  | @direct budget scans => exact ⟨rfl, budget, .direct, scans, rfl⟩
  | @proactive s => exact ⟨rfl, Pacer.pace p.pacer, .requested, [s], rfl⟩
  | @background budget s => exact ⟨rfl, budget, .background, [s], rfl⟩

lemma Circling.step (h : Circling p k) (hb : 0 < p.settings.directBudget)
    (hcap : 0 < p.settings.capacity) {op : Op} (hp : op.plain = true) :
    ∃ out q, p.step op = .ok (out, q) ∧ q.settings = p.settings ∧
      if op.allocates then out.answer? = some (some (k % p.settings.capacity)) ∧ Circling q (k + 1)
      else out.answer? = none ∧ Circling q k := by
  cases ha : op.allocates with
  | true =>
    obtain rfl : op = .allocate := by cases op <;> first | rfl | cases ha
    obtain ⟨q, hq, hs, hk⟩ := h.allocate hb hcap
    exact ⟨.allocated _, q, by simp [Pool.step, hq], hs, rfl, hk⟩
  | false =>
    obtain ⟨out, q, hq, _, hs⟩ := h.whole.step op
    obtain ⟨ds, hcs, hc⟩ := h.whole.trace_step hq
    obtain ⟨hout, budget, trigger, scans, rfl⟩ := hcs.eq_passes hp ha
    exact ⟨out, q, hq, hs, hout, h.passes hc⟩

lemma Circling.run (h : Circling p k) (hb : 0 < p.settings.directBudget)
    (hcap : 0 < p.settings.capacity) {ops : List Op} (hp : ∀ op ∈ ops, op.plain = true) :
    ∃ outs q, Pool.run ops p = .ok (outs, q) ∧ q.settings = p.settings ∧
      Circling q (k + ops.countP Op.allocates) ∧ outs.filterMap Outcome.answer? =
        ((turns p.settings.capacity (k + ops.countP Op.allocates)).drop k).map some := by
  induction ops generalizing p k with
  | nil => exact ⟨[], p, rfl, rfl, h, by simp [turns]⟩
  | cons op ops ih =>
    obtain ⟨hop, hp⟩ := List.forall_mem_cons.mp hp
    obtain ⟨out, p₁, hq, hs, hk⟩ := h.step hb hcap hop
    cases ha : op.allocates with
    | true =>
      rw [ha, if_pos rfl] at hk
      obtain ⟨outs, q, hr, hs', hq', hans⟩ := ih hk.2 (hs ▸ hb) (hs ▸ hcap) hp
      rw [hs] at hans
      refine ⟨out :: outs, q, by simp [Pool.run, hq, hr], hs'.trans hs, ?_, ?_⟩
      · rw [List.countP_cons_of_pos ha, ← Nat.add_assoc, Nat.add_right_comm]
        exact hq'
      · rw [List.countP_cons_of_pos ha, drop_turns_eq_cons _ (by omega), List.map_cons,
          List.filterMap_cons_some hk.1, hans, ← Nat.add_assoc, Nat.add_right_comm]
    | false =>
      rw [ha, if_neg Bool.false_ne_true] at hk
      obtain ⟨outs, q, hr, hs', hq', hans⟩ := ih hk.2 (hs ▸ hb) (hs ▸ hcap) hp
      rw [hs] at hans
      have hno : ¬op.allocates = true := by simp [ha]
      refine ⟨out :: outs, q, by simp [Pool.run, hq, hr], hs'.trans hs, ?_, ?_⟩
      · rwa [List.countP_cons_of_neg hno]
      · rw [List.countP_cons_of_neg hno, List.filterMap_cons_none hk.1, hans]

omit [Pacer σ] in
lemma fresh_circling {c : Config} {pacer : σ} {window : Nat} (hgen : 0 < c.generations.toNat)
    (hn : c.capacity.toNat < Arena.slotLimit) : Circling (fresh c pacer window) 0 := by
  refine ⟨fresh_whole hgen hn, fun g id => Lru.fresh_marked _ _ g id, ?_, rfl⟩
  change (Lru.fresh _ _).order.reverse ++ (Queue.ofList (List.range c.capacity.toNat)).toList =
    (List.range c.capacity.toNat).rotate 0
  rw [Lru.fresh_order _ _ hgen, List.rotate_zero, Queue.toList_ofList]
  rfl

theorem allocates_in_a_circle {c : Config} {pacer : σ} {start : Pool σ}
    (hc : create c pacer = .ok start) (hn : c.capacity.toNat < Arena.slotLimit) {ops : List Op}
    (hp : ∀ op ∈ ops, op.plain = true) :
    ∃ outs p, run ops start = .ok (outs, p) ∧
      let given := turns c.capacity.toNat (ops.countP Op.allocates)
      let resident := given.drop p.lru.counters.evicted
      outs.filterMap Outcome.answer? = given.map some ∧
        (∀ id, p.lru.contains id = true ↔ id ∈ resident) ∧
        resident ++ p.free.toList = (List.range c.capacity.toNat).rotate p.lru.counters.evicted := by
  obtain ⟨hv, hgen, window, rfl⟩ := create_eq_fresh hc
  obtain ⟨hcap, _, _, hb⟩ := Config.of_validate hv
  have hfresh : Circling (fresh c pacer window) 0 := fresh_circling hgen hn
  obtain ⟨outs, p, hr, hs, hk, hans⟩ := hfresh.run hb hcap hp
  have hcapacity : p.settings.capacity = c.capacity.toNat := congrArg Settings.capacity hs
  have hres := hk.reverse_order_eq
  have hcircle := hk.circle
  rw [Nat.zero_add, hcapacity] at hres
  rw [hres, hcapacity] at hcircle
  refine ⟨outs, p, hr, ?_, fun id => ?_, hcircle⟩
  · rwa [Nat.zero_add, List.drop_zero] at hans
  · rw [← hres, List.mem_reverse, hk.whole.lru.mem_order]

end Rotation

theorem circle_of_three_frames :
    ∃ start, create { capacity := 3, generations := 2, trackerWords := 1 } (Steady.ofNat 1) = .ok start ∧
      let ops : List Op := [.allocate, .allocate, .allocate, .reclaim 0, .direct 2, .allocate,
        .background 9, .allocate, .allocate, .proactive, .allocate, .allocate, .allocate]
      ∃ outs p, run ops start = .ok (outs, p) ∧
        outs.filterMap Outcome.answer? = [0, 1, 2, 0, 1, 2, 0, 1, 2].map some ∧
        ((turns 3 9).drop p.lru.counters.evicted) ++ p.free.toList =
          (List.range 3).rotate p.lru.counters.evicted := by
  have hc : ∃ start, create { capacity := 3, generations := 2, trackerWords := 1 } (Steady.ofNat 1) =
      .ok start := ⟨_, rfl⟩
  obtain ⟨start, hc⟩ := hc
  obtain ⟨outs, p, hr, hans, _, hcircle⟩ := @allocates_in_a_circle _ _ _ _ _ hc (by decide)
    [.allocate, .allocate, .allocate, .reclaim 0, .direct 2, .allocate, .background 9, .allocate,
      .allocate, .proactive, .allocate, .allocate, .allocate] (by decide)
  exact ⟨start, hc, outs, p, hr, hans, hcircle⟩

end Pool

end FramePool
