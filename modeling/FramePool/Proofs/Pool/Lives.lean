import FramePool.Pool.Stats
import FramePool.Proofs.Pool.Deeds
import Mathlib.Data.List.Chain

/-! The journal of a pool tells when each frame was handed out, freed and evicted. A stay begins with one
hand-out and ends with one departure. -/

namespace FramePool

inductive Move where
  | handedOut
  | freed
  | evicted
deriving DecidableEq

def Move.arrives : Move → Bool
  | handedOut => true
  | _ => false

def leaving (ids : List FrameId) : List (FrameId × Move) := ids.map (·, .evicted)

def Event.moves : Event → List (FrameId × Move)
  | .allocated id => [(id, .handedOut)]
  | .freed id => [(id, .freed)]
  | .passed _ _ evicted _ => leaving evicted
  | _ => []

def lifeOf (id : FrameId) (ms : List (FrameId × Move)) : List Move := (ms.filter (·.1 = id)).map Prod.snd

def total (m : Move) (ms : List (FrameId × Move)) : Nat := (ms.map Prod.snd).count m

def Alternates (ms : List Move) : Prop :=
  (∀ m ∈ ms.head?, m.arrives = true) ∧ ms.IsChain fun m m' => m.arrives ≠ m'.arrives

inductive Leads : Bool → List Move → Bool → Prop
  | nil {b : Bool} : Leads b [] b
  | arrive {ms : List Move} {b : Bool} : Leads true ms b → Leads false (.handedOut :: ms) b
  | depart {m : Move} {ms : List Move} {b : Bool} : m.arrives = false → Leads false ms b →
      Leads true (m :: ms) b

namespace Leads

variable {a b c : Bool} {ms ms' : List Move}

lemma append (h : Leads a ms b) (h' : Leads b ms' c) : Leads a (ms ++ ms') c := by
  induction h with
  | nil => exact h'
  | arrive _ ih => exact .arrive (ih h')
  | depart hm _ ih => exact .depart hm (ih h')

lemma head_arrives (h : Leads a ms b) : ∀ m ∈ ms.head?, m.arrives = !a := by
  cases h with
  | nil => simp
  | arrive => simp [Move.arrives]
  | depart hm => simpa using hm

lemma isChain (h : Leads a ms b) : ms.IsChain fun m m' => m.arrives ≠ m'.arrives := by
  induction h with
  | nil => exact .nil
  | arrive h ih =>
    refine List.isChain_cons.mpr ⟨fun m hm => ?_, ih⟩
    rw [h.head_arrives m hm]
    decide
  | depart hm h ih =>
    refine List.isChain_cons.mpr ⟨fun m' hm' => ?_, ih⟩
    rw [h.head_arrives m' hm', hm]
    decide

lemma getLast?_arrives (h : Leads a ms b) : b = (ms.getLast?.map Move.arrives).getD a := by
  induction h with
  | nil => rfl
  | arrive _ ih =>
    rw [ih, List.getLast?_cons]
    cases List.getLast? _ <;> rfl
  | depart hm _ ih =>
    rw [ih, List.getLast?_cons]
    cases List.getLast? _
    · exact hm.symm
    · rfl

lemma alternates (h : Leads false ms b) : Alternates ms := ⟨h.head_arrives, h.isChain⟩

lemma resident_iff (h : Leads false ms b) : b = true ↔ ms.getLast? = some .handedOut := by
  rw [h.getLast?_arrives]
  rcases ms.getLast? with _ | _ | _ | _ <;> simp [Move.arrives]

end Leads

lemma lifeOf_append (id : FrameId) (ms ms' : List (FrameId × Move)) :
    lifeOf id (ms ++ ms') = lifeOf id ms ++ lifeOf id ms' := by simp [lifeOf]

lemma total_append (m : Move) (ms ms' : List (FrameId × Move)) :
    total m (ms ++ ms') = total m ms + total m ms' := by simp [total]

@[simp] lemma lifeOf_single (id k : FrameId) (m : Move) :
    lifeOf id [(k, m)] = if k = id then [m] else [] := by
  by_cases hk : k = id <;> simp [lifeOf, hk]

@[simp] lemma total_single (m m' : Move) (id : FrameId) :
    total m [(id, m')] = if m' = m then 1 else 0 := by
  simp [total, List.count_singleton]

lemma lifeOf_leaving (id : FrameId) (ids : List FrameId) :
    lifeOf id (leaving ids) = List.replicate (ids.count id) .evicted := by
  have hf : ((fun m : FrameId × Move => decide (m.1 = id)) ∘ (·, Move.evicted)) =
      fun k => decide (k = id) := rfl
  rw [lifeOf, leaving, List.filter_map, hf, List.filter_eq]
  simp

@[simp] lemma total_leaving (m : Move) (ids : List FrameId) :
    total m (leaving ids) = if .evicted = m then ids.length else 0 := by
  have hsnd : (leaving ids).map Prod.snd = List.replicate ids.length .evicted := by
    simp [leaving, Function.comp_def]
  rw [total, hsnd, List.count_replicate]
  simp

lemma leads_of_leaving {l l' : Lru} (h : l.Coherent) (h' : l'.Coherent) {gone : List FrameId}
    (hp : (gone ++ l'.order).Perm l.order) (id : FrameId) :
    Leads (l.contains id) (lifeOf id (leaving gone)) (l'.contains id) := by
  have hn : (gone ++ l'.order).Nodup := hp.nodup_iff.mpr h.order_nodup
  have hmem : l.contains id = true ↔ id ∈ gone ∨ l'.contains id = true := by
    rw [← h.mem_order, ← h'.mem_order, ← hp.mem_iff, List.mem_append]
  rw [lifeOf_leaving]
  by_cases hid : id ∈ gone
  · have hstays : l'.contains id = false := by
      rw [← Bool.not_eq_true, ← h'.mem_order]
      exact List.disjoint_of_nodup_append hn hid
    rw [hmem.mpr (.inl hid), hstays, List.count_eq_one_of_mem hn.of_append_left hid]
    exact .depart rfl .nil
  · have hsame : l.contains id = l'.contains id := by
      rw [Bool.eq_iff_iff, hmem, or_iff_right hid]
    rw [hsame, List.count_eq_zero_of_not_mem hid]
    exact .nil

namespace Pool

section Lives

variable {σ : Type}

def moves (p : Pool σ) : List (FrameId × Move) := p.journal.toList.flatMap Event.moves

def Deed.moves : Deed → List (FrameId × Move)
  | .pass _ _ s => leaving s.evicted.toList
  | .handOut (some id) => [(id, .handedOut)]
  | .release id true => [(id, .freed)]
  | _ => []

/-- The moves that an operation makes, told by its arguments, its answer and the pool it finds. -/
inductive OpMoves (p : Pool σ) : Op → Outcome → List (FrameId × Move) → Prop
  | allocate {id : Option FrameId} {gone : List FrameId} : (gone ≠ [] → p.free.toList = []) →
      OpMoves p .allocate (.allocated id) (leaving gone ++ id.toList.map (·, .handedOut))
  | access {id : FrameId} : OpMoves p (.access id) .done []
  | release {id : FrameId} :
      OpMoves p (.release id) .done (if p.lru.contains id then [(id, .freed)] else [])
  | reclaim {budget : Nat} {s : Scan} :
      OpMoves p (.reclaim budget) (.scanned s) (leaving s.evicted.toList)
  | direct {budget count : Nat} {gone : List FrameId} : gone.length = count →
      OpMoves p (.direct budget) (.reclaimed count) (leaving gone)
  | proactive {count : Nat} {gone : List FrameId} : gone.length = count →
      OpMoves p .proactive (.reclaimed count) (leaving gone)
  | background {budget : Nat} {s : Scan} :
      OpMoves p (.background budget) (.scanned s) (leaving s.evicted.toList)

inductive RunMoves [Pacer σ] : Pool σ → List Op → List Outcome → List (FrameId × Move) → Prop
  | nil {p : Pool σ} : RunMoves p [] [] []
  | cons {p q : Pool σ} {op : Op} {ops : List Op} {out : Outcome} {outs : List Outcome}
      {ms ms' : List (FrameId × Move)} : p.step op = .ok (out, q) → OpMoves p op out ms →
      RunMoves q ops outs ms' → RunMoves p (op :: ops) (out :: outs) (ms ++ ms')

structure Balanced [Pacer σ] (p : Pool σ) : Prop where
  alternates : ∀ id, Alternates (lifeOf id p.moves)
  resident_iff : ∀ id, p.lru.contains id = true ↔ (lifeOf id p.moves).getLast? = some .handedOut
  evicted_eq : total .evicted p.moves = p.stats.counters.evicted
  handedOut_eq : total .handedOut p.moves =
    total .freed p.moves + p.stats.counters.evicted + p.stats.resident
  resident_add_free : p.stats.resident + p.stats.free = p.stats.capacity
  scanned_eq : p.stats.counters.scanned = p.stats.counters.evicted + p.stats.counters.promoted

structure MovesBetween (p q : Pool σ) (ms : List (FrameId × Move)) : Prop where
  moves_eq : q.moves = p.moves ++ ms
  leads : ∀ id, Leads (p.lru.contains id) (lifeOf id ms) (q.lru.contains id)
  balance : p.lru.resident + total .handedOut ms = q.lru.resident + total .freed ms + total .evicted ms
  evicted_eq : q.lru.counters.evicted = p.lru.counters.evicted + total .evicted ms
  scanned_eq : p.lru.counters.scanned = p.lru.counters.evicted + p.lru.counters.promoted →
    q.lru.counters.scanned = q.lru.counters.evicted + q.lru.counters.promoted

variable {p q r : Pool σ} {ms ms' : List (FrameId × Move)}

lemma MovesBetween.refl (p : Pool σ) : MovesBetween p p [] :=
  ⟨(List.append_nil _).symm, fun _ => .nil, rfl, rfl, id⟩

lemma MovesBetween.trans (h : MovesBetween p q ms) (h' : MovesBetween q r ms') :
    MovesBetween p r (ms ++ ms') where
  moves_eq := by rw [h'.moves_eq, h.moves_eq, List.append_assoc]
  leads id := by
    rw [lifeOf_append]
    exact (h.leads id).append (h'.leads id)
  balance := by
    have hb := h.balance
    have hb' := h'.balance
    simp only [total_append]
    omega
  evicted_eq := by rw [h'.evicted_eq, h.evicted_eq, total_append, Nat.add_assoc]
  scanned_eq hs := h'.scanned_eq (h.scanned_eq hs)

lemma MovesBetween.of_counters_eq (hm : q.moves = p.moves ++ ms)
    (hl : ∀ id, Leads (p.lru.contains id) (lifeOf id ms) (q.lru.contains id))
    (hb : p.lru.resident + total .handedOut ms = q.lru.resident + total .freed ms)
    (he : total .evicted ms = 0) (hc : q.lru.counters = p.lru.counters) : MovesBetween p q ms := by
  refine ⟨hm, hl, ?_, ?_, ?_⟩
  · rw [hb, he, Nat.add_zero]
  · rw [hc, he, Nat.add_zero]
  · rw [hc]
    exact id

lemma OpMoves.total_handedOut {op : Op} {out : Outcome} (ht : OpMoves p op out ms) :
    total .handedOut ms = out.frame?.toList.length := by
  cases ht with
  | @allocate id gone =>
    rw [total_append, total_leaving]
    cases id <;> rfl
  | release =>
    split_ifs <;> rfl
  | access => rfl
  | reclaim | direct | proactive | background => exact total_leaving ..

lemma moves_push (e : Event) (hj : q.journal = p.journal.push e) : q.moves = p.moves ++ e.moves := by
  simp [moves, hj]

variable [Pacer σ]

lemma moves_swept (p : Pool σ) (budget : Nat) (trigger : Trigger) (s : Scan) (l : Lru) :
    (p.swept budget trigger s l).moves = p.moves ++ leaving s.evicted.toList := by
  have hnotes : (s.events l.sizes).flatMap Event.moves = [] := by
    rw [Scan.events]
    split_ifs <;> rfl
  have hreports : ∀ rs : List Report, (rs.map Event.reported).flatMap Event.moves = [] := by
    intro rs
    simp [Event.moves]
  obtain ⟨inUse, hj⟩ := @swept_journal _ _ p budget trigger s l
  simp [moves, hj, hnotes, hreports, Event.moves]

lemma Whole.movesBetween_swept (h : p.Whole) {budget : Nat} {s : Scan} {l : Lru}
    (hs : p.lru.scan budget = .ok (s, l)) (trigger : Trigger) :
    MovesBetween p (p.swept budget trigger s l) (leaving s.evicted.toList) := by
  obtain ⟨s', l', hs', hl, _, hp, _⟩ := h.lru.scan budget
  obtain ⟨rfl, rfl⟩ := Prod.mk.inj (Except.ok.inj (hs'.symm.trans hs))
  have hct := h.lru.scan_counted hs
  have hlen : s'.evicted.size + l'.resident = p.lru.resident := by
    simpa [← hl.resident_eq, ← h.lru.resident_eq] using hp.length_eq
  refine ⟨moves_swept p budget trigger s' l', ?_, ?_, ?_, ?_⟩
  · rw [swept_lru]
    exact leads_of_leaving h.lru.toCoherent hl.toCoherent hp
  · simp [← hlen, Nat.add_comm]
  · simp [hct.evicted_eq]
  · intro hsum
    rw [swept_lru, hct.scanned_eq, hct.evicted_eq, hct.promoted_eq, hct.examined_eq, hsum]
    omega

lemma Acts.movesBetween {d : Deed} (h : p.Whole) (ha : Acts p d q) : MovesBetween p q d.moves := by
  cases ha.does with
  | pass hs => exact h.movesBetween_swept hs _
  | @handOut id free l hf hno had =>
    refine .of_counters_eq (moves_push (.allocated id) rfl) ?_ ?_ (by simp [Deed.moves]) had.moved.counters_eq
    · intro k
      simp only [Deed.moves, lifeOf_single, had.contains_eq]
      split_ifs with hk
      · subst hk
        simpa [hno] using Leads.arrive .nil
      · simpa [Ne.symm hk] using Leads.nil
    · simp [Deed.moves, had.resident_eq hno]
  | exhausted =>
    exact .of_counters_eq (moves_push (.exhausted _) rfl) (fun _ => .nil) rfl rfl rfl
  | @touch id hid ht =>
    refine .of_counters_eq (List.append_nil _).symm ?_ ht.resident_eq.symm rfl
      (p.lru.counters_touch id)
    intro k
    rw [ht.contains_eq]
    exact .nil
  | @refault id =>
    exact .of_counters_eq (moves_push (.refaulted id) rfl) (fun _ => .nil) rfl rfl rfl
  | overlook => exact .refl p
  | @release id l hid hrm =>
    refine .of_counters_eq (moves_push (.freed id) rfl) ?_ ?_ (by simp [Deed.moves]) hrm.moved.counters_eq
    · intro k
      simp only [Deed.moves, lifeOf_single, hrm.contains_eq]
      split_ifs with hk
      · subst hk
        simpa [hid] using Leads.depart rfl .nil
      · simpa [Ne.symm hk] using Leads.nil
    · simp [Deed.moves, ← hrm.resident_eq h.lru.toCoherent hid]
  | @ignore id =>
    exact .of_counters_eq (moves_push (.freeIgnored id) rfl) (fun _ => .nil) rfl rfl rfl

lemma DeedTrace.movesBetween {ds : List Deed} (hc : DeedTrace p ds q) (h : p.Whole) :
    MovesBetween p q (ds.flatMap Deed.moves) := by
  induction hc with
  | nil => exact .refl _
  | cons hd _ ih =>
    rw [List.flatMap_cons]
    exact (hd.movesBetween h).trans (ih hd.whole)

lemma flatMap_moves_passes (budget : Nat) (trigger : Trigger) (scans : List Scan) :
    (scans.map (.pass budget trigger)).flatMap Deed.moves =
      leaving (scans.flatMap (·.evicted.toList)) := by
  rw [List.flatMap_map, leaving, List.map_flatMap]
  rfl

lemma OpDeeds.opMoves {op : Op} {out : Outcome} {ds : List Deed} (hc : OpDeeds p op out ds) :
    OpMoves p op out (ds.flatMap Deed.moves) := by
  cases hc with
  | @allocate id scans hf =>
    have hgone : scans.flatMap (·.evicted.toList) ≠ [] → p.free.toList = [] := by
      intro hne
      refine hf fun hnil => hne ?_
      rw [hnil, List.flatMap_nil]
    rw [List.flatMap_append, flatMap_moves_passes, List.flatMap_singleton]
    cases id with
    | none => exact .allocate hgone
    | some id => exact .allocate hgone
  | access => exact .access
  | @release id =>
    have hm : (Deed.release id (p.lru.contains id)).moves =
        if p.lru.contains id then [(id, .freed)] else [] := by cases p.lru.contains id <;> rfl
    rw [List.flatMap_singleton, hm]
    exact .release
  | reclaim =>
    rw [List.flatMap_singleton]
    exact .reclaim
  | direct =>
    rw [flatMap_moves_passes]
    exact .direct (by simp [List.length_flatMap])
  | proactive =>
    rw [List.flatMap_singleton]
    exact .proactive (Array.length_toList ..)
  | background =>
    rw [List.flatMap_singleton]
    exact .background

lemma Whole.runMoves (h : p.Whole) (ops : List Op) :
    ∃ outs q ms, Pool.run ops p = .ok (outs, q) ∧ q.Whole ∧ RunMoves p ops outs ms ∧
      MovesBetween p q ms := by
  induction ops generalizing p with
  | nil => exact ⟨[], p, [], rfl, h, .nil, .refl p⟩
  | cons op ops ih =>
    obtain ⟨out, q, hq, hw, _⟩ := h.step op
    obtain ⟨ds, hcs, hc⟩ := h.trace_step hq
    obtain ⟨outs, r, ms, hr, hw', ht, hbetween⟩ := ih hw
    exact ⟨out :: outs, r, _, by simp [Pool.run, hq, hr], hw', .cons hq hcs.opMoves ht,
      (hc.movesBetween h).trans hbetween⟩

lemma RunMoves.total_handedOut {ops : List Op} {outs : List Outcome} (ht : RunMoves p ops outs ms) :
    total .handedOut ms = (outs.filterMap Outcome.frame?).length := by
  induction ht with
  | nil => rfl
  | @cons p q op ops out outs ms ms' _ hop _ ih =>
    rw [total_append, hop.total_handedOut, ih]
    cases hf : out.frame? <;> simp [hf, Nat.add_comm]

theorem stays_begin_and_end_once {c : Config} {pacer : σ} {start : Pool σ}
    (hc : create c pacer = .ok start) (hn : c.capacity.toNat < Arena.slotLimit) (ops : List Op) :
    ∃ outs p, run ops start = .ok (outs, p) ∧ RunMoves start ops outs p.moves ∧ p.Balanced ∧
      total .handedOut p.moves = (outs.filterMap Outcome.frame?).length := by
  obtain ⟨_, hgen, window, rfl⟩ := create_eq_fresh hc
  have hw : (fresh c pacer window).Whole := fresh_whole hgen hn
  obtain ⟨outs, p, ms, hr, hp, ht, hbetween⟩ := hw.runMoves ops
  have hms : p.moves = ms := hbetween.moves_eq
  have hl : ∀ id, Leads false (lifeOf id p.moves) (p.lru.contains id) := by
    rw [hms]
    exact hbetween.leads
  have hev : p.lru.counters.evicted = total .evicted p.moves := by
    rw [hms]
    exact hbetween.evicted_eq.trans (Nat.zero_add _)
  have hbal : total .handedOut p.moves =
      p.lru.resident + total .freed p.moves + total .evicted p.moves := by
    rw [hms]
    exact (Nat.zero_add _).symm.trans hbetween.balance
  refine ⟨outs, p, hr, hms ▸ ht, ?_, hms ▸ ht.total_handedOut⟩
  refine ⟨fun id => (hl id).alternates, fun id => (hl id).resident_iff, hev.symm, ?_, ?_, ?_⟩
  · change _ = _ + p.lru.counters.evicted + p.lru.resident
    omega
  · exact (Nat.add_comm _ _).trans hp.size_add_resident
  · exact hbetween.scanned_eq rfl

end Lives

theorem stays_of_two_frames :
    ∃ start, create { capacity := 2, generations := 2, trackerWords := 1 } (Steady.ofNat 1) = .ok start ∧
      let ops : List Op := [.allocate, .allocate, .release 0, .release 0, .allocate, .allocate,
        .access 0, .background 1, .allocate, .release 1, .proactive, .direct 3]
      ∃ outs p, run ops start = .ok (outs, p) ∧ RunMoves start ops outs p.moves ∧ p.Balanced := by
  have hc : ∃ start, create { capacity := 2, generations := 2, trackerWords := 1 } (Steady.ofNat 1) =
      .ok start := ⟨_, rfl⟩
  obtain ⟨start, hc⟩ := hc
  obtain ⟨outs, p, hr, ht, hb, _⟩ := stays_begin_and_end_once hc (by decide)
    [.allocate, .allocate, .release 0, .release 0, .allocate, .allocate, .access 0, .background 1,
      .allocate, .release 1, .proactive, .direct 3]
  exact ⟨start, hc, outs, p, hr, ht, hb⟩

end Pool

end FramePool
