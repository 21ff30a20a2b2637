import FramePool.Proofs.Pool.Lives

/-! A frame is remembered from its eviction until it is handed out or accessed, unless too many frames
are evicted in between. Each refault belongs to an eviction of its own. -/

namespace FramePool

inductive Sign where
  | moved (m : Move)
  | accessed (refault : Bool)
deriving DecidableEq

def signsOf (id : FrameId) (hs : List (FrameId × Sign)) : List Sign :=
  (hs.filter (·.1 = id)).map Prod.snd

def EvictedLast (id : FrameId) (hs : List (FrameId × Sign)) : Prop :=
  (signsOf id hs).getLast? = some (.moved .evicted)

instance (id : FrameId) (hs : List (FrameId × Sign)) : Decidable (EvictedLast id hs) :=
  inferInstanceAs (Decidable (_ = _))

def noted (s : Sign) (hs : List (FrameId × Sign)) : Nat := hs.countP (·.2 = s)

/-- A release needs no change: the frames that are released are resident. -/
def recollectStep (window : Nat) (ids : List FrameId) : FrameId × Sign → List FrameId
  | (id, .moved .evicted) => (id :: ids.erase id).take window
  | (_, .moved .freed) => ids
  | (id, _) => ids.erase id

def recollection (window : Nat) (hs : List (FrameId × Sign)) : List FrameId :=
  hs.foldl (recollectStep window) []

variable {window : Nat} {g g' : GhostList} {hs : List (FrameId × Sign)} {id : FrameId} {s : Sign}

lemma signsOf_push (id k : FrameId) (s : Sign) (hs : List (FrameId × Sign)) :
    signsOf id (hs ++ [(k, s)]) = signsOf id hs ++ if k = id then [s] else [] := by
  by_cases hk : k = id <;> simp [signsOf, hk]

lemma evictedLast_push (id k : FrameId) (s : Sign) (hs : List (FrameId × Sign)) :
    EvictedLast id (hs ++ [(k, s)]) ↔ if k = id then s = .moved .evicted else EvictedLast id hs := by
  rw [EvictedLast, signsOf_push]
  split_ifs
  · simp
  · simp [EvictedLast]

lemma noted_append (s : Sign) (hs hs' : List (FrameId × Sign)) :
    noted s (hs ++ hs') = noted s hs + noted s hs' := List.countP_append

@[simp] lemma noted_single (s s' : Sign) (id : FrameId) :
    noted s [(id, s')] = if s' = s then 1 else 0 := by
  simp [noted, List.countP_cons]

@[simp] lemma noted_map (s s' : Sign) (ids : List FrameId) :
    noted s (ids.map (·, s')) = if s' = s then ids.length else 0 := by
  induction ids with
  | nil => simp [noted]
  | cons id ids ih =>
    rw [List.map_cons, ← List.singleton_append, noted_append, ih, noted_single]
    split_ifs <;> simp [Nat.add_comm]

lemma recollection_push (window : Nat) (hs : List (FrameId × Sign)) (h : FrameId × Sign) :
    recollection window (hs ++ [h]) = recollectStep window (recollection window hs) h := by
  simp [recollection]

lemma mem_of_recollection_push {k : FrameId} (hs' : s ≠ .moved .evicted)
    (h : k ∈ recollection window (hs ++ [(id, s)])) : k ∈ recollection window hs := by
  rw [recollection_push] at h
  rcases s with (_ | _ | _) | _
  · exact List.mem_of_mem_erase h
  · exact h
  · exact absurd rfl hs'
  · exact List.mem_of_mem_erase h

structure Mindful (window : Nat) (g : GhostList) (hs : List (FrameId × Sign)) : Prop where
  remembers : g.Remembers window (recollection window hs)
  evicted_last : ∀ id ∈ recollection window hs, EvictedLast id hs
  refault_last : ∀ before id after, hs = before ++ (id, .accessed true) :: after → EvictedLast id before
  balance : noted (.accessed true) hs + (recollection window hs).length ≤ noted (.moved .evicted) hs

namespace Mindful

lemma nil (window : Nat) : Mindful window (GhostList.empty window) [] := by
  refine ⟨.empty window, ?_, ?_, Nat.le_refl _⟩
  · simp [recollection]
  · simp

lemma nodup (h : Mindful window g hs) : (recollection window hs).Nodup := h.remembers.recalls.nodup

lemma push (h : Mindful window g hs) (hg : g'.Remembers window (recollection window (hs ++ [(id, s)])))
    (hm : ∀ k ∈ recollection window (hs ++ [(id, s)]),
      if k = id then s = .moved .evicted else k ∈ recollection window hs)
    (hr : s = .accessed true → EvictedLast id hs)
    (hb : noted (.accessed true) [(id, s)] + (recollection window (hs ++ [(id, s)])).length ≤
      (recollection window hs).length + noted (.moved .evicted) [(id, s)]) :
    Mindful window g' (hs ++ [(id, s)]) := by
  refine ⟨hg, fun k hk => ?_, fun before k after he => ?_, ?_⟩
  · have hk' := hm k hk
    rw [evictedLast_push]
    split_ifs at hk' with hki
    · rwa [if_pos hki.symm]
    · rw [if_neg (Ne.symm hki)]
      exact h.evicted_last k hk'
  · rcases List.eq_nil_or_concat after with rfl | ⟨after, last, rfl⟩
    · obtain ⟨rfl, he⟩ := List.append_inj' he rfl
      obtain ⟨rfl, rfl⟩ : id = k ∧ s = .accessed true := by simpa using he
      exact hr rfl
    · rw [List.concat_eq_append, ← List.cons_append, ← List.append_assoc] at he
      exact h.refault_last before k after (List.append_inj' he rfl).1
  · have := h.balance
    rw [noted_append, noted_append]
    omega

lemma push_evicted (h : Mindful window g hs) (id : FrameId) :
    Mindful window (g.record id) (hs ++ [(id, .moved .evicted)]) := by
  have he : recollection window (hs ++ [(id, .moved .evicted)]) =
      (id :: (recollection window hs).erase id).take window := recollection_push ..
  refine h.push (he ▸ h.remembers.record id) (fun k hk => ?_) (by simp) ?_
  · rw [he] at hk
    split_ifs with hki
    · rfl
    · exact List.mem_of_mem_erase ((List.mem_cons.mp (List.mem_of_mem_take hk)).resolve_left hki)
  · have hl : ((recollection window hs).erase id).length ≤ (recollection window hs).length :=
      List.length_erase_le
    rw [he, List.length_take, List.length_cons]
    simp
    omega

lemma push_forgotten (h : Mindful window g hs) (hs' : s = .moved .handedOut ∨ s = .accessed true)
    (hid : s = .accessed true → id ∈ recollection window hs) :
    Mindful window (g.forget id).2 (hs ++ [(id, s)]) := by
  have he : recollection window (hs ++ [(id, s)]) = (recollection window hs).erase id := by
    rw [recollection_push]
    rcases hs' with rfl | rfl <;> rfl
  refine h.push (he ▸ (h.remembers.forget id).2) (fun k hk => ?_) (fun ha => ?_) ?_
  · rw [he, h.nodup.mem_erase_iff] at hk
    rw [if_neg hk.1]
    exact hk.2
  · exact h.evicted_last id (hid ha)
  · rw [he]
    rcases hs' with rfl | rfl
    · simpa using List.length_erase_le
    · have hlen := List.length_erase_add_one (hid rfl)
      simp
      omega

lemma push_unknown (h : Mindful window g hs) (hid : id ∉ recollection window hs)
    (hs' : s ≠ .moved .evicted) (ha : s ≠ .accessed true) : Mindful window g (hs ++ [(id, s)]) := by
  have he : recollection window (hs ++ [(id, s)]) = recollection window hs := by
    rw [recollection_push]
    rcases s with (_ | _ | _) | _
    · exact List.erase_of_not_mem hid
    · rfl
    · exact absurd rfl hs'
    · exact List.erase_of_not_mem hid
  refine h.push (he ▸ h.remembers) (fun k hk => ?_) (fun h => absurd h ha) ?_
  · rw [he] at hk
    rw [if_neg (ne_of_mem_of_not_mem hk hid)]
    exact hk
  · simp [he, ha]

lemma push_all (h : Mindful window g hs) (ids : List FrameId) :
    Mindful window (ids.foldl GhostList.record g) (hs ++ ids.map (·, .moved .evicted)) := by
  induction ids generalizing g hs with
  | nil => simpa using h
  | cons id ids ih => simpa using ih (h.push_evicted id)

end Mindful

lemma mem_recollection_evicted {ids : List FrameId}
    (h : id ∈ recollection window (hs ++ ids.map (·, .moved .evicted))) :
    id ∈ recollection window hs ∨ id ∈ ids := by
  induction ids generalizing hs with
  | nil => exact Or.inl (by simpa using h)
  | cons k ids ih =>
    rw [List.map_cons, List.append_cons] at h
    rcases ih h with h | h
    · rw [recollection_push] at h
      rcases List.mem_cons.mp (List.mem_of_mem_take h) with rfl | h
      · exact Or.inr List.mem_cons_self
      · exact Or.inl (List.mem_of_mem_erase h)
    · exact Or.inr (List.mem_cons_of_mem k h)

lemma count_refaults_le (id : FrameId) (h : ∀ before after,
    hs = before ++ (id, .accessed true) :: after → EvictedLast id before) :
    hs.count (id, .accessed true) + (if EvictedLast id hs then 1 else 0) ≤
      hs.count (id, .moved .evicted) := by
  induction hs using List.reverseRecOn with
  | nil => simp [EvictedLast, signsOf]
  | append_singleton hs last ih =>
    obtain ⟨k, s⟩ := last
    have hrest := ih fun before after he => h before (after ++ [(k, s)]) (by simp [he])
    have hlast : k = id → s = .accessed true → EvictedLast id hs := by
      rintro rfl rfl
      exact h hs [] rfl
    simp only [List.count_append, List.count_singleton, evictedLast_push]
    by_cases hk : k = id
    · subst hk
      have hle : hs.count (k, .accessed true) ≤ hs.count (k, .moved .evicted) := by omega
      rcases s with (_ | _ | _) | _ | _
      · simpa using hle
      · simpa using hle
      · simpa using hle
      · simpa using hle
      · rw [if_pos (hlast rfl rfl)] at hrest
        simpa using hrest
    · simpa [hk] using hrest

lemma mem_take_erase {ids : List FrameId} {k : FrameId} {n : Nat} (h : id ∈ ids.take n) (hne : id ≠ k) :
    id ∈ (ids.erase k).take n := by
  induction ids generalizing n with
  | nil => simp at h
  | cons i ids ih =>
    cases n with
    | zero => simp at h
    | succ n =>
      rw [List.take_succ_cons, List.mem_cons] at h
      by_cases hik : i = k
      · rw [hik, List.erase_cons_head]
        exact List.take_subset_take_left ids (Nat.le_succ n) (h.resolve_left (hik ▸ hne))
      · rw [List.erase_cons_tail (by simpa using hik), List.take_succ_cons, List.mem_cons]
        exact h.imp_right ih

lemma mem_foldl_recollectStep {ids : List FrameId} {k : Nat} (h : id ∈ ids.take (k + 1))
    (hno : ∀ s, (id, s) ∈ hs → s = .moved .freed) (hk : k + noted (.moved .evicted) hs < window) :
    id ∈ hs.foldl (recollectStep window) ids := by
  induction hs generalizing ids k with
  | nil => exact List.mem_of_mem_take h
  | cons head hs ih =>
    obtain ⟨i, s⟩ := head
    have hno' : ∀ s, (id, s) ∈ hs → s = .moved .freed := fun s hm => hno s (List.mem_cons_of_mem _ hm)
    rw [← List.singleton_append, noted_append, noted_single] at hk
    rw [List.foldl_cons]
    have hne : s ≠ .moved .freed → id ≠ i := by
      rintro hs' rfl
      exact hs' (hno s List.mem_cons_self)
    rcases s with (_ | _ | _) | b
    · exact ih (mem_take_erase h (hne (by simp))) hno' (by simpa using hk)
    · exact ih h hno' (by simpa using hk)
    · refine ih (k := k + 1) ?_ hno' (by simp at hk; omega)
      simp only [if_true] at hk
      rw [recollectStep, List.take_take, Nat.min_eq_left (by omega), List.take_succ_cons]
      exact List.mem_cons_of_mem i (mem_take_erase h (hne (by simp)))
    · exact ih (mem_take_erase h (hne (by simp))) hno' (by simpa using hk)

lemma mem_recollection_of_recent {before after : List (FrameId × Sign)}
    (hno : ∀ s, (id, s) ∈ after → s = .moved .freed) (hn : noted (.moved .evicted) after < window) :
    id ∈ recollection window (before ++ (id, .moved .evicted) :: after) := by
  rw [List.append_cons, recollection, List.foldl_append]
  refine mem_foldl_recollectStep (k := 0) ?_ hno (by omega)
  change id ∈ (recollection window (before ++ [(id, .moved .evicted)])).take 1
  rw [recollection_push, recollectStep, List.take_take, Nat.min_eq_left (by omega)]
  simp

namespace Pool

section Refaults

variable {σ : Type}

def signs (p : Pool σ) : Deed → List (FrameId × Sign)
  | .access id => [(id, .accessed (decide (p.tally.refaults < (p.access id).tally.refaults)))]
  | d => d.moves.map fun m => (m.1, .moved m.2)

structure Keeps (window : Nat) (p : Pool σ) (hs : List (FrameId × Sign)) : Prop where
  mindful : Mindful window p.ghosts hs
  free : ∀ id ∈ recollection window hs, id ∈ p.free.toList
  refaults_eq : p.tally.refaults = noted (.accessed true) hs
  evicted_eq : p.lru.counters.evicted = noted (.moved .evicted) hs

variable [Pacer σ] {p q r : Pool σ} {d : Deed} {ds : List Deed}

inductive DeedSigns : Pool σ → List Deed → List (FrameId × Sign) → Pool σ → Prop
  | nil {p : Pool σ} : DeedSigns p [] [] p
  | cons {p q r : Pool σ} {d : Deed} {ds : List Deed} {hs : List (FrameId × Sign)} : Acts p d q →
      DeedSigns q ds hs r → DeedSigns p (d :: ds) (p.signs d ++ hs) r

lemma DeedTrace.deedSigns (hc : DeedTrace p ds q) : ∃ hs, DeedSigns p ds hs q := by
  induction hc with
  | nil => exact ⟨[], .nil⟩
  | cons ha _ ih =>
    obtain ⟨hs, h⟩ := ih
    exact ⟨_, .cons ha h⟩

omit [Pacer σ] in
lemma Keeps.not_recollected (h : Keeps window p hs) (hw : p.Whole) (hid : p.lru.contains id = true) :
    id ∉ recollection window hs := by
  intro hm
  rw [hw.not_resident (h.free id hm)] at hid
  cases hid

omit [Pacer σ] in
lemma Keeps.push (h : Keeps window p hs) (hm : Mindful window q.ghosts (hs ++ [(id, s)]))
    (hs' : s ≠ .moved .evicted) (hf : ∀ k ∈ p.free.toList, k ≠ id → k ∈ q.free.toList)
    (hr : q.tally.refaults = p.tally.refaults + if s = .accessed true then 1 else 0)
    (he : q.lru.counters.evicted = p.lru.counters.evicted) : Keeps window q (hs ++ [(id, s)]) := by
  refine ⟨hm, fun k hk => hf k (h.free k (mem_of_recollection_push hs' hk)) ?_, ?_, ?_⟩
  · rintro rfl
    have hlast := hm.evicted_last k hk
    rw [evictedLast_push, if_pos rfl] at hlast
    exact hs' hlast
  · rw [hr, noted_append, noted_single, h.refaults_eq]
  · rw [he, noted_append, noted_single, if_neg hs', h.evicted_eq]
    rfl

lemma Keeps.step (h : Keeps window p hs) (hw : p.Whole) (ha : Acts p d q) :
    Keeps window q (hs ++ p.signs d) := by
  have hev := (ha.movesBetween hw).evicted_eq
  cases ha.does with
  | @pass budget trigger s l hs' =>
    have hsigns : p.signs (.pass budget trigger s) = s.evicted.toList.map (·, .moved .evicted) := by
      simp [signs, Deed.moves, leaving]
    rw [hsigns]
    refine ⟨?_, fun id hid => ?_, ?_, ?_⟩
    · rw [swept_ghosts]
      exact h.mindful.push_all _
    · rw [toList_free_swept, List.mem_append]
      exact (mem_recollection_evicted hid).imp_left (h.free id)
    · rw [swept_tally, noted_append, ← h.refaults_eq]
      cases trigger <;> simp [Tally.countPass]
    · rw [hev, noted_append, h.evicted_eq]
      simp [Deed.moves]
  | @handOut id free l hf hno had =>
    refine h.push (h.mindful.push_forgotten (.inl rfl) (by simp)) (by simp) ?_ (by simp) hev
    intro k hk hne
    rw [hf] at hk
    exact (List.mem_cons.mp hk).resolve_left hne
  | @touch id hid ht =>
    have hsigns : p.signs (.access id) = [(id, .accessed false)] := by
      simp [signs, Pool.access, hid]
    rw [hsigns]
    exact h.push (h.mindful.push_unknown (h.not_recollected hw hid) (by simp) (by simp)) (by simp)
      (fun _ hk _ => hk) (by simp) hev
  | @refault id hid hg =>
    have hsigns : p.signs (.access id) = [(id, .accessed true)] := by
      simp [signs, Pool.access, hid, hg]
    have hin := (h.mindful.remembers.contains_iff id).mp hg
    rw [hsigns]
    exact h.push (h.mindful.push_forgotten (.inr rfl) fun _ => hin) (by simp) (fun _ hk _ => hk)
      (by simp) hev
  | @overlook id hid hg =>
    have hsigns : p.signs (.access id) = [(id, .accessed false)] := by
      simp [signs, Pool.access, hid, hg]
    have hno : id ∉ recollection window hs := by
      rw [← h.mindful.remembers.contains_iff, hg]
      exact Bool.false_ne_true
    rw [hsigns]
    exact h.push (h.mindful.push_unknown hno (by simp) (by simp)) (by simp) (fun _ hk _ => hk)
      (by simp) hev
  | @release id l hid hrm =>
    have hno := h.not_recollected hw hid
    exact h.push (h.mindful.push_unknown hno (by simp) (by simp)) (by simp)
      (fun k hk _ => by simp [hk]) (by simp) hev
  | exhausted | ignore =>
    simpa [signs, Deed.moves] using ⟨h.mindful, h.free, h.refaults_eq, h.evicted_eq⟩

lemma DeedSigns.keeps {hs' : List (FrameId × Sign)} (ha : DeedSigns p ds hs' q) (hw : p.Whole)
    (h : Keeps window p hs) : Keeps window q (hs ++ hs') := by
  induction ha generalizing hs with
  | nil => simpa using h
  | cons hd _ ih =>
    rw [← List.append_assoc]
    exact ih hd.whole (h.step hw hd)

omit [Pacer σ] in
lemma keeps_fresh (c : Config) (pacer : σ) : Keeps c.window (fresh c pacer c.window) [] :=
  ⟨.nil c.window, by simp [recollection], rfl, rfl⟩

structure Genuine (window : Nat) (p : Pool σ) (hs : List (FrameId × Sign)) : Prop where
  remembered : ∀ id, p.ghosts.contains id = true → p.lru.contains id = false ∧ id ∈ p.free.toList
  only_if : ∀ id, p.tally.refaults < (p.access id).tally.refaults →
    p.lru.contains id = false ∧ EvictedLast id hs
  each : ∀ before id after, hs = before ++ (id, .accessed true) :: after → EvictedLast id before
  once : ∀ id, hs.count (id, .accessed true) ≤ hs.count (id, .moved .evicted)
  refaults_eq : p.stats.refaults = noted (.accessed true) hs
  refaults_le : p.stats.refaults ≤ p.stats.counters.evicted
  if_recent : ∀ before id after, hs = before ++ (id, .moved .evicted) :: after →
    (id, .moved .evicted) ∉ after → (id, .moved .handedOut) ∉ after →
    (∀ refault, (id, .accessed refault) ∉ after) → noted (.moved .evicted) after < window →
    (p.access id).tally.refaults = p.tally.refaults + 1

lemma Keeps.genuine (h : Keeps window p hs) (hw : p.Whole) : Genuine window p hs := by
  have hrem : ∀ id, p.ghosts.contains id = true ↔ id ∈ recollection window hs :=
    h.mindful.remembers.contains_iff
  have hfree : ∀ id, p.ghosts.contains id = true → p.lru.contains id = false ∧ id ∈ p.free.toList := by
    intro id hid
    have hf := h.free id ((hrem id).mp hid)
    exact ⟨hw.not_resident hf, hf⟩
  refine ⟨hfree, fun id hlt => ?_, h.mindful.refault_last, fun id => ?_, h.refaults_eq, ?_, ?_⟩
  · rw [Pool.access] at hlt
    split_ifs at hlt with hid hg
    · exact absurd hlt (Nat.lt_irrefl _)
    · exact ⟨Bool.eq_false_iff.mpr hid, h.mindful.evicted_last id ((hrem id).mp hg)⟩
    · exact absurd hlt (Nat.lt_irrefl _)
  · have hle := count_refaults_le id fun before after => h.mindful.refault_last before id after
    omega
  · have hb := h.mindful.balance
    change p.tally.refaults ≤ p.lru.counters.evicted
    rw [h.refaults_eq, h.evicted_eq]
    omega
  · rintro before id after rfl hev hho hac hn
    have hno : ∀ s, (id, s) ∈ after → s = .moved .freed := by
      rintro ((_ | _ | _) | b) hm
      · exact absurd hm hho
      · rfl
      · exact absurd hm hev
      · exact absurd hm (hac b)
    have hg := (hrem id).mpr (mem_recollection_of_recent hno hn)
    simp [Pool.access, (hfree id hg).1, hg]

theorem refaults_are_genuine {c : Config} {pacer : σ} {start : Pool σ}
    (hc : create c pacer = .ok start) (hn : c.capacity.toNat < Arena.slotLimit) (ops : List Op) :
    ∃ outs ds hs p, run ops start = .ok (outs, p) ∧ RunDeeds start ops outs ds p ∧
      DeedSigns start ds hs p ∧ Genuine c.window p hs := by
  obtain ⟨_, hgen, rfl⟩ := create_eq_fresh_window hc
  have hw : (fresh c pacer c.window).Whole := fresh_whole hgen hn
  obtain ⟨outs, ds, p, hr, hds⟩ := hw.runDeeds ops
  obtain ⟨hs, ha⟩ := hds.trace.deedSigns
  have hk := ha.keeps hw (keeps_fresh c pacer)
  exact ⟨outs, ds, hs, p, hr, hds, ha, hk.genuine (hds.trace.whole hw).1⟩

end Refaults

theorem refaults_of_two_frames :
    ∃ start, create { capacity := 2, generations := 1, trackerWords := 1, refaultWindow := some 1 }
        (Steady.ofNat 1) = .ok start ∧
      let ops : List Op := [.allocate, .allocate, .reclaim 1, .access 0, .access 0, .allocate,
        .reclaim 2, .access 1, .access 0]
      ∃ outs ds hs p, run ops start = .ok (outs, p) ∧ RunDeeds start ops outs ds p ∧
        DeedSigns start ds hs p ∧ Genuine 1 p hs ∧ p.tally.refaults = 2 := by
  have hc : ∃ start,
      create { capacity := 2, generations := 1, trackerWords := 1, refaultWindow := some 1 }
        (Steady.ofNat 1) = .ok start ∧
      (run [.allocate, .allocate, .reclaim 1, .access 0, .access 0, .allocate, .reclaim 2, .access 1,
        .access 0] start).toOption.map (fun r => r.2.tally.refaults) = some 2 :=
    ⟨_, rfl, by decide +kernel⟩
  obtain ⟨start, hc, htwo⟩ := hc
  obtain ⟨outs, ds, hs, p, hr, hds, ha, hg⟩ := @refaults_are_genuine _ _ _ _ _ hc (by decide)
    [.allocate, .allocate, .reclaim 1, .access 0, .access 0, .allocate, .reclaim 2, .access 1, .access 0]
  have hp : p.tally.refaults = 2 := by simpa [hr, Except.toOption] using htwo
  exact ⟨start, hc, outs, ds, hs, p, hr, hds, ha, hg, hp⟩

end Pool

end FramePool
