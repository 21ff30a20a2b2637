import FramePool.Proofs.Pool.Conservation

/-! Accesses between passes count as a set. Neither their order nor repetitions make a difference, and
no frame changes its place for them. -/

namespace FramePool

namespace Lru

variable (l : Lru) (i j : FrameId)

lemma touch_of_none {l : Lru} {i : FrameId} (h : l.entry? i = none) : l.touch i = l := by
  simp only [touch, h]

lemma touch_of_some {l : Lru} {i : FrameId} {e : Entry} (h : l.entry? i = some e) :
    l.touch i = l.modifyGeneration e.generation (·.mark i) := by
  simp only [touch, h]

lemma touch_of_not_resident {l : Lru} {i : FrameId} (h : l.contains i = false) : l.touch i = l := by
  rw [contains_eq_isSome, Option.isSome_eq_false_iff, Option.isNone_iff_eq_none] at h
  exact touch_of_none h

@[simp] lemma table_touch : (l.touch i).table = l.table := by
  rw [touch]
  split <;> rfl

@[simp] lemma frames_touch :
    (l.touch i).generations.map Generation.frames = l.generations.map Generation.frames := by
  cases hi : l.entry? i with
  | none => rw [touch_of_none hi]
  | some e =>
    rw [touch_of_some hi]
    apply Array.ext_getElem?
    intro k
    simp only [modifyGeneration, Array.getElem?_map, Array.getElem?_modify]
    split_ifs
    · rw [Option.map_map]
      rfl
    · rfl

lemma entry_touch : entry? (l.touch i) j = l.entry? j := congrArg (·[j]?) (l.table_touch i)

lemma contains_touch : (l.touch i).contains j = l.contains j :=
  congrArg (·.contains j) (l.table_touch i)

lemma bitmap_touch (g : Nat) : (l.touch i).bitmap g =
    if (l.entry? i).map Entry.generation = some g then (l.bitmap g).mark i else l.bitmap g := by
  cases hi : l.entry? i with
  | none => simp [touch_of_none hi]
  | some e =>
    rw [touch_of_some hi]
    simp only [Option.map_some, Option.some.injEq, bitmap, modifyGeneration, Array.getElem?_modify]
    split_ifs
    · cases l.generations[g]? <;> rfl
    · rfl

lemma touch_comm : (l.touch i).touch j = (l.touch j).touch i := by
  have hj' : entry? (l.touch i) j = l.entry? j := l.entry_touch i j
  have hi' : entry? (l.touch j) i = l.entry? i := l.entry_touch j i
  cases hi : l.entry? i with
  | none => rw [touch_of_none hi, touch_of_none (hi'.trans hi)]
  | some e =>
    cases hj : l.entry? j with
    | none => rw [touch_of_none hj, touch_of_none (hj'.trans hj)]
    | some e' =>
      rw [touch_of_some (hj'.trans hj), touch_of_some hi, touch_of_some (hi'.trans hi), touch_of_some hj]
      simp only [modifyGeneration, Lru.mk.injEq, and_true]
      apply modify_comm
      intro gen _
      simp only [Generation.mark, Bitmap.mark_comm]

lemma touch_touch : (l.touch i).touch i = l.touch i := by
  cases hi : l.entry? i with
  | none => rw [touch_of_none hi, touch_of_none hi]
  | some e =>
    rw [touch_of_some ((l.entry_touch i i).trans hi), touch_of_some hi]
    simp only [modifyGeneration, Lru.mk.injEq, and_true]
    apply modify_modify
    intro gen
    simp only [Generation.mark, Bitmap.mark_mark]

end Lru

namespace GhostList

lemma forget_comm (g : GhostList) (i j : FrameId) :
    ((g.forget i).2.forget j).2 = ((g.forget j).2.forget i).2 := by
  simp only [forget, GhostList.mk.injEq, true_and]
  apply Std.ExtTreeMap.ext_getElem?
  intro k
  simp only [Std.ExtTreeMap.getElem?_erase]
  split_ifs <;> rfl

lemma contains_forget (g : GhostList) (i j : FrameId) :
    (g.forget i).2.contains j = (g.contains j && decide (i ≠ j)) := by
  simp only [contains, forget, Std.ExtTreeMap.contains_erase]
  by_cases hij : i = j
  · simp [hij]
  · simp [hij]

end GhostList

def Tally.countRefault (t : Tally) : Tally :=
  { t with refaults := t.refaults + 1, pendingRefaults := t.pendingRefaults + 1 }

namespace Pool

variable {σ : Type}

def isRefault (p : Pool σ) (id : FrameId) : Bool := !p.lru.contains id && p.ghosts.contains id

def refault (p : Pool σ) (id : FrameId) : Pool σ :=
  { p with
    ghosts := (p.ghosts.forget id).2
    tally := p.tally.countRefault
    journal := p.journal.push (.refaulted id) }

def accessAll (p : Pool σ) (ids : List FrameId) : Pool σ := ids.foldl access p

structure Same (p q : Pool σ) : Prop where
  settings_eq : q.settings = p.settings
  lru_eq : q.lru = p.lru
  free_eq : q.free = p.free
  pacer_eq : q.pacer = p.pacer
  ghosts_eq : q.ghosts = p.ghosts
  tally_eq : q.tally = p.tally
  journal_perm : q.journal.toList.Perm p.journal.toList

structure Undisturbed (p q : Pool σ) : Prop where
  settings_eq : q.settings = p.settings
  free_eq : q.free = p.free
  table_eq : q.lru.table = p.lru.table
  frames_eq : q.lru.generations.map Generation.frames = p.lru.generations.map Generation.frames
  counters_eq : q.lru.counters = p.lru.counters

structure Accessed (p : Pool σ) (ids : List FrameId) (q : Pool σ) : Prop where
  bitmap_eq : ∀ g, q.lru.bitmap g = (ids.filter fun id =>
    (p.lru.entry? id).map Entry.generation = some g).foldl Bitmap.mark (p.lru.bitmap g)
  remembers_iff : ∀ id, q.ghosts.contains id = true ↔
    p.ghosts.contains id = true ∧ (p.isResident id = true ∨ id ∉ ids)
  refaults_eq : q.tally.refaults = p.tally.refaults + ids.dedup.countP p.isRefault
  pendingRefaults_eq : q.tally.pendingRefaults = p.tally.pendingRefaults + ids.dedup.countP p.isRefault

lemma Same.refl (p : Pool σ) : Same p p := ⟨rfl, rfl, rfl, rfl, rfl, rfl, .rfl⟩

variable (p : Pool σ) (i j : FrameId)

section OneAccess

lemma access_eq :
    p.access i = if p.isRefault i = true then p.refault i else { p with lru := p.lru.touch i } := by
  rw [access, isRefault]
  cases hi : p.lru.contains i with
  | true => rfl
  | false =>
    rw [Lru.touch_of_not_resident hi]
    rfl

lemma lru_access : (p.access i).lru = p.lru.touch i := by
  rw [access_eq]
  split_ifs with hi
  · rw [isRefault, Bool.and_eq_true, Bool.not_eq_true'] at hi
    exact (Lru.touch_of_not_resident hi.1).symm
  · rfl

@[simp] lemma settings_access : (p.access i).settings = p.settings := by
  rw [access_eq]
  split_ifs <;> rfl

@[simp] lemma free_access : (p.access i).free = p.free := by
  rw [access_eq]
  split_ifs <;> rfl

@[simp] lemma pacer_access : (p.access i).pacer = p.pacer := by
  rw [access_eq]
  split_ifs <;> rfl

lemma ghosts_access :
    (p.access i).ghosts = if p.isRefault i = true then (p.ghosts.forget i).2 else p.ghosts := by
  rw [access_eq]
  split_ifs <;> rfl

lemma tally_access :
    (p.access i).tally = if p.isRefault i = true then p.tally.countRefault else p.tally := by
  rw [access_eq]
  split_ifs <;> rfl

lemma journal_access : (p.access i).journal =
    if p.isRefault i = true then p.journal.push (.refaulted i) else p.journal := by
  rw [access_eq]
  split_ifs <;> rfl

lemma contains_ghosts_access : (p.access i).ghosts.contains j =
    (p.ghosts.contains j && decide (p.isRefault i = true → i ≠ j)) := by
  rw [ghosts_access]
  split_ifs with hi <;> simp [hi, GhostList.contains_forget]

lemma isRefault_access : (p.access i).isRefault j = (p.isRefault j && decide (i ≠ j)) := by
  rw [isRefault, lru_access, Lru.contains_touch, contains_ghosts_access]
  by_cases hij : i = j
  · subst hij
    cases hi : p.isRefault i with
    | false => simpa [isRefault] using hi
    | true => simp
  · simp [isRefault, hij]

lemma access_access : (p.access i).access i = p.access i := by
  have hno : (p.access i).isRefault i = false := by simp [isRefault_access]
  have ht : (p.access i).lru.touch i = (p.access i).lru := by rw [lru_access, Lru.touch_touch]
  rw [access_eq (p.access i), if_neg (by simp [hno]), ht]

lemma access_comm : Same ((p.access i).access j) ((p.access j).access i) := by
  by_cases hij : i = j
  · subst hij
    exact Same.refl _
  have hj : (p.access i).isRefault j = p.isRefault j := by simp [isRefault_access, hij]
  have hi : (p.access j).isRefault i = p.isRefault i := by simp [isRefault_access, Ne.symm hij]
  refine ⟨by simp, ?_, by simp, by simp, ?_, ?_, ?_⟩
  · simp only [lru_access]
    exact Lru.touch_comm ..
  · simp only [ghosts_access, hi, hj]
    split_ifs
    · exact GhostList.forget_comm ..
    all_goals rfl
  · simp only [tally_access, hi, hj]
    split_ifs <;> rfl
  · simp only [journal_access, hi, hj]
    split_ifs
    · simpa using (List.Perm.swap _ _ []).append_left p.journal.toList
    all_goals exact .rfl

end OneAccess

variable {p} {q r : Pool σ} {i} {ids ids' : List FrameId}

namespace Same

lemma symm (h : Same p q) : Same q p :=
  ⟨h.settings_eq.symm, h.lru_eq.symm, h.free_eq.symm, h.pacer_eq.symm, h.ghosts_eq.symm,
    h.tally_eq.symm, h.journal_perm.symm⟩

lemma trans (h : Same p q) (h' : Same q r) : Same p r :=
  ⟨h'.settings_eq.trans h.settings_eq, h'.lru_eq.trans h.lru_eq, h'.free_eq.trans h.free_eq,
    h'.pacer_eq.trans h.pacer_eq, h'.ghosts_eq.trans h.ghosts_eq, h'.tally_eq.trans h.tally_eq,
    h'.journal_perm.trans h.journal_perm⟩

lemma access (h : Same p q) (id : FrameId) : Same (p.access id) (q.access id) := by
  have hid : q.isRefault id = p.isRefault id := by rw [isRefault, isRefault, h.lru_eq, h.ghosts_eq]
  refine ⟨by simp [h.settings_eq], by rw [lru_access, lru_access, h.lru_eq], by simp [h.free_eq],
    by simp [h.pacer_eq], by rw [ghosts_access, ghosts_access, hid, h.ghosts_eq],
    by rw [tally_access, tally_access, hid, h.tally_eq], ?_⟩
  rw [journal_access, journal_access, hid]
  split_ifs
  · simpa using h.journal_perm.append_right _
  · exact h.journal_perm

lemma accessAll (h : Same p q) (ids : List FrameId) : Same (p.accessAll ids) (q.accessAll ids) := by
  induction ids generalizing p q with
  | nil => exact h
  | cons id ids ih => exact ih (h.access id)

end Same

lemma accessAll_perm (h : ids.Perm ids') : Same (p.accessAll ids) (p.accessAll ids') := by
  induction h generalizing p with
  | nil => exact .refl p
  | cons id _ ih => exact ih
  | swap i j ids => exact (access_comm p j i).accessAll ids
  | trans _ _ ih ih' => exact ih.trans ih'

lemma accessAll_append : p.accessAll (ids ++ ids') = (p.accessAll ids).accessAll ids' :=
  List.foldl_append

lemma access_of_mem (h : i ∈ ids) : Same ((p.accessAll ids).access i) (p.accessAll ids) := by
  have hp : ids.Perm (ids.erase i ++ [i]) :=
    (List.perm_cons_erase h).trans (List.perm_append_singleton i _).symm
  have hs : Same (p.accessAll ids) ((p.accessAll (ids.erase i)).access i) := by
    have := accessAll_perm (p := p) hp
    rwa [accessAll_append] at this
  have ha := hs.access i
  rw [access_access] at ha
  exact ha.trans hs.symm

lemma accessAll_of_subset (h : ids' ⊆ ids) :
    Same ((p.accessAll ids).accessAll ids') (p.accessAll ids) := by
  induction ids' with
  | nil => exact .refl _
  | cons id ids' ih =>
    obtain ⟨hid, h⟩ := List.cons_subset.mp h
    exact ((access_of_mem hid).accessAll ids').trans (ih h)

lemma accessAll_congr (h : ∀ id, id ∈ ids ↔ id ∈ ids') : Same (p.accessAll ids) (p.accessAll ids') := by
  have hcomm : Same ((p.accessAll ids).accessAll ids') ((p.accessAll ids').accessAll ids) := by
    rw [← accessAll_append, ← accessAll_append]
    exact accessAll_perm List.perm_append_comm
  have hl := accessAll_of_subset (p := p) fun id hid => (h id).mpr hid
  have hr := accessAll_of_subset (p := p) fun id hid => (h id).mp hid
  exact (hl.symm.trans hcomm).trans hr

lemma undisturbed_accessAll (ids : List FrameId) : Undisturbed p (p.accessAll ids) := by
  induction ids generalizing p with
  | nil => exact ⟨rfl, rfl, rfl, rfl, rfl⟩
  | cons id ids ih =>
    have h : Undisturbed (p.access id) ((p.access id).accessAll ids) := ih
    refine ⟨h.settings_eq.trans (by simp), h.free_eq.trans (by simp), h.table_eq.trans ?_,
      h.frames_eq.trans ?_, h.counters_eq.trans ?_⟩
    all_goals simp [lru_access]

lemma bitmap_accessAll (ids : List FrameId) (g : Nat) : (p.accessAll ids).lru.bitmap g =
    (ids.filter fun id => (p.lru.entry? id).map Entry.generation = some g).foldl Bitmap.mark
      (p.lru.bitmap g) := by
  induction ids generalizing p with
  | nil => rfl
  | cons id ids ih =>
    refine (ih (p := p.access id)).trans ?_
    simp only [lru_access, Lru.entry_touch, Lru.bitmap_touch, List.filter_cons, decide_eq_true_eq]
    split_ifs <;> rfl

lemma remembers_accessAll (ids : List FrameId) (k : FrameId) :
    (p.accessAll ids).ghosts.contains k = true ↔
      p.ghosts.contains k = true ∧ (p.isResident k = true ∨ k ∉ ids) := by
  induction ids generalizing p with
  | nil => simp [accessAll]
  | cons id ids ih =>
    refine (ih (p := p.access id)).trans ?_
    simp only [isResident, lru_access, Lru.contains_touch, contains_ghosts_access, isRefault]
    by_cases hk : id = k
    · subst hk
      by_cases hres : p.lru.contains id = true
      · simp [hres]
      · simp [hres]
    · simp [hk, Ne.symm hk]

lemma tally_accessAll (h : ids.Nodup) :
    (p.accessAll ids).tally.refaults = p.tally.refaults + ids.countP p.isRefault ∧
      (p.accessAll ids).tally.pendingRefaults = p.tally.pendingRefaults + ids.countP p.isRefault := by
  induction ids generalizing p with
  | nil => exact ⟨rfl, rfl⟩
  | cons id ids ih =>
    obtain ⟨hid, h⟩ := List.nodup_cons.mp h
    have hcount : ids.countP (p.access id).isRefault = ids.countP p.isRefault := by
      apply List.countP_congr
      intro k hk
      simp [isRefault_access, (ne_of_mem_of_not_mem hk hid).symm]
    obtain ⟨hr, hp⟩ := ih (p := p.access id) h
    rw [hcount, tally_access] at hr hp
    rw [List.countP_cons]
    split_ifs at hr hp ⊢
    · exact ⟨hr.trans (Nat.add_right_comm ..), hp.trans (Nat.add_right_comm ..)⟩
    · exact ⟨hr, hp⟩

lemma accessed_accessAll (p : Pool σ) (ids : List FrameId) : Accessed p ids (p.accessAll ids) := by
  have hs : Same (p.accessAll ids.dedup) (p.accessAll ids) := accessAll_congr fun _ => List.mem_dedup
  obtain ⟨hr, hp⟩ := tally_accessAll (p := p) ids.nodup_dedup
  rw [← hs.tally_eq] at hr hp
  exact ⟨bitmap_accessAll ids, remembers_accessAll ids, hr, hp⟩

theorem accesses_count_as_set (p : Pool σ) {ids ids' : List FrameId} (h : ∀ id, id ∈ ids ↔ id ∈ ids') :
    Same (p.accessAll ids) (p.accessAll ids') ∧ Accessed p ids (p.accessAll ids) ∧
      ∀ past, Undisturbed p (p.accessAll past) :=
  ⟨accessAll_congr h, accessed_accessAll p ids, undisturbed_accessAll⟩

theorem accesses_with_one_refault :
    ∃ start, create { capacity := 4, generations := 2, trackerWords := 1, refaultWindow := some 2 }
        (Steady.ofNat 1) = .ok start ∧
      let ops : List Op := [.allocate, .allocate, .allocate, .allocate, .reclaim 4, .reclaim 2]
      ∃ outs p, run ops start = .ok (outs, p) ∧
        Same (p.accessAll [0, 2, 9, 0, 2]) (p.accessAll [2, 9, 0]) ∧
        (p.accessAll [0, 2, 9, 0, 2]).tally.refaults = p.tally.refaults + 1 := by
  have hc : ∃ start,
      create { capacity := 4, generations := 2, trackerWords := 1, refaultWindow := some 2 }
        (Steady.ofNat 1) = .ok start ∧
      (run [.allocate, .allocate, .allocate, .allocate, .reclaim 4, .reclaim 2] start).toOption.map
        (fun r => [0, 2, 9, 0, 2].dedup.countP r.2.isRefault) = some 1 :=
    ⟨_, rfl, by decide +kernel⟩
  obtain ⟨start, hc, hone⟩ := hc
  obtain ⟨outs, p, hr, _⟩ := (create_whole hc (by decide)).1.run
    [.allocate, .allocate, .allocate, .allocate, .reclaim 4, .reclaim 2]
  have hcount : [0, 2, 9, 0, 2].dedup.countP p.isRefault = 1 := by
    simpa only [hr, Except.toOption, Option.map_some, Option.some.injEq] using hone
  have hsame : ∀ id, id ∈ [0, 2, 9, 0, 2] ↔ id ∈ [2, 9, 0] := by
    intro id
    simp only [List.mem_cons, List.not_mem_nil]
    tauto
  obtain ⟨hs, hn, _⟩ := accesses_count_as_set p hsame
  exact ⟨start, hc, outs, p, hr, hs, by rw [hn.refaults_eq, hcount]⟩

end Pool

end FramePool
