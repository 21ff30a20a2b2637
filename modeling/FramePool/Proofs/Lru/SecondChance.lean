import FramePool.Proofs.Lru.Survival

/-! Second chances. With two generations or more a frame is promoted only for an access in its current
stay. A single generation still holds the marks of earlier stays. -/

namespace FramePool

namespace Bitmap

variable {b : Bitmap} {cs : List Cell}

lemma marked_of_marked_sift {id : FrameId} (h : (b.sift cs).bits.marked id = true) :
    b.marked id = true := by
  induction cs generalizing b with
  | nil => exact h
  | cons c cs ih =>
    rw [sift] at h
    split at h
    · have hu := ih h
      rw [marked_unmark, Bool.and_eq_true] at hu
      exact hu.1
    · exact ih h

lemma marked_of_not_evicted {c : Cell} (hc : c ∈ cs) (he : c ∉ (b.sift cs).evicted) :
    b.marked c.id = true := by
  induction cs generalizing b with
  | nil => cases hc
  | cons d cs ih =>
    rw [sift] at he
    by_cases hm : b.marked d.id = true
    · rw [if_pos hm] at he
      cases hc with
      | head => exact hm
      | tail _ hc =>
        have hu := ih hc he
        rw [marked_unmark, Bool.and_eq_true] at hu
        exact hu.1
    · rw [if_neg hm, List.mem_cons, not_or] at he
      cases hc with
      | head => exact (he.1 rfl).elim
      | tail _ hc => exact ih hc he.2

lemma filter_not_evicted (hn : (cs.map Cell.id).Nodup) :
    cs.filter (·.id ∉ (b.sift cs).evicted.map Cell.id) = (b.sift cs).promoted := by
  induction cs generalizing b with
  | nil => rfl
  | cons c cs ih =>
    obtain ⟨hc, hn⟩ := List.nodup_cons.mp hn
    have hno : ∀ b : Bitmap, c.id ∉ (b.sift cs).evicted.map Cell.id := fun b hev =>
      hc ((sift_evicted_ids b cs).mem hev)
    rw [sift]
    by_cases hm : b.marked c.id = true
    · simp only [if_pos hm]
      rw [List.filter_cons, if_pos (decide_eq_true (hno _)), ih hn]
    · simp only [if_neg hm, List.map_cons]
      rw [List.filter_cons_of_neg (by simp), ← ih hn]
      apply List.filter_congr
      intro d hd
      have hne : d.id ≠ c.id := fun he => hc (he ▸ List.mem_map_of_mem hd)
      simp [hne]

lemma sift_promoted_eq (hn : (cs.map Cell.id).Nodup) :
    (cs.map Cell.id).filter (· ∉ (b.sift cs).evicted.map Cell.id) = (b.sift cs).promoted.map Cell.id := by
  rw [List.filter_map]
  exact congrArg (List.map Cell.id) (filter_not_evicted hn)

end Bitmap

namespace Lru

def examined (l : Lru) (budget : Nat) : List FrameId :=
  match l.generations[l.oldest]? with
  | some gen => gen.frames.lastIds budget
  | none => []

def promoted (l : Lru) (budget : Nat) (s : Scan) : List FrameId :=
  (l.examined budget).filter (· ∉ s.evicted.toList)

def AccessedInStay (f : FrameId) (past : List Op) : Prop := .touch f ∈ past.rtakeWhile (· ≠ .insert f)

/-- In runs over frames with a bit of their own each, a scan promotes none that was not accessed in its
current stay. -/
def ChancesEarned (start : Lru) (words : Nat) : Prop :=
  ∀ ops, (∀ id, .insert id ∈ ops → id < 64 * words) →
    ∀ outs l, run ops start = .ok (outs, l) →
      ∀ budget s l', l.scan budget = .ok (s, l') → ∀ f ∈ l.promoted budget s, AccessedInStay f ops

def Deserved (l : Lru) (past : List Op) : Prop :=
  ∀ f ∈ l.ids l.oldest, (l.bitmap l.oldest).marked f = true → AccessedInStay f past

instance (f : FrameId) (past : List Op) : Decidable (AccessedInStay f past) :=
  inferInstanceAs (Decidable (_ ∈ _))

variable {l l₁ l' : Lru} {f : FrameId} {words budget : Nat} {s : Scan} {op : Op} {ops past : List Op}
  {out : Outcome} {outs : List Outcome}

lemma accessedInStay_concat : AccessedInStay f (past ++ [op]) ↔
    op ≠ .insert f ∧ (op = .touch f ∨ AccessedInStay f past) := by
  rw [AccessedInStay, List.rtakeWhile_concat]
  by_cases hop : op = .insert f
  · simp [hop]
  · rw [if_pos (by simpa using hop), List.mem_append, List.mem_singleton, eq_comm, or_comm]
    exact (and_iff_right hop).symm

lemma Coherent.examined_eq (h : l.Coherent) (budget : Nat) :
    l.examined budget = (l.candidates budget).map Cell.id := by
  obtain ⟨gen, hg⟩ := exists_generation h.oldest_lt
  rw [examined, hg, candidates, cells_of_getElem? hg]
  exact (h.sound _ _ hg).lastIds_eq budget

lemma Coherent.contains_of_mem_ids (h : l.Coherent) {g : Nat} (hf : f ∈ l.ids g) :
    l.contains f = true := by
  obtain ⟨c, hc, rfl⟩ := List.mem_map.mp hf
  exact h.contains_of_mem hc

lemma Removed.entry_of_some {id : FrameId} {e : Entry} (hr : Removed l l' id)
    (he : l'.entry? f = some e) : l.entry? f = some e := by
  have hne : id ≠ f := by
    rintro rfl
    change l'.table[id]? = some e at he
    rw [hr.table_eq, Std.ExtTreeMap.getElem?_erase_self] at he
    cases he
  rw [← hr.entry_of_ne hne, he]

namespace Scanned

lemma mem_promoted (hs : Scanned l l₁ l' budget s) (h : l.Coherent) (hf : f ∈ l.promoted budget s) :
    f ∈ l.ids l.oldest ∧ (l.bitmap l.oldest).marked f = true := by
  obtain ⟨hex, hev⟩ := List.mem_filter.mp hf
  rw [h.examined_eq] at hex
  obtain ⟨c, hc, rfl⟩ := List.mem_map.mp hex
  rw [decide_eq_true_eq, hs.evicted_eq] at hev
  exact ⟨List.mem_map_of_mem (mem_cells_of_mem_candidates hc),
    Bitmap.marked_of_not_evicted hc fun he => hev (List.mem_map_of_mem he)⟩

lemma length_promoted (hs : Scanned l l₁ l' budget s) (h : l.Coherent) :
    (l.promoted budget s).length = s.promoted := by
  have hp : l.promoted budget s = (l.verdict budget).promoted.map Cell.id := by
    rw [promoted, h.examined_eq, hs.evicted_eq]
    exact Bitmap.sift_promoted_eq (h.candidates_nodup budget)
  rw [hp, List.length_map, hs.scan_eq]
  simp [Scan.after]

lemma of_oldest (hs : Scanned l l₁ l' budget s) (h0 : l.oldest ≠ 0) (hf : f ∈ l'.ids l'.oldest)
    (hm : (l'.bitmap l'.oldest).marked f = true) :
    f ∈ l.ids l.oldest ∧ (l.bitmap l.oldest).marked f = true := by
  have hr := hs.refilled
  split_ifs at hr
  · rw [hr.bitmap_eq, Bitmap.marked_wipe] at hm
    cases hm
  subst hr
  have ho : l'.oldest = l.oldest := by simp [oldest, hs.size_eq]
  have hc := hs.sifts.oldest_eq
  rw [if_neg h0, List.append_nil] at hc
  rw [ho, hs.sifts.bitmap_eq, Function.update_self] at hm
  rw [ho, ids, hc] at hf
  refine ⟨?_, Bitmap.marked_of_marked_sift hm⟩
  rw [ids, ← unexamined_append_candidates l budget, List.map_append]
  exact List.mem_append_left _ hf

end Scanned

lemma Removed.of_ids {id : FrameId} (hr : Removed l l' id) (h : l.Coherent) {g : Nat}
    (hf : f ∈ l'.ids g) (hm : (l'.bitmap g).marked f = true) :
    f ∈ l.ids g ∧ (l.bitmap g).marked f = true := by
  obtain ⟨p, he⟩ := hr.coherent.mem_ids.mp hf
  rw [hr.moved.bitmap_eq] at hm
  exact ⟨h.mem_ids.mpr ⟨p, hr.entry_of_some he⟩, hm⟩

lemma Aged.not_marked (ha : Aged l l') (g : Nat) : (l'.bitmap g).marked f = false := by
  rw [ha.bitmap_eq, Bitmap.marked_wipe]

lemma Stepped.of_oldest (hs : Stepped l op out l') (h : l.Coherent) (hu : l.Uniform words)
    (hw : 0 < words) (hlt : ∀ id, l.contains id = true → id < 64 * words) (h0 : l.oldest ≠ 0)
    (hf : f ∈ l'.ids l'.oldest) (hm : (l'.bitmap l'.oldest).marked f = true) :
    op ≠ .insert f ∧ (op = .touch f ∨ f ∈ l.ids l.oldest ∧ (l.bitmap l.oldest).marked f = true) := by
  have hsz := (hs.kept h).size_eq
  have ho : l'.oldest = l.oldest := by simp [oldest, hsz]
  cases hs with
  | @insert _ id hid ha =>
    obtain ⟨p, _, hc⟩ := ha.place_eq
    rw [ho] at hf hm
    rw [ids, hc, Function.update_of_ne h0] at hf
    rw [ha.moved.bitmap_eq] at hm
    have hne : id ≠ f := by
      rintro rfl
      rw [h.contains_of_mem_ids hf] at hid
      cases hid
    exact ⟨fun he => hne (Op.insert.inj he), Or.inr ⟨hf, hm⟩⟩
  | @touch _ id ht =>
    rw [ho, ht.mem_ids h] at hf
    rw [ho, ht.bitmap_eq] at hm
    refine ⟨by simp, ?_⟩
    split_ifs at hm with hin
    · have hsize := hu l.oldest h.oldest_lt
      rw [Bitmap.marked_mark _ _ _ (hsize ▸ hw), Bool.or_eq_true, decide_eq_true_eq] at hm
      rcases hm with hm | hb
      · exact Or.inr ⟨hf, hm⟩
      · rw [Bitmap.bit, Bitmap.bit, hsize, Nat.mod_eq_of_lt (hlt id (h.contains_of_mem_ids hin)),
          Nat.mod_eq_of_lt (hlt f (h.contains_of_mem_ids hf))] at hb
        exact Or.inl (congrArg Op.touch hb)
    · exact Or.inr ⟨hf, hm⟩
  | scanEmpty _ _ ha =>
    rw [ha.not_marked] at hm
    cases hm
  | scan _ hsc => exact ⟨by simp, Or.inr (hsc.of_oldest h0 hf hm)⟩
  | age _ ha =>
    rw [ha.not_marked] at hm
    cases hm
  | remove hr =>
    rw [ho] at hf hm
    exact ⟨by simp, Or.inr (hr.of_ids h hf hm)⟩
  | retire _ hr =>
    rw [ho] at hf hm
    exact ⟨by simp, Or.inr (hr.of_ids h hf hm)⟩
  | retireStale => exact ⟨by simp, Or.inr ⟨hf, hm⟩⟩

lemma Coherent.run_deserved (h : l.Coherent) (hu : l.Uniform words) (hw : 0 < words)
    (h0 : l.oldest ≠ 0) (hnone : ∀ id, l.contains id = false)
    (hlt : ∀ id, .insert id ∈ ops → id < 64 * words) (hr : Lru.run ops l = .ok (outs, l')) :
    l'.Deserved ops := by
  -- From the end of the history: a stay begins with the last insertion.
  induction ops using List.reverseRecOn generalizing outs l' with
  | nil =>
    obtain ⟨_, rfl⟩ := Prod.mk.inj (Except.ok.inj hr)
    intro f hf
    have hno := hnone f
    rw [h.contains_of_mem_ids hf] at hno
    cases hno
  | append_singleton ops op ih =>
    obtain ⟨outs', l₁, out, hr₁, hs, _⟩ := run_concat_eq_ok hr
    have hlt₁ : ∀ id, .insert id ∈ ops → id < 64 * words := fun id hid =>
      hlt id (List.mem_append_left _ hid)
    obtain ⟨h₁, hsz₁, hw₁, hin₁⟩ := h.run hr₁
    have hres₁ : ∀ id, l₁.contains id = true → id < 64 * words := by
      intro id hid
      cases hin₁ id hid with
      | inl hid =>
        rw [hnone] at hid
        cases hid
      | inr hid => exact hlt₁ id hid
    have ho₁ : l₁.oldest ≠ 0 := by simpa [oldest, hsz₁] using h0
    have hst : Stepped l₁ op out l' := (h₁.step op).of_eq_ok hs
    intro f hf hm
    obtain ⟨hop, hor⟩ := hst.of_oldest h₁ (hu.of_words_eq hsz₁ hw₁) hw hres₁ ho₁ hf hm
    exact accessedInStay_concat.mpr ⟨hop, hor.imp_right fun hold => ih hlt₁ hr₁ f hold.1 hold.2⟩

lemma run_with_stale_mark (hw : 0 < words) :
    ∃ outs l, run [.insert f, .touch f, .remove f, .insert f] (fresh 1 words) = .ok (outs, l) ∧
      l.Consistent ∧ l.generations.size = 1 ∧ l.order = [f] ∧ (l.bitmap 0).marked f = true := by
  have h₀ := fresh_consistent 1 words Nat.one_pos
  have hno : (fresh 1 words).contains f = false := rfl
  have hlim : 0 < Arena.slotLimit := by decide
  obtain ⟨l₁, hi₁, h₁, ha₁⟩ := h₀.insert hno hlim
  have ho₁ := ha₁.order_eq h₀.toCoherent
  rw [fresh_order 1 words Nat.one_pos] at ho₁
  have ht := h₁.toCoherent.touch f
  have h₂ := (h₁.touch f).1
  obtain ⟨l₃, hr₃, h₃, hrm⟩ := h₂.remove f
  have ho₃ : l₃.order = [] := by rw [hrm.order_eq, ht.order_eq, ho₁, List.erase_cons_head]
  have hno₃ : l₃.contains f = false := by
    rw [hrm.contains_eq]
    simp
  have hres₃ : l₃.resident < Arena.slotLimit := by
    rw [h₃.resident_eq, ho₃]
    exact hlim
  obtain ⟨l₄, hi₄, h₄, ha₄⟩ := h₃.insert hno₃ hres₃
  refine ⟨[.done, .done, .removed ((l₁.touch f).contains f), .done], l₄, ?_, h₄, ?_, ?_, ?_⟩
  · simp only [run, step, hi₁, hr₃, hi₄, ok_bind, pure_eq_ok]
  · rw [ha₄.moved.size_eq, hrm.moved.size_eq, ht.size_eq, ha₁.moved.size_eq, fresh_size]
  · rw [ha₄.order_eq h₃.toCoherent, ho₃]
  · have hin : f ∈ l₁.ids 0 := by
      obtain ⟨p, _, hc⟩ := ha₁.place_eq
      simp [ids, hc]
    have hsize : (l₁.bitmap 0).size = words := by
      rw [ha₁.moved.bitmap_eq]
      exact fresh_uniform 1 words 0 (by simp)
    rw [ha₄.moved.bitmap_eq, hrm.moved.bitmap_eq, ht.bitmap_eq, if_pos hin,
      Bitmap.marked_mark _ _ _ (hsize ▸ hw)]
    simp

lemma Consistent.promotes_single (h : l.Consistent) (hsz : l.generations.size = 1)
    (ho : l.order = [f]) (hm : (l.bitmap 0).marked f = true) :
    ∃ s l', l.scan 1 = .ok (s, l') ∧ f ∈ l.promoted 1 s := by
  have h0 : l.oldest = 0 := by simp [oldest, hsz]
  have hids : l.ids 0 = [f] := by
    rw [h.sound.order_eq, hsz] at ho
    simpa using ho
  obtain ⟨c, hc, rfl⟩ : ∃ c, l.cells 0 = [c] ∧ c.id = f := by
    simpa [ids, List.map_eq_singleton_iff] using hids
  have hcand : l.candidates 1 = [c] := by simp [candidates, h0, hc]
  obtain ⟨l₁, l', s, hsc, _, hs⟩ := h.scan_of_ne_nil (by simp [h0, hc]) 1
  have hev : s.evicted.toList = [] := by
    rw [hs.evicted_eq, verdict, hcand, h0]
    simp [Bitmap.sift, hm]
  refine ⟨s, l', hsc, ?_⟩
  rw [promoted, h.examined_eq, hcand, hev]
  simp

lemma Coherent.scan_cases (h : l.Coherent) (hs : l.scan budget = .ok (s, l')) :
    (l.candidates budget = [] ∧ s.promoted = 0) ∨ ∃ l₁, Scanned l l₁ l' budget s := by
  by_cases he : l.cells l.oldest = []
  · obtain ⟨hsc, _⟩ := (h.scan_of_empty he budget).of_eq_ok hs
    obtain rfl : s = { aged := true } := hsc
    exact Or.inl ⟨by simp [candidates, he], rfl⟩
  · exact Or.inr ((h.scan_of_ne_nil he budget).of_eq_ok hs)

lemma Coherent.mem_promoted (h : l.Coherent) (hs : l.scan budget = .ok (s, l'))
    (hf : f ∈ l.promoted budget s) : f ∈ l.ids l.oldest ∧ (l.bitmap l.oldest).marked f = true := by
  rcases h.scan_cases hs with ⟨hc, _⟩ | ⟨l₁, hsc⟩
  · simp [promoted, h.examined_eq, hc] at hf
  · exact hsc.mem_promoted h hf

lemma Coherent.length_promoted (h : l.Coherent) (hs : l.scan budget = .ok (s, l')) :
    (l.promoted budget s).length = s.promoted := by
  rcases h.scan_cases hs with ⟨hc, hz⟩ | ⟨l₁, hsc⟩
  · simp [promoted, h.examined_eq, hc, hz]
  · exact hsc.length_promoted h

theorem promoted_only_if_accessed {n : Nat} {start : Lru} (hc : Lru.create n words = .ok start) :
    (start.ChancesEarned words ↔ 2 ≤ n) ∧
      ∀ ops outs l budget s l', run ops start = .ok (outs, l) → l.scan budget = .ok (s, l') →
        (l.promoted budget s).length = s.promoted := by
  obtain ⟨rfl, hpos, hpow⟩ := create_ok hc
  have hw := pos_of_isPowerOfTwo hpow
  have h₀ := fresh_coherent n words hpos
  refine ⟨⟨fun hearned => ?_, fun hn => ?_⟩, ?_⟩
  · by_contra hn
    obtain rfl : n = 1 := by omega
    obtain ⟨outs, l, hr, h, hsz, ho, hm⟩ := run_with_stale_mark (f := 0) hw
    obtain ⟨s, l', hs, hp⟩ := h.promotes_single hsz ho hm
    have hlt : ∀ id, .insert id ∈ [Op.insert 0, .touch 0, .remove 0, .insert 0] → id < 64 * words := by
      intro id hid
      obtain rfl : id = 0 := by simpa using hid
      omega
    exact absurd (hearned _ hlt outs l hr 1 s l' hs 0 hp) (by decide)
  · intro ops hlt outs l hr budget s l' hs f hf
    obtain ⟨h, hsz, _⟩ := h₀.run hr
    have h0 : (fresh n words).oldest ≠ 0 := by
      rw [oldest, fresh_size]
      omega
    obtain ⟨hin, hm⟩ := h.mem_promoted hs hf
    exact h₀.run_deserved (fresh_uniform n words) hw h0 (fun _ => rfl) hlt hr f hin hm
  · intro ops outs l budget s l' hr hs
    exact (h₀.run hr).1.length_promoted hs

theorem promoted_for_former_stay :
    ∃ start, Lru.create 1 1 = .ok start ∧
      ∃ outs l, run [.insert 5, .touch 5, .remove 5, .insert 5] start = .ok (outs, l) ∧
      ∃ s l', l.scan 1 = .ok (s, l') ∧ l.promoted 1 s = [5] ∧ s.promoted = 1 ∧
        ¬AccessedInStay 5 [.insert 5, .touch 5, .remove 5, .insert 5] :=
  ⟨_, rfl, _, _, rfl, _, _, rfl, by decide +kernel⟩

theorem chances_earned_in_two_generations :
    ∃ start, Lru.create 2 1 = .ok start ∧ start.ChancesEarned 1 ∧
      let ops : List Op := [.insert 5, .touch 5, .remove 5, .insert 5, .age, .insert 9, .touch 5]
      ∃ outs l, run ops start = .ok (outs, l) ∧
      ∃ s l', l.scan 1 = .ok (s, l') ∧ l.promoted 1 s = [5] ∧ s.promoted = 1 ∧ AccessedInStay 5 ops := by
  have hrun : ∃ outs l, run [.insert 5, .touch 5, .remove 5, .insert 5, .age, .insert 9, .touch 5]
      (fresh 2 1) = .ok (outs, l) ∧
        (l.scan 1).toOption.map (fun r => l.promoted 1 r.1) = some [5] := ⟨_, _, rfl, by decide +kernel⟩
  obtain ⟨outs, l, hr, hp⟩ := hrun
  obtain ⟨s, l', hs⟩ : ∃ s l', l.scan 1 = .ok (s, l') := by
    cases hs : l.scan 1 with
    | error e => simp [hs, Except.toOption] at hp
    | ok r => exact ⟨r.1, r.2, rfl⟩
  have hp : l.promoted 1 s = [5] := by simpa [hs, Except.toOption] using hp
  have hc : Lru.create 2 1 = .ok (fresh 2 1) := rfl
  obtain ⟨hearned, hcount⟩ := promoted_only_if_accessed hc
  have hall : (fresh 2 1).ChancesEarned 1 := hearned.mpr (by decide)
  have hlt : ∀ id, .insert id ∈ [Op.insert 5, .touch 5, .remove 5, .insert 5, .age, .insert 9, .touch 5] →
      id < 64 * 1 := by
    intro id hid
    obtain rfl | rfl : id = 5 ∨ id = 9 := by simpa using hid
    · decide
    · decide
  refine ⟨fresh 2 1, hc, hall, outs, l, hr, s, l', hs, hp, ?_, ?_⟩
  · rw [← hcount _ outs l 1 s l' hr hs, hp]
    rfl
  · exact hall _ hlt outs l hr 1 s l' hs 5 (by simp [hp])

end Lru

end FramePool
