import FramePool.Proofs.Lru.Agreement
import FramePool.Proofs.Lru.SecondChance

/-! The outcome of a scan, frame by frame. Of the candidates with one bit in common only the first can
be promoted, and the others pay for it. -/

namespace FramePool

namespace Bitmap

variable {b : Bitmap} {cs : List Cell} {xs ys : List FrameId} {id : FrameId}

lemma not_mem_evicted_iff (hn : (cs.map Cell.id).Nodup) (hx : cs.map Cell.id = xs ++ id :: ys) :
    id ∉ (b.sift cs).evicted.map Cell.id ↔
      b.marked id = true ∧ ∀ f ∈ xs, b.bit f ≠ b.bit id := by
  induction cs generalizing b xs with
  | nil => simp at hx
  | cons c cs ih =>
    obtain ⟨hc, hn⟩ := List.nodup_cons.mp hn
    rw [sift]
    cases xs with
    | nil =>
      obtain ⟨rfl, rfl⟩ := List.cons.inj hx
      have hno : ∀ b : Bitmap, c.id ∉ (b.sift cs).evicted.map Cell.id := fun b hev =>
        hc ((sift_evicted_ids b cs).mem hev)
      split_ifs with hm
      · simp only [hno, hm, not_false_eq_true, List.not_mem_nil, false_imp_iff, implies_true, and_self]
      · simp [hm]
    | cons f xs =>
      obtain ⟨rfl, hrest⟩ := List.cons.inj hx
      have hx : cs.map Cell.id = xs ++ id :: ys := hrest
      have hne : id ≠ c.id := by
        rintro rfl
        exact hc (hx ▸ List.mem_append_right xs List.mem_cons_self)
      rw [List.forall_mem_cons]
      split_ifs with hm
      · rw [ih hn hx, marked_unmark]
        simp only [bit_unmark, Bool.and_eq_true, decide_eq_true_eq, and_assoc]
      · have hapart : b.marked id = true → b.bit c.id ≠ b.bit id := bit_ne_of_marked hm
        rw [List.map_cons, List.mem_cons, not_or, ih hn hx]
        tauto

lemma marked_sift : (b.sift cs).bits.marked id = true ↔
    b.marked id = true ∧ ∀ c ∈ cs, b.bit c.id ≠ b.bit id := by
  induction cs generalizing b with
  | nil => simp [sift]
  | cons c cs ih =>
    rw [sift, List.forall_mem_cons]
    split_ifs with hm
    · rw [ih, marked_unmark]
      simp only [bit_unmark, Bool.and_eq_true, decide_eq_true_eq, and_assoc]
    · have hapart : b.marked id = true → b.bit c.id ≠ b.bit id := bit_ne_of_marked hm
      rw [ih]
      tauto

end Bitmap

lemma filter_mem_of_sublist {xs ys : List FrameId} (h : xs.Sublist ys) (hn : ys.Nodup) :
    ys.filter (· ∈ xs) = xs := by
  have hself : xs.filter (· ∈ xs) = xs := List.filter_eq_self.mpr fun _ hid => decide_eq_true hid
  have hsub : xs.Sublist (ys.filter (· ∈ xs)) := by
    have := h.filter (· ∈ xs)
    rwa [hself] at this
  refine (hsub.eq_of_length_le ?_).symm
  apply ((hn.filter _).subperm _).length_le
  intro id hid
  exact of_decide_eq_true (List.mem_filter.mp hid).2

namespace Lru

structure Judged (l l₁ : Lru) (words budget : Nat) (s : Scan) : Prop where
  examined_eq : l.examined budget = (l.ids l.oldest).reverse.take budget
  examined_nodup : (l.examined budget).Nodup
  promoted_iff : ∀ xs id ys, l.examined budget = xs ++ id :: ys →
    (id ∈ l.promoted budget s ↔ (l.bitmap l.oldest).marked id = true ∧
      ∀ f ∈ xs, f % (64 * words) ≠ id % (64 * words))
  evicted_eq : s.evicted.toList = (l.examined budget).filter (· ∉ l.promoted budget s)
  promoted_eq : s.promoted = (l.promoted budget s).length
  scanned_eq : s.scanned = (l.examined budget).length
  scanned_sum : s.scanned = s.evicted.size + s.promoted
  contains_iff : ∀ id, l₁.contains id = true ↔ l.contains id = true ∧ id ∉ s.evicted.toList
  unexamined : l.oldest ≠ 0 → l₁.cells l.oldest = l.unexamined budget
  younger : l.oldest ≠ 0 → ∃ moved, l₁.cells (l.oldest - 1) = moved ++ l.cells (l.oldest - 1) ∧
    moved.map Cell.id = (l.promoted budget s).reverse
  single : l.oldest = 0 → l₁.cells 0 = (l.cells 0).filter (·.id ∉ s.evicted.toList)
  other : ∀ g, g ≠ l.oldest → g ≠ l.oldest - 1 → l₁.cells g = l.cells g
  size_eq : l₁.generations.size = l.generations.size
  bitmap_eq : ∀ g, g ≠ l.oldest → l₁.bitmap g = l.bitmap g
  marked_iff : ∀ id, (l₁.bitmap l.oldest).marked id = true ↔ (l.bitmap l.oldest).marked id = true ∧
    ∀ f ∈ l.examined budget, f % (64 * words) ≠ id % (64 * words)
  counters_eq : l₁.counters = l.counters.add s

variable {l l₁ l' : Lru} {words budget : Nat} {s : Scan}

lemma Coherent.filter_not_evicted (h : l.Coherent) (budget : Nat) :
    (l.cells l.oldest).filter (·.id ∉ (l.verdict budget).evicted.map Cell.id) =
      l.unexamined budget ++ (l.verdict budget).promoted.reverse := by
  have hn := h.ids_nodup l.oldest
  rw [ids, ← unexamined_append_candidates l budget, List.map_append, List.nodup_append] at hn
  have hpart : (l.candidates budget).filter (·.id ∉ (l.verdict budget).evicted.map Cell.id) =
      (l.verdict budget).promoted := Bitmap.filter_not_evicted (h.candidates_nodup budget)
  rw [← unexamined_append_candidates l budget, List.filter_append, List.filter_reverse, hpart,
    List.filter_eq_self.mpr]
  intro c hc
  rw [decide_eq_true_eq]
  intro hev
  have hcand := (Bitmap.sift_evicted_ids _ (l.candidates budget)).mem hev
  refine hn.2.2 c.id (List.mem_map_of_mem hc) c.id ?_ rfl
  rw [List.map_reverse]
  exact List.mem_reverse.mpr hcand

lemma Coherent.judged (h : l.Coherent) (hw : (l.bitmap l.oldest).size = words)
    (hs : s = { Scan.after {} (l.verdict budget) with aged := s.aged })
    (hsifts : Sifts l l₁ (l.unexamined budget) [] (l.verdict budget))
    (hct : l₁.counters = l.counters.add s) : Judged l l₁ words budget s := by
  have hev : s.evicted.toList = (l.verdict budget).evicted.map Cell.id := by
    rw [hs]
    simp [Scan.after]
  have hpromoted : s.promoted = (l.verdict budget).promoted.length := by
    rw [hs]
    exact Nat.zero_add _
  have hscanned : s.scanned = (l.verdict budget).evicted.length + (l.verdict budget).promoted.length := by
    rw [hs]
    exact Nat.zero_add _
  have hex := h.examined_eq budget
  have hnodup := h.candidates_nodup budget
  have hprom : l.promoted budget s = (l.verdict budget).promoted.map Cell.id := by
    rw [promoted, hex, hev]
    exact Bitmap.sift_promoted_eq hnodup
  have hbit : ∀ f, (l.bitmap l.oldest).bit f = f % (64 * words) := fun f => by rw [Bitmap.bit, hw]
  have hsub : s.evicted.toList.Sublist (l.examined budget) := by
    rw [hev, hex]
    exact Bitmap.sift_evicted_ids _ _
  exact {
    examined_eq := by rw [hex, candidates, ids, List.map_take, List.map_reverse]
    examined_nodup := by rwa [hex]
    promoted_iff := by
      intro xs id ys hx
      have hmem : id ∈ l.examined budget := by simp [hx]
      rw [hex] at hx
      simp only [promoted, List.mem_filter, hmem, true_and, decide_eq_true_eq, hev, ← hbit]
      exact Bitmap.not_mem_evicted_iff hnodup hx
    evicted_eq := by
      have hin : ∀ id ∈ l.examined budget,
          decide (id ∉ l.promoted budget s) = decide (id ∈ s.evicted.toList) := by
        intro id hid
        simp [promoted, hid]
      rw [List.filter_congr hin]
      exact (filter_mem_of_sublist hsub (hex ▸ hnodup)).symm
    promoted_eq := by rw [hprom, List.length_map, hpromoted]
    scanned_eq := by
      rw [hscanned, hex, List.length_map]
      exact Bitmap.length_sift _ _
    scanned_sum := by rw [hscanned, hpromoted, ← Array.length_toList, hev, List.length_map]
    contains_iff := fun id => by rw [hev, hsifts.mem_iff]
    unexamined := fun h0 => by rw [hsifts.oldest_eq, if_neg h0, List.append_nil]
    younger := fun h0 => hprom ▸ hsifts.younger h0
    single := by
      intro h0
      have hc := hsifts.oldest_eq
      rw [if_pos h0, List.append_nil, ← h.filter_not_evicted, ← hev] at hc
      rwa [h0] at hc
    other := hsifts.other
    size_eq := hsifts.size_eq
    bitmap_eq := fun g hg => by rw [hsifts.bitmap_eq, Function.update_of_ne hg]
    marked_iff := by
      intro id
      rw [hsifts.bitmap_eq, Function.update_self, verdict, Bitmap.marked_sift, hex]
      simp only [← hbit, List.forall_mem_map]
    counters_eq := hct }

structure Settled (l l₁ l' : Lru) (words budget : Nat) (s : Scan) : Prop where
  swept : ∃ found, l.sweep budget = .ok (found, l₁) ∧ s = { found with aged := s.aged }
  judged : Judged l l₁ words budget s
  agrees : l₁.Agrees
  refilled : l₁.refill budget = .ok (s.aged, l')
  aged_iff : s.aged = true ↔ (l₁.ids l.oldest).length < budget / 4
  rest : if s.aged then l₁.age = .ok l' else l' = l₁
  contains_iff : ∀ id, l'.contains id = true ↔ l.contains id = true ∧ id ∉ s.evicted.toList

lemma Consistent.settled (h : l.Consistent) (hw : (l.bitmap l.oldest).size = words)
    (hne : l.ids l.oldest ≠ []) (budget : Nat) :
    ∃ s l₁ l', l.scan budget = .ok (s, l') ∧ Settled l l₁ l' words budget s := by
  obtain ⟨⟨found, l₁⟩, hsw, hfound, h₁, hsifts, hct⟩ :=
    (h.toCoherent.sweep budget).exists_ok h.not_overfull
  have hc₁ : l₁.Consistent := h.of_coherent h₁ fun id hid => ((hsifts.mem_iff id).mp hid).1
  obtain ⟨⟨aged, l'⟩, hre, h', haged, hrest⟩ := (h₁.refill budget).exists_ok hc₁.not_overfull
  have hne : l.cells l.oldest ≠ [] := fun hnil => hne (by rw [ids, hnil, List.map_nil])
  have ho : l₁.oldest = l.oldest := by simp [oldest, hsifts.size_eq]
  obtain rfl : found = _ := hfound
  have hj := h.judged (s := { Scan.after {} (l.verdict budget) with aged }) hw rfl hsifts hct
  refine ⟨{ Scan.after {} (l.verdict budget) with aged }, l₁, l', ?_, ⟨_, hsw, rfl⟩, hj, hc₁.agrees,
    hre, ?_, refill_eq_ok hre, ?_⟩
  · simp only [h.scan_eq_of_ne_nil hne, hsw, hre, h'.checkSizes, ok_bind]
  · rw [length_ids, ← ho]
    exact haged
  · intro id
    rw [← hj.contains_iff]
    cases aged with
    | true => rw [hrest.contains_eq]
    | false =>
      obtain rfl : l' = l₁ := hrest
      rfl

theorem scan_outcome {n : Nat} {start : Lru} {past : List Op} {outs : List Outcome}
    (hc : Lru.create n words = .ok start) (hr : run past start = .ok (outs, l))
    (hn : l.resident < Arena.slotLimit) (hne : l.ids l.oldest ≠ []) (budget : Nat) :
    l.oldest + 1 = n ∧
      ∃ s l₁ l', l.scan budget = .ok (s, l') ∧ Settled l l₁ l' words budget s := by
  obtain ⟨rfl, hpos, _⟩ := create_ok hc
  obtain ⟨h, hsz, hwords, _⟩ := (fresh_coherent n words hpos).run hr
  have hcons : l.Consistent := ⟨h, hn.le⟩
  have hw := (fresh_uniform n words).of_words_eq hsz hwords l.oldest h.oldest_lt
  refine ⟨?_, hcons.settled hw hne budget⟩
  rw [← h.size_eq_succ, hsz, fresh_size]

theorem scan_with_shared_bit :
    ∃ start, Lru.create 2 1 = .ok start ∧
      ∃ outs l, run [.insert 7, .insert 1, .insert 65, .insert 9, .age, .touch 65, .touch 7] start =
        .ok (outs, l) ∧ l.resident < Arena.slotLimit ∧ l.ids l.oldest ≠ [] ∧
      ∃ s l₁ l', l.scan 3 = .ok (s, l') ∧ Settled l l₁ l' 1 3 s ∧ s.evicted.toList = [65] := by
  have hp : ∃ outs l, run [.insert 7, .insert 1, .insert 65, .insert 9, .age, .touch 65, .touch 7]
      (fresh 2 1) = .ok (outs, l) ∧ l.resident = 4 ∧ l.ids l.oldest ≠ [] ∧
        (l.scan 3).toOption.map (fun r => r.1.evicted.toList) = some [65] :=
    ⟨_, _, rfl, by decide +kernel⟩
  obtain ⟨outs, l, hr, hres, hne, hev⟩ := hp
  have hn : l.resident < Arena.slotLimit := by
    rw [hres]
    decide
  have hc : Lru.create 2 1 = .ok (fresh 2 1) := rfl
  obtain ⟨_, s, l₁, l', hs, hset⟩ := scan_outcome hc hr hn hne 3
  refine ⟨fresh 2 1, hc, outs, l, hr, hn, hne, s, l₁, l', hs, hset, ?_⟩
  simpa [hs, Except.toOption] using hev

end Lru

end FramePool
