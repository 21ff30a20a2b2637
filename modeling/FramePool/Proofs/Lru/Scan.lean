import FramePool.Proofs.Lru.Aging
import FramePool.Proofs.Lru.Sweep

/-! A scan never fails in a consistent engine. The evicted frames and the remaining ones make up the
frames that were resident before. -/

namespace FramePool

lemma Bitmap.sift_evicted_sublist (b : Bitmap) (cs : List Cell) : (b.sift cs).evicted.Sublist cs := by
  induction cs generalizing b with
  | nil => exact .slnil
  | cons c cs ih =>
    rw [Bitmap.sift]
    split
    · exact (ih _).cons c
    · exact (ih _).cons_cons c

lemma Bitmap.sift_evicted_ids (b : Bitmap) (cs : List Cell) :
    ((b.sift cs).evicted.map Cell.id).Sublist (cs.map Cell.id) :=
  (b.sift_evicted_sublist cs).map Cell.id

namespace Lru

variable {l : Lru}

def candidates (l : Lru) (budget : Nat) : List Cell := (l.cells l.oldest).reverse.take budget

def unexamined (l : Lru) (budget : Nat) : List Cell :=
  ((l.cells l.oldest).reverse.drop budget).reverse

def verdict (l : Lru) (budget : Nat) : Sifted := (l.bitmap l.oldest).sift (l.candidates budget)

lemma unexamined_append_candidates (l : Lru) (budget : Nat) :
    l.unexamined budget ++ (l.candidates budget).reverse = l.cells l.oldest := by
  rw [unexamined, candidates, ← List.reverse_append, List.take_append_drop, List.reverse_reverse]

lemma length_candidates (l : Lru) (budget : Nat) :
    (l.candidates budget).length = min budget (l.cells l.oldest).length := by simp [candidates]

lemma mem_cells_of_mem_candidates {budget : Nat} {c : Cell} (hc : c ∈ l.candidates budget) :
    c ∈ l.cells l.oldest := List.mem_reverse.mp (List.mem_of_mem_take hc)

lemma refill_eq_ok {l' : Lru} {budget : Nat} {aged : Bool} (hr : l.refill budget = .ok (aged, l')) :
    if aged then l.age = .ok l' else l' = l := by
  simp only [refill, bind_eq_ok] at hr
  obtain ⟨gen, _, hr⟩ := hr
  split_ifs at hr
  · obtain ⟨l₂, ha, he⟩ := bind_eq_ok.mp hr
    obtain ⟨rfl, rfl⟩ := Prod.mk.inj (Except.ok.inj he)
    exact ha
  · obtain ⟨rfl, rfl⟩ := Prod.mk.inj (Except.ok.inj hr)
    rfl

structure Scanned (l l₁ l' : Lru) (budget : Nat) (s : Scan) : Prop where
  scan_eq : s = { Scan.after {} (l.verdict budget) with aged := s.aged }
  swept : l₁.Coherent
  coherent : l'.Coherent
  sifts : Sifts l l₁ (l.unexamined budget) [] (l.verdict budget)
  counters_eq : l₁.counters = l.counters.add (Scan.after {} (l.verdict budget))
  aged_iff : s.aged = true ↔ (l₁.cells l₁.oldest).length < budget / 4
  refilled : if s.aged then Aged l₁ l' else l' = l₁

namespace Coherent

lemma oldest_generation (h : l.Coherent) :
    ∃ gen, l.generation l.oldest = .ok gen ∧ gen.frames.Sound ∧
      gen.frames.cells = l.cells l.oldest := by
  obtain ⟨gen, hg⟩ := exists_generation h.oldest_lt
  exact ⟨gen, generation_of_getElem? hg, h.sound _ _ hg, (cells_of_getElem? hg).symm⟩

lemma sweep (h : l.Coherent) (budget : Nat) :
    Meets (l.sweep budget) (fun r => r.1 = Scan.after {} (l.verdict budget) ∧ r.2.Coherent ∧
      Sifts l r.2 (l.unexamined budget) [] (l.verdict budget) ∧
      r.2.counters = l.counters.add (Scan.after {} (l.verdict budget))) l.Overfull := by
  obtain ⟨gen, hg, hs, hc⟩ := h.oldest_generation
  have hx : l.cells l.oldest = l.unexamined budget ++ (l.candidates budget).reverse ++ [] := by
    rw [unexamined_append_candidates, List.append_nil]
  have hl : gen.frames.lastIds budget = (l.candidates budget).map Cell.id := by
    rw [hs.lastIds_eq, hc, candidates]
  simp only [Lru.sweep, hg, ok_bind, hl, pure_eq_ok]
  apply (h.foldlM_examine (l.candidates budget) hx {}).bind
  rintro ⟨l₁, s⟩ ⟨rfl, h₁, hs₁, hct⟩
  refine ⟨rfl, ⟨h₁.nonempty, h₁.sound, h₁.mapped⟩,
    ⟨hs₁.size_eq, hs₁.oldest_eq, hs₁.younger, hs₁.other, hs₁.bitmap_eq, hs₁.mem_iff⟩, ?_⟩
  exact congrArg (Counters.add · _) hct

lemma refill (h : l.Coherent) (budget : Nat) :
    Meets (l.refill budget) (fun r => r.2.Coherent ∧
      (r.1 = true ↔ (l.cells l.oldest).length < budget / 4) ∧
      (if r.1 then Aged l r.2 else r.2 = l)) l.Overfull := by
  obtain ⟨gen, hg, hs, hc⟩ := h.oldest_generation
  have hsz : gen.size = (l.cells l.oldest).length := by rw [Generation.size, hs.size_eq, hc]
  simp only [Lru.refill, hg, ok_bind, hsz]
  split_ifs with hb
  · apply h.age.bind
    intro l' ha
    exact ⟨ha.1, by simpa using hb, ha.2⟩
  · exact ⟨h, by simpa using hb, rfl⟩

lemma scan_of_empty (h : l.Coherent) (he : l.cells l.oldest = []) (budget : Nat) :
    Meets (l.scan budget) (fun r => r.1 = { aged := true } ∧ r.2.Coherent ∧ Aged l r.2)
      l.Overfull := by
  obtain ⟨gen, hg, hs, hc⟩ := h.oldest_generation
  have hem : gen.frames.isEmpty = true := by simp [Arena.isEmpty, hs.size_eq, hc, he]
  simp only [Lru.scan, hg, ok_bind, hem, if_true]
  apply h.age.bind
  exact fun l' ha => ⟨rfl, ha⟩

lemma scan_eq_of_ne_nil (h : l.Coherent) (hne : l.cells l.oldest ≠ []) (budget : Nat) :
    l.scan budget = l.sweep budget >>= fun r => r.2.refill budget >>= fun r' =>
      r'.2.checkSizes >>= fun _ => .ok ({ r.1 with aged := r'.1 }, r'.2) := by
  obtain ⟨gen, hg, hs, hc⟩ := h.oldest_generation
  have hem : gen.frames.isEmpty = false := by simpa [Arena.isEmpty, hs.size_eq, hc] using hne
  simp only [Lru.scan, hg, ok_bind, hem, Bool.false_eq_true, if_false, pure_eq_ok]

lemma scan_of_ne_nil (h : l.Coherent) (hne : l.cells l.oldest ≠ []) (budget : Nat) :
    Meets (l.scan budget) (fun r => ∃ l₁, Scanned l l₁ r.2 budget r.1) l.Overfull := by
  rw [h.scan_eq_of_ne_nil hne]
  apply (h.sweep budget).bind
  rintro ⟨s, l₁⟩ ⟨rfl, h₁, hs₁, hct⟩
  have hex : l₁.Overfull → l.Overfull :=
    h.overfull_of h₁ fun id hid => ((hs₁.mem_iff id).mp hid).1
  apply ((h₁.refill budget).mono (fun _ hr => hr) hex).bind
  rintro ⟨aged, l'⟩ ⟨h', hiff, hif⟩
  rw [h'.checkSizes, ok_bind]
  exact ⟨l₁, rfl, h₁, h', hs₁, hct, hiff, hif⟩

lemma candidates_nodup (h : l.Coherent) (budget : Nat) :
    ((l.candidates budget).map Cell.id).Nodup := by
  have hn : ((l.cells l.oldest).reverse.map Cell.id).Nodup := by
    rw [List.map_reverse]
    exact List.nodup_reverse.mpr (h.ids_nodup l.oldest)
  exact ((List.take_sublist _ _).map Cell.id).nodup hn

lemma evicted_nodup (h : l.Coherent) (budget : Nat) :
    ((l.verdict budget).evicted.map Cell.id).Nodup :=
  (Bitmap.sift_evicted_ids _ _).nodup (h.candidates_nodup budget)

lemma contains_of_evicted (h : l.Coherent) (budget : Nat) {id : FrameId}
    (hid : id ∈ (l.verdict budget).evicted.map Cell.id) : l.contains id = true := by
  obtain ⟨c, hc, rfl⟩ := List.mem_map.mp hid
  exact h.contains_of_mem
    (mem_cells_of_mem_candidates ((Bitmap.sift_evicted_sublist _ _).mem hc))

end Coherent

namespace Scanned

variable {l₁ l' : Lru} {budget : Nat} {s : Scan}

lemma evicted_eq (hs : Scanned l l₁ l' budget s) :
    s.evicted.toList = (l.verdict budget).evicted.map Cell.id := by
  rw [hs.scan_eq]
  simp [Scan.after]

lemma size_eq (hs : Scanned l l₁ l' budget s) : l'.generations.size = l.generations.size := by
  have hr := hs.refilled
  split_ifs at hr
  · exact hr.size_eq.trans hs.sifts.size_eq
  · rw [hr, hs.sifts.size_eq]

lemma words_eq (hs : Scanned l l₁ l' budget s) (g : Nat) : (l'.bitmap g).size = (l.bitmap g).size := by
  have hswept : (l₁.bitmap g).size = (l.bitmap g).size := by
    rw [hs.sifts.bitmap_eq]
    by_cases hg : g = l.oldest
    · rw [hg, Function.update_self, verdict, Bitmap.size_sift]
    · rw [Function.update_of_ne hg]
  have hr := hs.refilled
  split_ifs at hr
  · rw [hr.words_eq, hswept]
  · rw [hr, hswept]

lemma order_eq (hs : Scanned l l₁ l' budget s) : l'.order = l₁.order := by
  have hr := hs.refilled
  split_ifs at hr
  · exact hr.order_eq
  · rw [hr]

lemma order_perm (hs : Scanned l l₁ l' budget s) (h : l.Coherent) :
    (s.evicted.toList ++ l'.order).Perm l.order := by
  rw [hs.evicted_eq, hs.order_eq]
  have hd : ((l.verdict budget).evicted.map Cell.id ++ l₁.order).Nodup := by
    refine (h.evicted_nodup budget).append hs.swept.order_nodup ?_
    intro id hid ho
    exact ((hs.sifts.mem_iff id).mp (hs.swept.mem_order.mp ho)).2 hid
  apply (List.perm_ext_iff_of_nodup hd h.order_nodup).mpr
  intro id
  rw [List.mem_append, hs.swept.mem_order, h.mem_order, hs.sifts.mem_iff]
  have hc : id ∈ (l.verdict budget).evicted.map Cell.id → l.contains id = true :=
    h.contains_of_evicted budget
  tauto

lemma contains_of_contains (hs : Scanned l l₁ l' budget s) (h : l.Coherent) {id : FrameId}
    (hid : l'.contains id = true) : l.contains id = true := by
  rw [← hs.coherent.mem_order] at hid
  rw [← h.mem_order, ← (hs.order_perm h).mem_iff]
  exact List.mem_append_right _ hid

lemma evicted_size_le (hs : Scanned l l₁ l' budget s) : s.evicted.size ≤ budget := by
  have hl := (Bitmap.sift_evicted_sublist (l.bitmap l.oldest) (l.candidates budget)).length_le
  have he := congrArg List.length hs.evicted_eq
  rw [length_candidates] at hl
  simp only [Array.length_toList, List.length_map, verdict] at he
  omega

end Scanned

lemma Coherent.scan (h : l.Coherent) (budget : Nat) :
    Meets (l.scan budget) (fun r => r.2.Coherent ∧ r.2.generations.size = l.generations.size ∧
      (r.1.evicted.toList ++ r.2.order).Perm l.order ∧ r.1.evicted.size ≤ budget) l.Overfull := by
  by_cases he : l.cells l.oldest = []
  · apply (h.scan_of_empty he budget).mono ?_ id
    rintro ⟨s, l'⟩ ⟨rfl, h', hag⟩
    exact ⟨h', hag.size_eq, by simp [hag.order_eq], Nat.zero_le _⟩
  · apply (h.scan_of_ne_nil he budget).mono ?_ id
    rintro ⟨s, l'⟩ ⟨l₁, hs⟩
    exact ⟨hs.coherent, hs.size_eq, hs.order_perm h, hs.evicted_size_le⟩

structure Counted (l l' : Lru) (s : Scan) : Prop where
  scanned_eq : l'.counters.scanned = l.counters.scanned + s.scanned
  evicted_eq : l'.counters.evicted = l.counters.evicted + s.evicted.size
  promoted_eq : l'.counters.promoted = l.counters.promoted + s.promoted
  examined_eq : s.scanned = s.evicted.size + s.promoted

lemma Scanned.counted {l₁ l' : Lru} {budget : Nat} {s : Scan} (hs : Scanned l l₁ l' budget s) :
    Counted l l' s := by
  have hct := hs.counters_eq
  have hr := hs.refilled
  have hsum : s.scanned = s.evicted.size + s.promoted := by
    rw [hs.scan_eq]
    simp [Scan.after]
  have hadd : l₁.counters = l.counters.add s := by
    rw [hct, hs.scan_eq]
    rfl
  split_ifs at hr
  · have hag := hr.counters_eq
    rw [hadd] at hag
    exact ⟨congrArg Counters.scanned hag, congrArg Counters.evicted hag,
      congrArg Counters.promoted hag, hsum⟩
  · rw [hr]
    exact ⟨congrArg Counters.scanned hadd, congrArg Counters.evicted hadd,
      congrArg Counters.promoted hadd, hsum⟩

lemma Coherent.scan_counted (h : l.Coherent) {l' : Lru} {budget : Nat} {s : Scan}
    (hs : l.scan budget = .ok (s, l')) : Counted l l' s := by
  by_cases he : l.cells l.oldest = []
  · obtain ⟨hsc, _, hag⟩ := (h.scan_of_empty he budget).of_eq_ok hs
    obtain rfl : s = { aged := true } := hsc
    have hct : l'.counters = _ := hag.counters_eq
    refine ⟨?_, ?_, ?_, rfl⟩
    all_goals
      rw [hct]
      rfl
  · obtain ⟨l₁, hsc⟩ := (h.scan_of_ne_nil he budget).of_eq_ok hs
    exact hsc.counted

lemma Scanned.agings_eq {l₁ l' : Lru} {budget : Nat} {s : Scan} (hs : Scanned l l₁ l' budget s) :
    l'.counters.agings = l.counters.agings + s.aged.toNat := by
  have hswept : l₁.counters.agings = l.counters.agings := by
    rw [hs.counters_eq]
    rfl
  have hr := hs.refilled
  cases ha : s.aged with
  | true =>
    rw [ha, if_pos rfl] at hr
    rw [hr.counters_eq, hswept]
    rfl
  | false =>
    rw [ha, if_neg Bool.false_ne_true] at hr
    rw [hr, hswept]
    rfl

lemma Scanned.scanned_eq {l₁ l' : Lru} {budget : Nat} {s : Scan} (hs : Scanned l l₁ l' budget s) :
    s.scanned = min budget (l.cells l.oldest).length := by
  rw [hs.scan_eq, ← length_candidates, ← Bitmap.length_sift (l.bitmap l.oldest)]
  exact Nat.zero_add _

lemma Coherent.scan_agings (h : l.Coherent) {l' : Lru} {budget : Nat} {s : Scan}
    (hs : l.scan budget = .ok (s, l')) : l'.counters.agings = l.counters.agings + s.aged.toNat ∧
      (s.scanned = 0 → s.aged = true ∨ budget = 0) := by
  by_cases he : l.cells l.oldest = []
  · obtain ⟨hsc, _, hag⟩ := (h.scan_of_empty he budget).of_eq_ok hs
    obtain rfl : s = { aged := true } := hsc
    exact ⟨congrArg Counters.agings hag.counters_eq, fun _ => Or.inl rfl⟩
  · obtain ⟨l₁, hsc⟩ := (h.scan_of_ne_nil he budget).of_eq_ok hs
    refine ⟨hsc.agings_eq, fun hzero => Or.inr ?_⟩
    have hmin : s.scanned = _ := hsc.scanned_eq
    have hpos := List.length_pos_of_ne_nil he
    omega

namespace Consistent

lemma scan_of_empty (h : l.Consistent) (he : l.cells l.oldest = []) (budget : Nat) :
    ∃ l', l.scan budget = .ok ({ aged := true }, l') ∧ l'.Consistent ∧ Aged l l' := by
  obtain ⟨⟨s, l'⟩, hsc, rfl, h', hag⟩ :=
    (h.toCoherent.scan_of_empty he budget).exists_ok h.not_overfull
  exact ⟨l', hsc, h.of_coherent h' fun id hid => (hag.contains_eq id).symm.trans hid, hag⟩

lemma scan_of_ne_nil (h : l.Consistent) (hne : l.cells l.oldest ≠ []) (budget : Nat) :
    ∃ l₁ l' s, l.scan budget = .ok (s, l') ∧ l'.Consistent ∧ Scanned l l₁ l' budget s := by
  obtain ⟨⟨s, l'⟩, hsc, l₁, hs⟩ := (h.toCoherent.scan_of_ne_nil hne budget).exists_ok h.not_overfull
  exact ⟨l₁, l', s, hsc, h.of_coherent hs.coherent fun _ => hs.contains_of_contains h.toCoherent, hs⟩

lemma scan (h : l.Consistent) (budget : Nat) :
    ∃ s l', l.scan budget = .ok (s, l') ∧ l'.Consistent ∧
      l'.generations.size = l.generations.size ∧ (s.evicted.toList ++ l'.order).Perm l.order ∧
      s.evicted.size ≤ budget := by
  obtain ⟨⟨s, l'⟩, hsc, h', hsz, hp, hle⟩ := (h.toCoherent.scan budget).exists_ok h.not_overfull
  refine ⟨s, l', hsc, h.of_coherent h' ?_, hsz, hp, hle⟩
  intro id hid
  exact h.mem_order.mp (hp.mem_iff.mp (List.mem_append_right _ (h'.mem_order.mpr hid)))

end Consistent

end Lru

end FramePool
