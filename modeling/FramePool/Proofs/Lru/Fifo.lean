import FramePool.Proofs.Lru.History

/-! Without accesses an engine is one queue: frames leave it in the order in which they came. -/

namespace FramePool

lemma Bitmap.sift_of_unmarked {b : Bitmap} (hb : ∀ id, b.marked id = false) (cs : List Cell) :
    b.sift cs = ⟨cs, [], b⟩ := by
  induction cs with
  | nil => rfl
  | cons c cs ih => simp [Bitmap.sift, hb, ih]

namespace Lru

def Op.plain : Op → Bool
  | .touch _ | .retire _ => false
  | _ => true

def enqueue (q : List FrameId) : Turn → List FrameId
  | (.insert id, _) => id :: q
  | (.remove id, .removed true) => q.erase id
  | (_, .scanned s) => q.filter (· ∉ s.evicted.toList)
  | _ => q

def append (q : List FrameId) : Turn → List FrameId
  | (.insert id, _) => id :: q
  | (.remove id, .removed true) => q.erase id
  | _ => q

def residents (history : List Turn) : List FrameId := history.foldl enqueue []

def additions (history : List Turn) : List FrameId := history.foldl append []

def Unmarked (l : Lru) : Prop := ∀ g id, (l.bitmap g).marked id = false

variable {l l' : Lru} {budget : Nat} {b : Bitmap}

lemma filter_not_mem_append {kept gone : List FrameId} (h : (kept ++ gone.reverse).Nodup) :
    (kept ++ gone.reverse).filter (· ∉ gone) = kept := by
  have hk : ∀ id ∈ kept, id ∉ gone := fun id hid hg =>
    List.disjoint_of_nodup_append h hid (List.mem_reverse.mpr hg)
  rw [List.filter_append, List.filter_eq_self.mpr (by simpa using hk),
    List.filter_eq_nil_iff.mpr (by simp), List.append_nil]

lemma Aged.unmarked (h : Aged l l') : l'.Unmarked := by
  intro g id
  rw [h.bitmap_eq, Bitmap.marked_wipe]

lemma Moved.unmarked (h : Moved l l') (hu : l.Unmarked) : l'.Unmarked := by
  intro g id
  rw [h.bitmap_eq, hu]

lemma Coherent.order_split (h : l.Coherent) :
    l.order = (List.range l.oldest).flatMap l.ids ++ l.ids l.oldest := by
  rw [h.sound.order_eq, h.size_eq_succ, List.range_succ, List.flatMap_append, List.flatMap_singleton]

lemma ids_oldest_split (l : Lru) (budget : Nat) : l.ids l.oldest =
    (l.unexamined budget).map Cell.id ++ ((l.candidates budget).map Cell.id).reverse := by
  rw [ids, ← unexamined_append_candidates l budget, List.map_append, List.map_reverse]

lemma Sifts.order_eq (hs : Sifts l l' (l.unexamined budget) [] ⟨l.candidates budget, [], b⟩)
    (h : l.Coherent) (h' : l'.Coherent) :
    l.order = l'.order ++ ((l.candidates budget).map Cell.id).reverse := by
  have ho : l'.oldest = l.oldest := by simp [oldest, hs.size_eq]
  have hids : ∀ k ∈ List.range l.oldest, l'.ids k = l.ids k := by
    intro k hk
    have hlt := List.mem_range.mp hk
    by_cases hk' : k = l.oldest - 1
    · obtain ⟨moved, hc, hm⟩ := hs.younger (by omega)
      obtain rfl : moved = [] := by simpa using hm
      rw [hk', ids, ids, hc, List.nil_append]
    · rw [ids, ids, hs.other k (by omega) hk']
  have hlast : l'.ids l.oldest = (l.unexamined budget).map Cell.id := by
    rw [ids, hs.oldest_eq]
    split_ifs <;> simp
  rw [h.order_split, h'.order_split, ho, hlast, List.flatMap_congr hids, ids_oldest_split l budget,
    List.append_assoc]

lemma Consistent.scan_unmarked (h : l.Consistent) (hu : l.Unmarked) (budget : Nat) :
    ∃ s l', l.scan budget = .ok (s, l') ∧ l'.Consistent ∧ l'.Unmarked ∧ s.promoted = 0 ∧
      l.order = l'.order ++ s.evicted.toList.reverse ∧
      s.evicted.toList = l.order.reverse.take (min budget (l.cells l.oldest).length) := by
  by_cases he : l.cells l.oldest = []
  · obtain ⟨l', hsc, h', hag⟩ := h.scan_of_empty he budget
    exact ⟨_, l', hsc, h', hag.unmarked, rfl, by simp [hag.order_eq], by simp [he]⟩
  obtain ⟨l₁, l', s, hsc, h', hs⟩ := h.scan_of_ne_nil he budget
  have hv : l.verdict budget = ⟨l.candidates budget, [], l.bitmap l.oldest⟩ :=
    Bitmap.sift_of_unmarked (hu l.oldest) _
  have hsifts := hs.sifts
  have hev := hs.evicted_eq
  rw [hv] at hsifts hev
  have hu₁ : l₁.Unmarked := by
    intro g id
    rw [hsifts.bitmap_eq, Function.update_eq_self, hu]
  have hu' : l'.Unmarked := by
    have hr := hs.refilled
    split_ifs at hr
    · exact hr.unmarked
    · exact hr ▸ hu₁
  have ho := hsifts.order_eq h.toCoherent hs.swept
  refine ⟨s, l', hsc, h', hu', ?_, ?_, ?_⟩
  · rw [hs.scan_eq, hv]
    rfl
  · rw [ho, hs.order_eq, hev]
  · rw [ho, hev, ← length_candidates]
    simp

lemma Consistent.step_plain (h : l.Consistent) (hu : l.Unmarked) {op : Op} (ha : l.Allowed op)
    (hp : op.plain = true) :
    ∃ out l', l.step op = .ok (out, l') ∧ l'.Consistent ∧ l'.Unmarked ∧
      l'.order = enqueue l.order (op, out) ∧
      ∀ past, append (l.order ++ past) (op, out) = l'.order ++ (evicted (op, out)).reverse ++ past := by
  cases op with
  | insert id =>
    obtain ⟨l', hi, h', had⟩ := h.insert ha.1 (Nat.lt_of_succ_lt ha.2)
    have ho := had.order_eq h.toCoherent
    exact ⟨.done, l', by simp [Lru.step, hi], h', had.moved.unmarked hu, ho, fun past => by
      simp [append, evicted, ho]⟩
  | touch id => simp [Op.plain] at hp
  | scan budget =>
    obtain ⟨s, l', hs, h', hu', _, ho, _⟩ := h.scan_unmarked hu budget
    refine ⟨.scanned s, l', by simp [Lru.step, hs], h', hu', ?_, fun past => ?_⟩
    · have hn := h.order_nodup
      rw [ho] at hn
      change l'.order = l.order.filter (· ∉ s.evicted.toList)
      rw [ho, filter_not_mem_append hn]
    · simp [append, evicted, ho]
  | age =>
    obtain ⟨l', hag, h', hag'⟩ := h.age
    exact ⟨.done, l', by simp [Lru.step, hag], h', hag'.unmarked, hag'.order_eq, fun past => by
      simp [append, evicted, hag'.order_eq]⟩
  | remove id =>
    obtain ⟨l', hr, h', hrm⟩ := h.remove id
    have ho := hrm.order_eq
    refine ⟨.removed (l.contains id), l', by simp [Lru.step, hr], h', hrm.moved.unmarked hu, ?_⟩
    cases hid : l.contains id with
    | false =>
      have hno : id ∉ l.order := by simp [h.mem_order, hid]
      rw [List.erase_of_not_mem hno] at ho
      exact ⟨ho, fun past => by simp [append, evicted, ho]⟩
    | true =>
      have hin : id ∈ l.order := h.mem_order.mpr hid
      exact ⟨ho, fun past => by simp [append, evicted, ho, List.erase_append_left _ hin]⟩
  | retire e => simp [Op.plain] at hp

lemma Consistent.run_plain (h : l.Consistent) (hu : l.Unmarked) {ops : List Op} (hl : Legal ops l)
    (hp : ∀ op ∈ ops, op.plain = true) :
    ∃ outs l', Lru.run ops l = .ok (outs, l') ∧ l'.Consistent ∧ l'.Unmarked ∧
      l'.order = (ops.zip outs).foldl enqueue l.order ∧
      ∀ past, (ops.zip outs).foldl append (l.order ++ past) =
        l'.order ++ (evictions (ops.zip outs)).reverse ++ past := by
  induction ops generalizing l with
  | nil => exact ⟨[], l, rfl, h, hu, rfl, fun past => by simp [evictions]⟩
  | cons op ops ih =>
    obtain ⟨ha, hl⟩ := hl
    obtain ⟨hop, hp⟩ := List.forall_mem_cons.mp hp
    obtain ⟨out, l₁, hs, h₁, hu₁, ho₁, hap₁⟩ := h.step_plain hu ha hop
    rw [hs] at hl
    obtain ⟨outs, l', hr, h', hu', ho', hap'⟩ := ih h₁ hu₁ hl hp
    refine ⟨out :: outs, l', by simp [Lru.run, hs, hr], h', hu', ?_, fun past => ?_⟩
    · rw [ho', ho₁, List.zip_cons_cons, List.foldl_cons]
    · rw [List.zip_cons_cons, List.foldl_cons, hap₁, List.append_assoc, hap']
      simp [evictions]

/-- The generations in a row are the resident frames from the last added to the first added, and
the next scan takes from the end. All frames ever evicted have left in the order of their addition. -/
theorem queue_without_accesses {n words : Nat} {start : Lru} (hn : Lru.create n words = .ok start)
    {ops : List Op} (hl : Legal ops start) (hp : ∀ op ∈ ops, op.plain = true) :
    ∃ outs l, run ops start = .ok (outs, l) ∧ l.order = residents (ops.zip outs) ∧
      (∀ id, l.contains id = true ↔ id ∈ residents (ops.zip outs)) ∧
      additions (ops.zip outs) = l.order ++ (evictions (ops.zip outs)).reverse ∧
      ∀ budget, ∃ gen s l', l.generation l.oldest = .ok gen ∧ l.scan budget = .ok (s, l') ∧
        s.promoted = 0 ∧
        s.evicted.toList = (residents (ops.zip outs)).reverse.take (min budget gen.size) := by
  obtain ⟨rfl, hpos, _⟩ := create_ok hn
  have hu : (fresh n words).Unmarked := fun g id => fresh_marked n words g id
  obtain ⟨outs, l, hr, h, hu', ho, hap⟩ := (fresh_consistent n words hpos).run_plain hu hl hp
  rw [fresh_order n words hpos] at ho hap
  refine ⟨outs, l, hr, ho, fun id => ?_, ?_, fun budget => ?_⟩
  · rw [← h.mem_order, ho, residents]
  · simpa [additions] using hap []
  · obtain ⟨gen, hg, hs, hc⟩ := h.oldest_generation
    have hsz : gen.size = (l.cells l.oldest).length := by rw [Generation.size, hs.size_eq, hc]
    obtain ⟨s, l', hsc, _, _, hpr, _, hev⟩ := h.scan_unmarked hu' budget
    refine ⟨gen, s, l', hg, hsc, hpr, ?_⟩
    rw [hev, hsz, ho, residents]

theorem queue_with_holes_and_agings :
    ∃ start, Lru.create 3 1 = .ok start ∧
      let ops : List Op := [.insert 4, .insert 9, .age, .scan 2, .insert 2, .remove 9, .insert 9,
        .age, .scan 8, .insert 5]
      ∃ outs l, run ops start = .ok (outs, l) ∧ l.order = residents (ops.zip outs) ∧
        additions (ops.zip outs) = l.order ++ (evictions (ops.zip outs)).reverse := by
  refine ⟨fresh 3 1, rfl, ?_⟩
  obtain ⟨outs, l, hr, ho, _, ha, _⟩ := @queue_without_accesses 3 1 _ rfl
    [.insert 4, .insert 9, .age, .scan 2, .insert 2, .remove 9, .insert 9, .age, .scan 8, .insert 5]
    (by decide +kernel) (by decide)
  exact ⟨outs, l, hr, ho, ha⟩

end Lru

end FramePool
