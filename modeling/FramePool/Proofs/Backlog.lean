import FramePool.Proofs.Recency

/-! The queue of evictions stays short although entries of forgotten frames stay in it. Each remembered
frame has one entry that counts, and a frame too many costs the oldest of them. -/

namespace FramePool

namespace GhostList

structure Dated (order : List (FrameId × Nat)) (latest : Std.ExtTreeMap FrameId Nat) : Prop where
  increasing : (order.map Prod.snd).Pairwise (· < ·)
  le_latest : ∀ entry ∈ order, ∀ number, latest[entry.1]? = some number → entry.2 ≤ number

structure Tidy (g : GhostList) : Prop where
  size_le : g.order.size ≤ 2 * g.capacity
  increasing : (g.order.toList.map Prod.snd).Pairwise (· < ·)
  numbers_le : ∀ entry ∈ g.order.toList, entry.2 ≤ g.evictions
  count_eq_one : ∀ id number, g.latest[id]? = some number → g.order.toList.count (id, number) = 1
  stale_lt : ∀ entry ∈ g.order.toList, live g.latest entry = false →
    ∀ number, g.latest[entry.1]? = some number → entry.2 < number
  remembered_le : g.size ≤ g.capacity

/-- The entries that are popped until few enough frames are remembered. An empty queue has no rule. -/
inductive Trims (capacity : Nat) : List (FrameId × Nat) →
    Queue (FrameId × Nat) → Std.ExtTreeMap FrameId Nat →
    Queue (FrameId × Nat) → Std.ExtTreeMap FrameId Nat → Prop
  | enough {order latest} : latest.size ≤ capacity → Trims capacity [] order latest order latest
  | stale {entry popped order rest order' latest latest'} : capacity < latest.size →
      order.pop? = some (entry, rest) → live latest entry = false →
      Trims capacity popped rest latest order' latest' →
      Trims capacity (entry :: popped) order latest order' latest'
  | live {entry popped order rest order' latest latest'} : capacity < latest.size →
      order.pop? = some (entry, rest) → live latest entry = true →
      Trims capacity popped rest (latest.erase entry.1) order' latest' →
      Trims capacity (entry :: popped) order latest order' latest'

def DropsOldest (popped : List (FrameId × Nat)) (latest latest' : Std.ExtTreeMap FrameId Nat) : Prop :=
  ∃ stale oldest, popped = stale ++ [oldest] ∧ (∀ entry ∈ stale, live latest entry = false) ∧
    live latest oldest = true ∧ latest' = latest.erase oldest.1

variable {order order' : List (FrameId × Nat)} {latest latest' : Std.ExtTreeMap FrameId Nat}
  {queue queue' : Queue (FrameId × Nat)} {popped : List (FrameId × Nat)} {ids : List FrameId}
  {g : GhostList} {capacity n : Nat} {id : FrameId}

lemma live_iff {entry : FrameId × Nat} : live latest entry = true ↔ latest[entry.1]? = some entry.2 := by
  simp [live]

lemma contains_of_getElem? {number : Nat} (h : latest[id]? = some number) :
    latest.contains id = true := by
  rw [Std.ExtTreeMap.contains_eq_isSome_getElem?, h]
  rfl

namespace Dated

lemma sublist (h : Dated order latest) (hs : order'.Sublist order) : Dated order' latest :=
  ⟨h.increasing.sublist (hs.map _), fun entry he => h.le_latest entry (hs.subset he)⟩

lemma of_submap (h : Dated order latest)
    (hsub : ∀ (id : FrameId) (number : Nat), latest'[id]? = some number → latest[id]? = some number) :
    Dated order latest' :=
  ⟨h.increasing, fun entry he number hn => h.le_latest entry he number (hsub _ _ hn)⟩

lemma erase (h : Dated order latest) (id : FrameId) : Dated order (latest.erase id) := by
  apply h.of_submap
  intro k number hk
  rw [Std.ExtTreeMap.getElem?_erase] at hk
  split_ifs at hk
  exact hk

lemma record (h : Dated order latest) (id : FrameId) {number : Nat}
    (hn : ∀ entry ∈ order, entry.2 < number) :
    Dated (order ++ [(id, number)]) (latest.insert id number) := by
  constructor
  · rw [List.map_append, List.pairwise_append]
    refine ⟨h.increasing, List.pairwise_singleton _ _, ?_⟩
    simpa using fun old id he => hn (id, old) he
  · intro entry he current hc
    rw [Std.ExtTreeMap.getElem?_insert] at hc
    rw [List.mem_append, List.mem_singleton] at he
    split_ifs at hc with hk
    · obtain rfl := Option.some.inj hc
      cases he with
      | inl he => exact Nat.le_of_lt (hn entry he)
      | inr he => exact he ▸ Nat.le_refl _
    · cases he with
      | inl he => exact h.le_latest entry he current hc
      | inr he => simp [he] at hk

end Dated

namespace Trims

lemma size_le (h : Trims capacity popped queue latest queue' latest') : latest'.size ≤ capacity := by
  induction h with
  | enough hle => exact hle
  | stale _ _ _ _ ih => exact ih
  | live _ _ _ _ ih => exact ih

lemma toList_eq (h : Trims capacity popped queue latest queue' latest') :
    queue.toList = popped ++ queue'.toList := by
  induction h with
  | enough => rfl
  | stale _ hp _ _ ih => rw [Queue.toList_of_pop? hp, ih, List.cons_append]
  | live _ hp _ _ ih => rw [Queue.toList_of_pop? hp, ih, List.cons_append]

lemma dated (h : Trims capacity popped queue latest queue' latest') (hd : Dated queue.toList latest) :
    Dated queue'.toList latest' := by
  induction h with
  | enough => exact hd
  | stale _ hp _ _ ih =>
    rw [Queue.toList_of_pop? hp] at hd
    exact ih (hd.sublist (List.sublist_cons_self _ _))
  | live _ hp _ _ ih =>
    rw [Queue.toList_of_pop? hp] at hd
    exact ih ((hd.sublist (List.sublist_cons_self _ _)).erase _)

lemma eq_nil (h : Trims capacity popped queue latest queue' latest') (hle : latest.size ≤ capacity) :
    popped = [] ∧ latest' = latest := by
  cases h with
  | enough => exact ⟨rfl, rfl⟩
  | stale hlt => omega
  | live hlt => omega

lemma dropsOldest (h : Trims capacity popped queue latest queue' latest')
    (hone : latest.size = capacity + 1) : DropsOldest popped latest latest' := by
  induction h with
  | enough hle => omega
  | stale _ _ hs _ ih =>
    obtain ⟨stale, oldest, rfl, hstale, hlive, he⟩ := ih hone
    exact ⟨_, oldest, rfl, List.forall_mem_cons.mpr ⟨hs, hstale⟩, hlive, he⟩
  | @live entry _ _ _ _ latest _ _ _ hl ht _ =>
    have hknown : latest.contains entry.1 = true := contains_of_getElem? (live_iff.mp hl)
    have hsize : (latest.erase entry.1).size ≤ capacity := by
      rw [Std.ExtTreeMap.size_erase, if_pos hknown, hone]
      exact Nat.le_refl _
    obtain ⟨rfl, rfl⟩ := ht.eq_nil hsize
    exact ⟨[], entry, rfl, List.forall_mem_nil _, hl, rfl⟩

end Trims

lemma trims_of_size_le (h : (trim capacity n queue latest).2.size ≤ capacity) : ∃ popped,
    Trims capacity popped queue latest (trim capacity n queue latest).1
      (trim capacity n queue latest).2 := by
  induction n generalizing queue latest with
  | zero => exact ⟨[], .enough h⟩
  | succ n ih =>
    rw [trim] at h ⊢
    split_ifs at h ⊢ with hle
    · exact ⟨[], .enough hle⟩
    · cases hp : queue.pop? with
      | none =>
        rw [hp] at h
        exact absurd h hle
      | some found =>
        obtain ⟨⟨id, number⟩, rest⟩ := found
        rw [hp] at h
        simp only at h ⊢
        split_ifs at h ⊢ with hl
        · obtain ⟨popped, ht⟩ := ih h
          exact ⟨_, .live (Nat.lt_of_not_le hle) hp (live_iff.mpr hl) ht⟩
        · obtain ⟨popped, ht⟩ := ih h
          exact ⟨_, .stale (Nat.lt_of_not_le hle) hp (Bool.eq_false_iff.mpr (live_iff.not.mpr hl)) ht⟩

namespace Recalls

lemma count_eq_one (h : Recalls order latest ids) {number : Nat} (hl : latest[id]? = some number) :
    order.count (id, number) = 1 := by
  have hmem : id ∈ (order.filter (live latest)).map Prod.fst := by
    rw [h.live_eq, List.mem_reverse, ← h.mem_iff]
    exact contains_of_getElem? hl
  obtain ⟨⟨_, other⟩, he, rfl⟩ := List.mem_map.mp hmem
  obtain rfl : other = number :=
    Option.some.inj ((live_iff.mp (List.mem_filter.mp he).2).symm.trans hl)
  have hnodup : (order.filter (live latest)).Nodup := by
    apply List.Nodup.of_map Prod.fst
    rw [h.live_eq]
    exact List.nodup_reverse.mpr h.nodup
  rw [← List.count_filter (p := live latest) (List.mem_filter.mp he).2]
  exact List.count_eq_one_of_mem hnodup he

lemma size_compact_le (h : Recalls queue.toList latest ids) (hle : ids.length ≤ capacity) :
    (GhostList.compact capacity queue latest).size ≤ 2 * capacity := by
  rw [GhostList.compact]
  split_ifs with hlong
  · have hlen := congrArg List.length h.live_eq
    rw [List.length_map, List.length_reverse] at hlen
    rw [← Queue.length_toList, Queue.toList_filter]
    change (queue.toList.filter (live latest)).length ≤ _
    omega
  · exact Nat.le_of_not_lt hlong

end Recalls

lemma toList_compact_sublist :
    (compact capacity queue latest).toList.Sublist queue.toList := by
  rw [compact]
  split_ifs
  · rw [Queue.toList_filter]
    exact List.filter_sublist
  · exact List.Sublist.refl _

/-- Recording `id` trims the queue with the new entry, and then compacts it. -/
def TrimsOnce (g : GhostList) (id : FrameId) : Prop :=
  let latest := g.latest.insert id (g.evictions + 1)
  ∃ popped order', Trims g.capacity popped (g.order.push (id, g.evictions + 1)) latest order'
      (g.record id).latest ∧
    (g.record id).order = compact g.capacity order' (g.record id).latest ∧
    (latest.size ≤ g.capacity → popped = []) ∧
    (g.capacity < latest.size → DropsOldest popped latest (g.record id).latest)

structure Orderly (capacity : Nat) (g : GhostList) (ids : List FrameId) : Prop
    extends Remembers capacity g ids where
  dated : Dated g.order.toList g.latest
  size_le : g.order.size ≤ 2 * capacity

namespace Orderly

lemma empty (capacity : Nat) : Orderly capacity (GhostList.empty capacity) [] := by
  refine ⟨.empty capacity, ⟨?_, ?_⟩, Nat.zero_le _⟩
  · simp [GhostList.empty]
  · simp [GhostList.empty]

lemma tidy (h : Orderly capacity g ids) : g.Tidy := by
  obtain rfl := h.capacity_eq
  refine ⟨h.size_le, h.dated.increasing, h.numbers_le, fun id number => h.recalls.count_eq_one, ?_,
    le_of_eq_of_le h.recalls.size_eq h.length_le⟩
  intro entry he hstale number hn
  apply Nat.lt_of_le_of_ne (h.dated.le_latest entry he number hn)
  rintro rfl
  rw [live_iff.mpr hn] at hstale
  cases hstale

lemma forget (h : Orderly capacity g ids) (id : FrameId) :
    Orderly capacity (g.forget id).2 (ids.erase id) :=
  ⟨(h.toRemembers.forget id).2, h.dated.erase id, h.size_le⟩

lemma trims (h : Orderly capacity g ids) (id : FrameId) :
    let order := g.order.push (id, g.evictions + 1)
    let latest := g.latest.insert id (g.evictions + 1)
    ∃ popped, Trims capacity popped order latest (trim capacity order.size order latest).1
      (trim capacity order.size order latest).2 := by
  apply trims_of_size_le
  rw [((h.push id).trim (Nat.le_refl _) capacity).1.size_eq]
  exact List.length_take_le _ _

lemma record (h : Orderly capacity g ids) (id : FrameId) :
    Orderly capacity (g.record id) ((id :: ids.erase id).take capacity) := by
  obtain rfl := h.capacity_eq
  obtain ⟨popped, ht⟩ := h.trims id
  obtain ⟨hr, _⟩ := (h.push id).trim (Nat.le_refl _) g.capacity
  have hd : Dated (g.order.push (id, g.evictions + 1)).toList (g.latest.insert id (g.evictions + 1)) := by
    rw [Queue.toList_push]
    exact h.dated.record id fun entry he => Nat.lt_succ_of_le (h.numbers_le entry he)
  exact ⟨h.toRemembers.record id, (ht.dated hd).sublist toList_compact_sublist,
    hr.size_compact_le (List.length_take_le _ _)⟩

lemma trimsOnce (h : Orderly capacity g ids) (id : FrameId) : g.TrimsOnce id := by
  obtain rfl := h.capacity_eq
  obtain ⟨popped, ht⟩ := h.trims id
  refine ⟨popped, _, ht, rfl, fun hle => (ht.eq_nil hle).1, fun hlt => ht.dropsOldest ?_⟩
  have hsize : (g.latest.insert id (g.evictions + 1)).size ≤ g.latest.size + 1 :=
    Std.ExtTreeMap.size_insert_le
  have hle := h.tidy.remembered_le
  rw [size] at hle
  omega

lemma step (h : Orderly capacity g ids) (op : Op) :
    Orderly capacity (GhostList.step g op).2 (recollect capacity ids op).2 := by
  cases op with
  | record id =>
    rw [← h.take_eq id]
    exact h.record id
  | forget id => exact h.forget id

lemma run (h : Orderly capacity g ids) (ops : List Op) :
    Orderly capacity (runWith GhostList.step ops g).2 (runWith (recollect capacity) ops ids).2 := by
  induction ops generalizing g ids with
  | nil => exact h
  | cons op ops ih => exact ih (h.step op)

end Orderly

theorem backlog_is_tidy (capacity : Nat) (ops : List Op) :
    let g := (runWith step ops (empty capacity)).2
    (∀ start, create capacity = .ok start → start = empty capacity) ∧
      g.capacity = capacity ∧ g.Tidy ∧ ∀ id, g.TrimsOnce id := by
  intro g
  have h := (Orderly.empty capacity).run ops
  exact ⟨fun _ => create_eq_empty, h.capacity_eq, h.tidy, h.trimsOnce⟩

end GhostList

end FramePool
