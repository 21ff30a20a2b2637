import FramePool.GhostList
import Mathlib.Data.List.Nodup
import Mathlib.Data.List.Perm.Subperm
import Mathlib.Tactic.Common

/-! The frames evicted last are a list by latest eviction. Stale entries of the queue do not show. -/

namespace FramePool

namespace GhostList

inductive Op where
  | record (id : FrameId)
  | forget (id : FrameId)

def step (g : GhostList) : Op → Option Bool × GhostList
  | .record id => (none, g.record id)
  | .forget id => ((g.forget id).1, (g.forget id).2)

def recollect (capacity : Nat) (ids : List FrameId) : Op → Option Bool × List FrameId
  | .record id =>
      let ids := id :: ids.erase id
      (none, if capacity < ids.length then ids.dropLast else ids)
  | .forget id => (decide (id ∈ ids), ids.erase id)

def runWith {α : Type} (step : α → Op → Option Bool × α) : List Op → α → List (Option Bool) × α
  | [], a => ([], a)
  | op :: ops, a =>
      let (out, a) := step a op
      let (outs, a) := runWith step ops a
      (out :: outs, a)

def live (latest : Std.ExtTreeMap FrameId Nat) (entry : FrameId × Nat) : Bool :=
  latest[entry.1]? == some entry.2

def compacted (g : GhostList) : GhostList := { g with order := g.order.filter (live g.latest) }

structure Recalls (order : List (FrameId × Nat)) (latest : Std.ExtTreeMap FrameId Nat)
    (ids : List FrameId) : Prop where
  live_eq : (order.filter (live latest)).map Prod.fst = ids.reverse
  mem_iff : ∀ id, latest.contains id = true ↔ id ∈ ids
  nodup : ids.Nodup

structure Remembers (capacity : Nat) (g : GhostList) (ids : List FrameId) : Prop where
  recalls : Recalls g.order.toList g.latest ids
  numbers_le : ∀ entry ∈ g.order.toList, entry.2 ≤ g.evictions
  length_le : ids.length ≤ capacity
  capacity_eq : g.capacity = capacity

variable {order : List (FrameId × Nat)} {latest other : Std.ExtTreeMap FrameId Nat}
  {ids : List FrameId} {g : GhostList} {capacity : Nat}

lemma filter_live_of_agree {id : FrameId} (ho : ∀ k, k ≠ id → other[k]? = latest[k]?)
    (hid : ∀ entry ∈ order, entry.1 = id → live other entry = false) :
    order.filter (live other) = (order.filter (live latest)).filter (·.1 ≠ id) := by
  rw [List.filter_filter]
  apply List.filter_congr
  intro entry he
  by_cases hk : entry.1 = id
  · simp [hid entry he hk, hk]
  · simp [live, ho _ hk, hk]

namespace Recalls

lemma size_eq (h : Recalls order latest ids) : latest.size = ids.length := by
  rw [← Std.ExtTreeMap.length_keys]
  apply List.Perm.length_eq
  apply (List.perm_ext_iff_of_nodup Std.ExtTreeMap.nodup_keys h.nodup).mpr
  intro id
  rw [Std.ExtTreeMap.mem_keys, ← Std.ExtTreeMap.contains_iff_mem, h.mem_iff]

lemma filter_map_fst (h : Recalls order latest ids) (id : FrameId) :
    ((order.filter (live latest)).filter (·.1 ≠ id)).map Prod.fst = (ids.erase id).reverse := by
  have hf : (fun entry : FrameId × Nat => decide (entry.1 ≠ id)) = (fun k => decide (k ≠ id)) ∘ Prod.fst :=
    rfl
  rw [hf, ← List.filter_map, h.live_eq, List.filter_reverse, h.nodup.erase_eq_filter]
  congr 2
  funext k
  by_cases hk : k = id <;> simp [hk]

lemma forget (h : Recalls order latest ids) (id : FrameId) :
    Recalls order (latest.erase id) (ids.erase id) := by
  constructor
  · have ho : order.filter (live (latest.erase id)) =
        (order.filter (live latest)).filter (·.1 ≠ id) := by
      apply filter_live_of_agree
      · intro k hk
        simp [Std.ExtTreeMap.getElem?_erase, Ne.symm hk]
      · rintro ⟨k, number⟩ _ rfl
        simp [live]
    rw [ho, h.filter_map_fst]
  · intro k
    rw [Std.ExtTreeMap.contains_erase, h.nodup.mem_erase_iff, Bool.and_eq_true, h.mem_iff]
    by_cases hk : k = id
    · simp [hk]
    · simp [hk, Ne.symm hk]
  · exact h.nodup.erase id

lemma record (h : Recalls order latest ids) (id : FrameId) {number : Nat}
    (hn : ∀ entry ∈ order, entry.2 < number) :
    Recalls (order ++ [(id, number)]) (latest.insert id number) (id :: ids.erase id) := by
  constructor
  · have ho : order.filter (live (latest.insert id number)) =
        (order.filter (live latest)).filter (·.1 ≠ id) := by
      apply filter_live_of_agree
      · intro k hk
        simp [Std.ExtTreeMap.getElem?_insert, Ne.symm hk]
      · rintro ⟨k, old⟩ he rfl
        have := hn _ he
        simp [live]
        omega
    have hl : live (latest.insert id number) (id, number) = true := by simp [live]
    rw [List.filter_append, List.map_append, ho, h.filter_map_fst]
    simp [hl]
  · intro k
    rw [Std.ExtTreeMap.contains_insert, Bool.or_eq_true, h.mem_iff, List.mem_cons,
      h.nodup.mem_erase_iff]
    by_cases hk : k = id
    · simp [hk]
    · simp [hk, Ne.symm hk]
  · rw [List.nodup_cons]
    exact ⟨h.nodup.not_mem_erase, h.nodup.erase id⟩

lemma of_stale {entry : FrameId × Nat} (h : Recalls (entry :: order) latest ids)
    (he : live latest entry = false) : Recalls order latest ids := by
  refine ⟨?_, h.mem_iff, h.nodup⟩
  rw [← h.live_eq, List.filter_cons_of_neg (by simp [he])]

lemma of_live {entry : FrameId × Nat} (h : Recalls (entry :: order) latest ids)
    (he : live latest entry = true) : Recalls order (latest.erase entry.1) ids.dropLast := by
  have hids : ids = ((order.filter (live latest)).map Prod.fst).reverse ++ [entry.1] := by
    have hl := h.live_eq
    rw [List.filter_cons_of_pos he, List.map_cons] at hl
    rw [← List.reverse_reverse ids, ← hl, List.reverse_cons]
  have hn := h.nodup
  rw [hids] at hn
  have hlast : ids.erase entry.1 = ids.dropLast := by
    have hno : entry.1 ∉ ((order.filter (live latest)).map Prod.fst).reverse := fun hm =>
      (List.nodup_append.mp hn).2.2 _ hm _ List.mem_cons_self rfl
    rw [hids, List.erase_append_right _ hno, List.erase_cons_head, List.dropLast_concat,
      List.append_nil]
  have hf := h.forget entry.1
  rw [hlast] at hf
  exact hf.of_stale (by simp [live])

lemma compact (h : Recalls order latest ids) : Recalls (order.filter (live latest)) latest ids := by
  refine ⟨?_, h.mem_iff, h.nodup⟩
  rw [List.filter_filter]
  simpa using h.live_eq

lemma eq_nil (h : Recalls [] latest ids) : ids = [] := by simpa using h.live_eq.symm

lemma trim {queue : Queue (FrameId × Nat)} (h : Recalls queue.toList latest ids) {n : Nat}
    (hn : queue.size ≤ n) (capacity : Nat) :
    Recalls (GhostList.trim capacity n queue latest).1.toList
        (GhostList.trim capacity n queue latest).2 (ids.take capacity) ∧
      ∀ entry ∈ (GhostList.trim capacity n queue latest).1.toList, entry ∈ queue.toList := by
  -- An entry is popped per step. A stale one leaves `ids` alone, a live one is the oldest of them.
  induction n generalizing queue latest ids with
  | zero =>
    have hq : queue.toList = [] := by
      rw [← List.length_eq_zero_iff, Queue.length_toList]
      exact Nat.le_zero.mp hn
    have hids : ids = [] := by
      rw [hq] at h
      exact h.eq_nil
    subst hids
    rw [List.take_nil]
    exact ⟨h, fun _ he => he⟩
  | succ n ih =>
    rw [GhostList.trim]
    by_cases hc : latest.size ≤ capacity
    · rw [if_pos hc, List.take_of_length_le (h.size_eq ▸ hc)]
      exact ⟨h, fun _ he => he⟩
    rw [if_neg hc]
    cases hp : queue.pop? with
    | none =>
      rw [Queue.pop?_eq_none hp] at h
      have := h.size_eq
      simp [h.eq_nil] at this
      omega
    | some popped =>
      obtain ⟨⟨id, number⟩, rest⟩ := popped
      have hq := Queue.toList_of_pop? hp
      have hrest : rest.size ≤ n := by
        have := congrArg List.length hq
        simp only [Queue.length_toList, List.length_cons] at this
        omega
      rw [hq] at h
      have hsub : ∀ entry ∈ rest.toList, entry ∈ queue.toList := by
        intro entry he
        rw [hq]
        exact List.mem_cons_of_mem _ he
      by_cases hl : latest[id]? = some number
      · have hdrop : ids.take capacity = ids.dropLast.take capacity := by
          have := h.size_eq
          rw [List.dropLast_eq_take, List.take_take, Nat.min_eq_left (by omega)]
        obtain ⟨ht, hs⟩ := ih (h.of_live (by simp [live, hl])) hrest
        simp only [if_pos hl, hdrop]
        exact ⟨ht, fun entry he => hsub entry (hs entry he)⟩
      · obtain ⟨ht, hs⟩ := ih (h.of_stale (by simp [live, hl])) hrest
        simp only [if_neg hl]
        exact ⟨ht, fun entry he => hsub entry (hs entry he)⟩

lemma compact_queue {queue : Queue (FrameId × Nat)} (h : Recalls queue.toList latest ids)
    (capacity : Nat) :
    Recalls (GhostList.compact capacity queue latest).toList latest ids ∧
      ∀ entry ∈ (GhostList.compact capacity queue latest).toList, entry ∈ queue.toList := by
  rw [GhostList.compact]
  split_ifs
  · rw [Queue.toList_filter]
    exact ⟨h.compact, fun _ he => List.mem_of_mem_filter he⟩
  · exact ⟨h, fun _ he => he⟩

end Recalls

namespace Remembers

lemma empty (capacity : Nat) : Remembers capacity (GhostList.empty capacity) [] := by
  refine ⟨⟨?_, ?_, .nil⟩, ?_, Nat.zero_le _, rfl⟩
  · simp [GhostList.empty]
  · intro id
    simp [GhostList.empty]
  · simp [GhostList.empty]

lemma compacted (h : Remembers capacity g ids) : Remembers capacity g.compacted ids := by
  refine ⟨?_, ?_, h.length_le, h.capacity_eq⟩
  · simpa [GhostList.compacted] using h.recalls.compact
  · intro entry he
    apply h.numbers_le
    simp only [GhostList.compacted, Queue.toList_filter] at he
    exact List.mem_of_mem_filter he

lemma forget (h : Remembers capacity g ids) (id : FrameId) :
    (g.forget id).1 = decide (id ∈ ids) ∧ Remembers capacity (g.forget id).2 (ids.erase id) := by
  refine ⟨?_, h.recalls.forget id, h.numbers_le, ?_, h.capacity_eq⟩
  · rw [Bool.eq_iff_iff, decide_eq_true_eq]
    exact h.recalls.mem_iff id
  · exact Nat.le_trans List.length_erase_le h.length_le

lemma push (h : Remembers capacity g ids) (id : FrameId) :
    Recalls (g.order.push (id, g.evictions + 1)).toList (g.latest.insert id (g.evictions + 1))
      (id :: ids.erase id) := by
  rw [Queue.toList_push]
  exact h.recalls.record id fun entry he => Nat.lt_succ_of_le (h.numbers_le entry he)

lemma record (h : Remembers capacity g ids) (id : FrameId) :
    Remembers capacity (g.record id) ((id :: ids.erase id).take capacity) := by
  obtain rfl := h.capacity_eq
  obtain ⟨htrim, htrim_sub⟩ := (h.push id).trim (Nat.le_refl _) g.capacity
  obtain ⟨hcompact, hcompact_sub⟩ := htrim.compact_queue g.capacity
  refine ⟨hcompact, ?_, List.length_take_le _ _, rfl⟩
  intro entry he
  have hm := htrim_sub entry (hcompact_sub entry he)
  rw [Queue.toList_push, List.mem_append, List.mem_singleton] at hm
  cases hm with
  | inl hm => exact Nat.le_succ_of_le (h.numbers_le entry hm)
  | inr hm =>
    rw [hm]
    exact Nat.le_refl _

lemma take_eq (h : Remembers capacity g ids) (id : FrameId) :
    (id :: ids.erase id).take capacity = (recollect capacity ids (.record id)).2 := by
  have hle : ids.length ≤ capacity := h.length_le
  have he : (ids.erase id).length ≤ ids.length := List.length_erase_le
  simp only [recollect]
  split_ifs with hc
  · rw [List.dropLast_eq_take]
    congr 1
    simp only [List.length_cons] at hc ⊢
    omega
  · exact List.take_of_length_le (Nat.le_of_not_lt hc)

lemma step (h : Remembers capacity g ids) (op : Op) :
    (GhostList.step g op).1 = (recollect capacity ids op).1 ∧
      Remembers capacity (GhostList.step g op).2 (recollect capacity ids op).2 := by
  cases op with
  | record id =>
    refine ⟨rfl, ?_⟩
    rw [← h.take_eq id]
    exact h.record id
  | forget id =>
    obtain ⟨hk, hf⟩ := h.forget id
    exact ⟨congrArg some hk, hf⟩

lemma run (h : Remembers capacity g ids) (ops : List Op) :
    (runWith GhostList.step ops g).1 = (runWith (recollect capacity) ops ids).1 ∧
      Remembers capacity (runWith GhostList.step ops g).2 (runWith (recollect capacity) ops ids).2 := by
  induction ops generalizing g ids with
  | nil => exact ⟨rfl, h⟩
  | cons op ops ih =>
    obtain ⟨ho, hs⟩ := h.step op
    obtain ⟨hos, hr⟩ := ih hs
    exact ⟨congrArg₂ List.cons ho hos, hr⟩

lemma size_eq (h : Remembers capacity g ids) : g.size = ids.length := h.recalls.size_eq

lemma contains_iff (h : Remembers capacity g ids) (id : FrameId) :
    g.contains id = true ↔ id ∈ ids := h.recalls.mem_iff id

end Remembers

lemma create_eq_empty (h : create capacity = .ok g) : g = empty capacity := by
  rw [create] at h
  split_ifs at h
  · cases h
  · cases hr : reserve capacity entryBytes with
    | error f =>
      rw [hr] at h
      cases h
    | ok _ =>
      rw [hr] at h
      exact (Except.ok.inj h).symm

theorem remembers_latest_evictions (capacity : Nat) (ops more : List Op) :
    let g := (runWith step ops (empty capacity)).2
    let ids := (runWith (recollect capacity) ops []).2
    (∀ start, create capacity = .ok start → start = empty capacity) ∧
      (runWith step ops (empty capacity)).1 = (runWith (recollect capacity) ops []).1 ∧
      ids.Nodup ∧ ids.length ≤ capacity ∧ g.size = ids.length ∧
      (∀ id, g.contains id = true ↔ id ∈ ids) ∧
      (runWith step more g.compacted).1 = (runWith step more g).1 ∧
      (runWith step more g.compacted).2.size = (runWith step more g).2.size ∧
      ∀ id, (runWith step more g.compacted).2.contains id = (runWith step more g).2.contains id := by
  intro g ids
  obtain ⟨ha, hg⟩ := (Remembers.empty capacity).run ops
  obtain ⟨ha', hg'⟩ := hg.run more
  obtain ⟨hac, hgc⟩ := hg.compacted.run more
  refine ⟨fun _ => create_eq_empty, ha, hg.recalls.nodup, hg.length_le, hg.size_eq, hg.contains_iff,
    hac.trans ha'.symm, hgc.size_eq.trans hg'.size_eq.symm, ?_⟩
  intro id
  rw [Bool.eq_iff_iff, hgc.contains_iff, hg'.contains_iff]

example : (runWith step [.record 1, .forget 1, .record 2, .record 1, .record 3, .forget 1, .forget 2,
    .forget 3] (empty 2)).1 = [none, some true, none, none, none, some true, some false, some true] := by
  decide +kernel

end GhostList

end FramePool
