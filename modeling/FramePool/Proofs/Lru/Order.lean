import FramePool.Proofs.Lru.Consistent

/-! How the order of the resident frames changes when lists of single generations do. -/

namespace FramePool

lemma exists_flatMap_range {α : Type} {n i m : Nat} (hi : i + m ≤ n) (f : Nat → List α) :
    ∃ as bs, ∀ f' : Nat → List α, (∀ k, k < i ∨ i + m ≤ k → f' k = f k) →
      (List.range n).flatMap f' = as ++ ((List.range m).map (i + ·)).flatMap f' ++ bs := by
  obtain ⟨j, rfl⟩ := Nat.exists_eq_add_of_le hi
  refine ⟨(List.range i).flatMap f, ((List.range j).map (i + m + ·)).flatMap f, fun f' hf => ?_⟩
  have hl : (List.range i).flatMap f' = (List.range i).flatMap f :=
    List.flatMap_congr fun k hk => hf k (Or.inl (List.mem_range.mp hk))
  have hr : ((List.range j).map (i + m + ·)).flatMap f' =
      ((List.range j).map (i + m + ·)).flatMap f := by
    apply List.flatMap_congr
    intro k hk
    obtain ⟨t, _, rfl⟩ := List.mem_map.mp hk
    exact hf _ (Or.inr (by omega))
  rw [List.range_add, List.range_add, List.flatMap_append, List.flatMap_append, hl, hr]

namespace Lru

variable {l l' : Lru}

lemma order_of_update (hs : l.SoundLists) (hs' : l'.SoundLists)
    (hsz : l'.generations.size = l.generations.size) {g : Nat} (hg : g < l.generations.size)
    {cs : List Cell} (hc : l'.cells = Function.update l.cells g cs) :
    ∃ as bs, l.order = as ++ l.ids g ++ bs ∧ l'.order = as ++ cs.map Cell.id ++ bs := by
  obtain ⟨as, bs, hab⟩ := exists_flatMap_range (i := g) (m := 1) hg l.ids
  have hl := hab l.ids fun _ _ => rfl
  have hl' := hab l'.ids fun k hk => by rw [ids, ids, hc, Function.update_of_ne (by omega)]
  refine ⟨as, bs, by rw [hs.order_eq, hl]; simp, ?_⟩
  rw [hs'.order_eq, hsz, hl']
  simp [ids, hc]

lemma order_of_join (hs : l.SoundLists) (hs' : l'.SoundLists)
    (hsz : l'.generations.size = l.generations.size) {g : Nat} (hg : g + 1 < l.generations.size)
    (ho : ∀ k, k ≠ g → k ≠ g + 1 → l'.cells k = l.cells k)
    (he : l'.ids g ++ l'.ids (g + 1) = l.ids g ++ l.ids (g + 1)) : l'.order = l.order := by
  obtain ⟨as, bs, hab⟩ := exists_flatMap_range (i := g) (m := 2) hg l.ids
  have hl := hab l.ids fun _ _ => rfl
  have hl' := hab l'.ids fun k hk => by rw [ids, ids, ho k (by omega) (by omega)]
  have hj : ∀ f : Nat → List FrameId,
      ((List.range 2).map (g + ·)).flatMap f = f g ++ f (g + 1) := fun f => by simp [List.range_succ]
  rw [hs.order_eq, hs'.order_eq, hsz, hl, hl', hj, hj, he]

lemma Added.order_eq {id : FrameId} (ha : Added l l' id) (h : l.Coherent) :
    l'.order = id :: l.order := by
  obtain ⟨p, _, hc⟩ := ha.place_eq
  obtain ⟨n, hn⟩ := Nat.exists_eq_succ_of_ne_zero h.nonempty.ne'
  rw [h.sound.order_eq, ha.coherent.sound.order_eq, ha.moved.size_eq, hn, List.range_succ_eq_map]
  have ho : ∀ k, l'.ids (k + 1) = l.ids (k + 1) := by
    intro k
    rw [ids, ids, hc, Function.update_of_ne (by omega)]
  have h0 : l'.ids 0 = id :: l.ids 0 := by simp [ids, hc]
  simp [List.flatMap_map, h0, ho]

lemma Expelled.order_eq {g : Nat} {xs ys : List Cell} {c : Cell} (he : Expelled l l' g c (xs ++ ys))
    (h : l.Coherent) (hx : l.cells g = xs ++ c :: ys) : l'.order = l.order.erase c.id := by
  have hg : g < l.generations.size := lt_of_mem_cells (c := c) (by simp [hx])
  obtain ⟨as, bs, ho, ho'⟩ :=
    order_of_update h.sound he.coherent.sound he.moved.size_eq hg he.cells_eq
  have hl : l.order = (as ++ xs.map Cell.id) ++ c.id :: (ys.map Cell.id ++ bs) := by
    rw [ho]
    simp [ids, hx]
  have hn := h.order_nodup
  rw [hl] at hn ⊢
  have hp : c.id ∉ as ++ xs.map Cell.id := fun hm =>
    (List.nodup_append.mp hn).2.2 _ hm _ List.mem_cons_self rfl
  rw [ho', List.erase_append_right _ hp, List.erase_cons_head]
  simp

end Lru

end FramePool
