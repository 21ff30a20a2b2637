import FramePool.Proofs.Arena.Cells

/-! Insertion puts a cell in front of the others and removal takes one out of them; links, stamps and
vacant slots follow. -/

namespace FramePool

namespace Arena

variable {a : Arena} {cs : List Cell}

lemma pushFront_fields {p : Position} (hr : a.room = .ok p) (id : FrameId) :
    (a.pushFront id).vacant = a.vacant.tail ∧ (a.pushFront id).head = some p.slot ∧
      (a.pushFront id).tail = (if a.head = none then some p.slot else a.tail) ∧
      (a.pushFront id).size = a.size + 1 := by
  rcases a with ⟨slots, vacant, head, tail, size⟩
  rcases room_cases hr with ⟨rest, hv, _⟩ | ⟨hv, rfl⟩ <;> simp only at hv <;> subst hv <;>
    cases head <;> simp [pushFront]

lemma slots_pushFront {p : Position} (hr : a.room = .ok p) (hp : a.head ≠ some p.slot)
    (id : FrameId) (i : Nat) :
    (a.pushFront id).slots[i]? =
      if i = p.slot then some ⟨p.stamp, some ⟨id, none, a.head⟩⟩
      else if a.head = some i then a.slots[i]?.map (Slot.linkPrev (some p.slot))
      else a.slots[i]? := by
  rcases a with ⟨slots, vacant, head, tail, size⟩
  simp only at hp
  rcases room_cases hr with ⟨rest, hv, hs⟩ | ⟨hv, rfl⟩ <;> simp only at hv <;> subst hv
  · rcases head with _ | h
    · by_cases hi : i = p.slot
      · subst hi
        simp_all [pushFront, Array.getElem?_modify]
      · simp [pushFront, Array.getElem?_modify, hi, Ne.symm hi]
    · have hne : h ≠ p.slot := by simpa using hp
      by_cases hi : i = p.slot
      · subst hi
        simp_all [pushFront, Array.getElem?_modify]
      · simp only [pushFront, Array.getElem?_modify, Ne.symm hi, if_false, hi, Option.some.injEq]
  · rcases head with _ | h
    · simp [pushFront, Array.getElem?_push]
    · have hne : h ≠ slots.size := by simpa using hp
      by_cases hi : i = slots.size
      · subst hi
        simp only [pushFront, Array.getElem?_modify, Array.getElem?_push, hne, if_false, if_true]
      · simp only [pushFront, Array.getElem?_modify, Array.getElem?_push, hi, if_false,
          Option.some.injEq]

lemma room_fresh {p : Position} (hr : a.room = .ok p) :
    a.taken? p.slot ≠ some true := by
  rcases room_cases hr with ⟨rest, _, hs⟩ | ⟨_, rfl⟩
  · simp [taken?, hs, Slot.taken]
  · simp [taken?]

lemma Holds.room_not_listed (h : a.Holds cs) {p : Position} (hr : a.room = .ok p) :
    p.slot ∉ cs.map Cell.slot := fun hm => room_fresh hr ((h.taken_iff _).mpr hm)

lemma Holds.head_ne (h : a.Holds cs) {p : Position} (hr : a.room = .ok p) :
    a.head ≠ some p.slot := by
  intro hh
  obtain ⟨c, ys, rfl, hc⟩ := firstSlot_eq_some (h.head_eq.symm.trans hh)
  exact h.room_not_listed hr (by simp [hc])

lemma taken?_pushFront {p : Position} (hr : a.room = .ok p) (hp : a.head ≠ some p.slot) (id : FrameId)
    (s : Nat) : (a.pushFront id).taken? s = if s = p.slot then some true else a.taken? s := by
  simp only [taken?, slots_pushFront hr hp id]
  split_ifs with h₁ h₂
  · rfl
  · simp [Function.comp_def]
  · rfl

lemma Holds.mem_vacant_pushFront (h : a.Holds cs) {p : Position} (hr : a.room = .ok p) (id : FrameId)
    (s : Nat) : s ∈ (a.pushFront id).vacant ↔ (a.pushFront id).taken? s = some false := by
  have hn := h.vacant_nodup
  have hm := h.mem_vacant s
  rw [taken?_pushFront hr (h.head_ne hr), (pushFront_fields hr id).1]
  rcases room_cases hr with ⟨rest, hw, _⟩ | ⟨hw, rfl⟩
  · rw [hw, List.nodup_cons] at hn
    rw [hw] at hm ⊢
    split_ifs with hi
    · simp [hi, hn.1]
    · simp [← hm, hi]
  · rw [hw] at hm ⊢
    split_ifs with hi
    · simp
    · simp [← hm]

lemma Holds.slot_at_pushFront (h : a.Holds cs) {p : Position} (hr : a.room = .ok p) (id : FrameId)
    (xs : List Cell) (c : Cell) (ys : List Cell) (hx : ⟨p, id⟩ :: cs = xs ++ c :: ys) :
    (a.pushFront id).slots[c.slot]? =
      some ⟨c.position.stamp, some ⟨c.id, lastSlot xs, firstSlot ys⟩⟩ := by
  have hf := h.room_not_listed hr
  have hs := slots_pushFront hr (h.head_ne hr) id
  cases xs with
  | nil =>
    obtain ⟨rfl, rfl⟩ : ⟨p, id⟩ = c ∧ cs = ys := by simpa using hx
    simp [hs, Cell.slot, h.head_eq]
  | cons d xs =>
    obtain ⟨rfl, rfl⟩ : ⟨p, id⟩ = d ∧ cs = xs ++ c :: ys := by simpa using hx
    have hne : c.slot ≠ p.slot := by rintro he; simp [he] at hf
    rw [hs, if_neg hne, h.slot_at xs c ys rfl, h.head_eq]
    cases xs with
    | nil => simp [Slot.linkPrev]
    | cons e xs =>
      have hn := h.nodup
      have he : e.slot ≠ c.slot := by rintro he; simp [he] at hn
      simp [he, lastSlot_cons_cons]

lemma Holds.pushFront (h : a.Holds cs) {p : Position} (hr : a.room = .ok p) (id : FrameId) :
    (a.pushFront id).Holds (⟨p, id⟩ :: cs) := by
  obtain ⟨hv, hh, htl, hsz⟩ := pushFront_fields hr id
  refine ⟨h.slot_at_pushFront hr id, List.nodup_cons.mpr ⟨h.room_not_listed hr, h.nodup⟩, ?_, ?_, ?_,
    ?_, h.mem_vacant_pushFront hr id, ?_⟩
  · simp [hh]
  · rw [htl, h.head_eq, h.tail_eq]
    cases cs <;> simp [lastSlot_cons_cons]
  · simp [hsz, h.size_eq]
  · rw [hv]
    exact h.vacant_nodup.tail
  · intro s
    rw [taken?_pushFront hr (h.head_ne hr)]
    split_ifs with hi
    · simp [hi]
    · intro hm
      exact List.mem_cons_of_mem _ (h.mem_slots s hm)

lemma slots_unlink (a : Arena) (slot : Nat) (node : Node) (i : Nat) :
    (a.unlink slot node).slots[i]? = a.slots[i]?.map fun s =>
      let s := if i = slot then s.release else s
      let s := if node.prev = some i then s.linkNext node.next else s
      if node.next = some i then s.linkPrev node.prev else s := by
  rcases a with ⟨slots, vacant, head, tail, size⟩
  rcases node with ⟨id, _ | p, _ | n⟩ <;>
    simp only [unlink, Array.getElem?_modify, eq_comm (a := i), Option.some.injEq, reduceCtorEq,
      if_false] <;>
    split_ifs <;> simp [Function.comp_def]

lemma unlink_fields (a : Arena) (slot : Nat) (node : Node) :
    (a.unlink slot node).vacant = slot :: a.vacant ∧
      (a.unlink slot node).head = (if node.prev = none then node.next else a.head) ∧
      (a.unlink slot node).tail = (if node.next = none then node.prev else a.tail) ∧
      (a.unlink slot node).size = a.size - 1 := by
  rcases a with ⟨slots, vacant, head, tail, size⟩
  rcases node with ⟨id, _ | p, _ | n⟩ <;> simp [unlink]

lemma taken?_unlink (a : Arena) (slot : Nat) (node : Node) (s : Nat) :
    (a.unlink slot node).taken? s =
      if s = slot then (a.taken? s).map (fun _ => false) else a.taken? s := by
  simp only [taken?, slots_unlink, Option.map_map]
  by_cases hs : s = slot
  · simp only [hs, if_true]
    congr 1
    funext t
    simp only [Function.comp_apply]
    split_ifs <;> simp
  · simp only [hs, if_false]
    congr 1
    funext t
    simp only [Function.comp_apply]
    split_ifs <;> simp

variable {xs ys : List Cell} {c : Cell}

lemma Holds.slot_at_before {us vs : List Cell} {d : Cell}
    (h : a.Holds (us ++ d :: vs ++ c :: ys)) :
    (a.unlink c.slot ⟨c.id, lastSlot (us ++ d :: vs), firstSlot ys⟩).slots[d.slot]? =
      some ⟨d.position.stamp, some ⟨d.id, lastSlot us, firstSlot (vs ++ ys)⟩⟩ := by
  have hn := h.nodup
  simp only [List.map_append, List.map_cons, List.append_assoc, List.cons_append, List.nodup_append,
    List.nodup_cons, List.mem_append, List.mem_cons, not_or] at hn
  obtain ⟨_, ⟨⟨hdv, hdc, hdy⟩, _⟩, _⟩ := hn
  have hf : firstSlot ys ≠ some d.slot := fun he => hdy (mem_of_firstSlot he)
  rw [slots_unlink, h.slot_at us d (vs ++ c :: ys) (by simp)]
  cases vs with
  | nil => simp [hdc, hf, Slot.linkNext]
  | cons v vs =>
    have hl : lastSlot (v :: vs) ≠ some d.slot := fun he => hdv (mem_of_lastSlot he)
    simp [hdc, hf, hl, lastSlot_cons_cons]

lemma Holds.slot_at_after {us vs : List Cell} {d : Cell}
    (h : a.Holds (xs ++ c :: (us ++ d :: vs))) :
    (a.unlink c.slot ⟨c.id, lastSlot xs, firstSlot (us ++ d :: vs)⟩).slots[d.slot]? =
      some ⟨d.position.stamp, some ⟨d.id, lastSlot (xs ++ us), firstSlot vs⟩⟩ := by
  have hn := h.nodup
  simp only [List.map_append, List.map_cons, List.nodup_append, List.nodup_cons, List.mem_append,
    List.mem_cons, not_or] at hn
  obtain ⟨_, ⟨⟨_, hcd, _⟩, _, _, hud⟩, hxs⟩ := hn
  have hl : lastSlot xs ≠ some d.slot :=
    fun he => hxs _ (mem_of_lastSlot he) _ (Or.inr (Or.inr (Or.inl rfl))) rfl
  rw [slots_unlink, h.slot_at (xs ++ c :: us) d vs (by simp)]
  cases us with
  | nil => simp [Ne.symm hcd, hl, Slot.linkPrev]
  | cons u us =>
    have hu : u.slot ≠ d.slot := hud _ (by simp) _ (Or.inl rfl)
    simp [Ne.symm hcd, hl, hu, lastSlot_cons_cons]

lemma Holds.unlink (h : a.Holds (xs ++ c :: ys)) :
    (a.unlink c.slot ⟨c.id, lastSlot xs, firstSlot ys⟩).Holds (xs ++ ys) := by
  have hn : (c.slot :: (xs ++ ys).map Cell.slot).Nodup :=
    (List.perm_middle.map Cell.slot).nodup_iff.mp h.nodup
  have hc : a.taken? c.slot = some true := (h.taken_iff _).mpr (by simp)
  obtain ⟨hv, hh, htl, hsz⟩ := unlink_fields a c.slot ⟨c.id, lastSlot xs, firstSlot ys⟩
  constructor
  · intro us d vs hx
    rcases List.append_eq_append_iff.mp hx with ⟨bs, rfl, rfl⟩ | ⟨as, rfl, hy⟩
    · exact h.slot_at_after
    · rcases as with _ | ⟨e, as⟩
      · obtain rfl : d :: vs = ys := by simpa using hy
        have hd : a.Holds (us ++ c :: ([] ++ d :: vs)) := by simpa using h
        simpa using hd.slot_at_after
      · obtain ⟨rfl, rfl⟩ : d = e ∧ vs = as ++ ys := by simpa using hy
        exact h.slot_at_before
  · exact (List.nodup_cons.mp hn).2
  · rw [hh, h.head_eq]
    cases xs with
    | nil => simp
    | cons x xs => simp [lastSlot]
  · rw [htl, h.tail_eq]
    cases ys with
    | nil => simp
    | cons y ys => simp [lastSlot_cons_cons]
  · simp [hsz, h.size_eq]
  · rw [hv, List.nodup_cons, h.mem_vacant, hc]
    exact ⟨by simp, h.vacant_nodup⟩
  · intro s
    rw [hv, taken?_unlink, List.mem_cons, h.mem_vacant]
    split_ifs with hs
    · simp [hs, hc]
    · simp [hs]
  · intro s hs
    rw [taken?_unlink] at hs
    split_ifs at hs with he
    · simp [he, hc] at hs
    · simpa [he] using h.mem_slots s hs

end Arena

end FramePool
