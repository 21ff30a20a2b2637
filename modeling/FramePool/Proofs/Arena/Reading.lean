import FramePool.Proofs.Arena.Linking

/-! What a sound arena answers when it is read: its list from either end, and the frame at a position. -/

namespace FramePool

namespace Arena

def cellsFrom (a : Arena) : Nat → Option Nat → List Cell
  | 0, _ => []
  | n + 1, link =>
      match link with
      | none => []
      | some slot =>
          match a.slots[slot]? with
          | some ⟨stamp, some node⟩ => ⟨⟨slot, stamp⟩, node.id⟩ :: a.cellsFrom n node.next
          | _ => []

def cells (a : Arena) : List Cell := a.cellsFrom a.size a.head

def Sound (a : Arena) : Prop := a.Holds a.cells

variable {a : Arena} {cs : List Cell}

lemma Holds.cellsFrom_suffix (h : a.Holds cs) (xs ys : List Cell) (hx : cs = xs ++ ys) :
    a.cellsFrom ys.length (firstSlot ys) = ys := by
  induction ys generalizing xs with
  | nil => rfl
  | cons c ys ih =>
    simp only [List.length_cons, cellsFrom, firstSlot_cons, h.slot_at xs c ys hx]
    rw [ih (xs ++ [c]) (by simp [hx])]

lemma Holds.cells_eq (h : a.Holds cs) : a.cells = cs := by
  rw [cells, h.size_eq, h.head_eq]
  exact h.cellsFrom_suffix [] cs rfl

lemma Holds.sound (h : a.Holds cs) : a.Sound := by
  rw [Sound, h.cells_eq]
  exact h

lemma Holds.walk_next (h : a.Holds cs) (n : Nat) (xs ys : List Cell) (hx : cs = xs ++ ys)
    (ids : Array FrameId) :
    (a.walk Node.next n (firstSlot ys) ids).toList = ids.toList ++ (ys.take n).map Cell.id := by
  induction n generalizing xs ys ids with
  | zero => simp [walk]
  | succ n ih =>
    cases ys with
    | nil => simp [walk]
    | cons c ys =>
      have hc := h.slot_at xs c ys hx
      simp only [walk, firstSlot_cons, Option.bind_some, node?, hc]
      rw [ih (xs ++ [c]) ys (by simp [hx])]
      simp

lemma Holds.walk_prev (h : a.Holds cs) (n : Nat) (xs ys : List Cell) (hx : cs = xs ++ ys)
    (ids : Array FrameId) :
    (a.walk Node.prev n (lastSlot xs) ids).toList =
      ids.toList ++ (xs.reverse.take n).map Cell.id := by
  induction n generalizing xs ys ids with
  | zero => simp [walk]
  | succ n ih =>
    rcases List.eq_nil_or_concat xs with rfl | ⟨xs, c, rfl⟩
    · simp [walk]
    · rw [List.concat_eq_append, List.append_assoc] at hx
      have hc := h.slot_at xs c ys hx
      simp only [walk, List.concat_eq_append, lastSlot_append_cons, lastSlot_singleton,
        Option.bind_some, node?, hc]
      rw [ih xs (c :: ys) hx]
      simp

lemma Holds.live_of_split (h : a.Holds cs) {xs ys : List Cell} {c : Cell} (hx : cs = xs ++ c :: ys) :
    a.live? c.position = some ⟨c.id, lastSlot xs, firstSlot ys⟩ := by
  simp [live?, h.slot_at xs c ys hx]

lemma Holds.get?_eq_some (h : a.Holds cs) {p : Position} {id : FrameId} :
    a.get? p = some id ↔ ⟨p, id⟩ ∈ cs := by
  constructor
  · intro hg
    obtain ⟨node, hl, rfl⟩ := Option.map_eq_some_iff.mp hg
    rcases hs : a.slots[p.slot]? with _ | ⟨stamp, n⟩
    · simp [live?, hs] at hl
    · simp only [live?, hs] at hl
      split_ifs at hl with hp
      subst hl
      obtain ⟨c, hc, hcs⟩ := List.mem_map.mp (h.mem_slots p.slot (by simp [taken?, hs, Slot.taken]))
      obtain ⟨m, hm, hn⟩ := h.slot_of_mem hc
      rw [hcs, hs] at hn
      obtain ⟨rfl, rfl⟩ : stamp = c.position.stamp ∧ node = m := by simpa using hn
      rcases c with ⟨⟨slot, stamp⟩, id⟩
      rcases p with ⟨slot', stamp'⟩
      obtain rfl : slot = slot' := hcs
      obtain rfl : stamp = stamp' := hp
      exact hm ▸ hc
  · intro hc
    obtain ⟨xs, ys, hx⟩ := List.append_of_mem hc
    simp [get?, h.live_of_split hx]

lemma sound_empty : empty.Sound := holds_empty.sound

@[simp] lemma cells_empty : empty.cells = [] := rfl

namespace Sound

lemma size_eq (h : a.Sound) : a.size = a.cells.length := Holds.size_eq h

lemma positions_nodup (h : a.Sound) : (a.cells.map Cell.position).Nodup := by
  have hn := Holds.nodup h
  rw [show Cell.slot = Position.slot ∘ Cell.position from rfl, ← List.map_map] at hn
  exact hn.of_map _

lemma toList_eq (h : a.Sound) : a.toList = a.cells.map Cell.id := by
  have hw := Holds.walk_next h a.size [] a.cells rfl #[]
  rw [← Holds.head_eq h] at hw
  simpa [toList, h.size_eq] using hw

lemma lastIds_eq (h : a.Sound) (n : Nat) :
    a.lastIds n = (a.cells.reverse.take n).map Cell.id := by
  have hw := Holds.walk_prev h (min n a.size) a.cells [] (by simp) #[]
  rw [← Holds.tail_eq h] at hw
  have hl : a.cells.reverse.take (min n a.size) = a.cells.reverse.take n := by
    rw [h.size_eq, ← List.length_reverse, ← List.take_eq_take_min]
  simpa [lastIds, hl] using hw

lemma mem_cells (h : a.Sound) {p : Position} {id : FrameId} :
    ⟨p, id⟩ ∈ a.cells ↔ a.get? p = some id := (Holds.get?_eq_some h).symm

lemma room (h : a.Sound) (hn : a.cells.length < slotLimit) : ∃ p, a.room = .ok p :=
  Holds.room h hn

lemma pushFront (h : a.Sound) {p : Position} (hr : a.room = .ok p) (id : FrameId) :
    (a.pushFront id).Sound ∧ (a.pushFront id).cells = ⟨p, id⟩ :: a.cells :=
  ⟨(Holds.pushFront h hr id).sound, (Holds.pushFront h hr id).cells_eq⟩

lemma unlink (h : a.Sound) {xs ys : List Cell} {c : Cell} (hx : a.cells = xs ++ c :: ys) :
    ∃ node, a.live? c.position = some node ∧ node.id = c.id ∧ (a.unlink c.slot node).Sound ∧
      (a.unlink c.slot node).cells = xs ++ ys := by
  have hu : (a.unlink c.slot ⟨c.id, lastSlot xs, firstSlot ys⟩).Holds (xs ++ ys) :=
    Holds.unlink (hx ▸ h)
  exact ⟨_, Holds.live_of_split h hx, rfl, hu.sound, hu.cells_eq⟩

end Sound

end Arena

end FramePool
