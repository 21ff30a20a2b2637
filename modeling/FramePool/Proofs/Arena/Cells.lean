import FramePool.Arena.Basic
import Mathlib.Data.List.Nodup
import Mathlib.Data.List.Perm.Subperm
import Mathlib.Tactic.Common

/-! The cells that an arena holds, from the head to the tail, and the slots that they leave vacant. -/

namespace FramePool

structure Cell where
  position : Position
  id : FrameId
deriving DecidableEq

abbrev Cell.slot (c : Cell) : Nat := c.position.slot

def firstSlot (cs : List Cell) : Option Nat := cs.head?.map Cell.slot

def lastSlot (cs : List Cell) : Option Nat := cs.getLast?.map Cell.slot

@[simp] lemma firstSlot_nil : firstSlot [] = none := rfl

@[simp] lemma firstSlot_cons (c : Cell) (cs : List Cell) : firstSlot (c :: cs) = some c.slot := rfl

@[simp] lemma lastSlot_nil : lastSlot [] = none := rfl

@[simp] lemma lastSlot_append_cons (xs : List Cell) (c : Cell) (ys : List Cell) :
    lastSlot (xs ++ c :: ys) = lastSlot (c :: ys) := by
  simp [lastSlot, List.getLast?_append, List.getLast?_cons]

@[simp] lemma lastSlot_singleton (c : Cell) : lastSlot [c] = some c.slot := rfl

lemma lastSlot_cons_cons (c d : Cell) (cs : List Cell) :
    lastSlot (c :: d :: cs) = lastSlot (d :: cs) := by
  simp [lastSlot, List.getLast?_cons]

lemma firstSlot_eq_some {cs : List Cell} {s : Nat} (h : firstSlot cs = some s) :
    ∃ c ys, cs = c :: ys ∧ c.slot = s := by
  cases cs with
  | nil => simp at h
  | cons c ys => exact ⟨c, ys, rfl, by simpa using h⟩

lemma mem_of_firstSlot {cs : List Cell} {s : Nat} (h : firstSlot cs = some s) :
    s ∈ cs.map Cell.slot := by
  obtain ⟨c, hc, rfl⟩ := Option.map_eq_some_iff.mp h
  exact List.mem_map_of_mem (List.mem_of_mem_head? hc)

lemma mem_of_lastSlot {cs : List Cell} {s : Nat} (h : lastSlot cs = some s) :
    s ∈ cs.map Cell.slot := by
  obtain ⟨c, hc, rfl⟩ := Option.map_eq_some_iff.mp h
  exact List.mem_map_of_mem (List.mem_of_getLast? hc)

namespace Slot

def taken (s : Slot) : Bool := s.node.isSome

@[simp] lemma taken_linkPrev (link : Option Nat) (s : Slot) : (s.linkPrev link).taken = s.taken := by
  simp [taken, linkPrev]

@[simp] lemma taken_linkNext (link : Option Nat) (s : Slot) : (s.linkNext link).taken = s.taken := by
  simp [taken, linkNext]

@[simp] lemma taken_release (s : Slot) : s.release.taken = false := rfl

end Slot

namespace Arena

def taken? (a : Arena) (slot : Nat) : Option Bool := a.slots[slot]?.map Slot.taken

/-- The slots of `cs`, linked in this order, are the taken ones. -/
structure Holds (a : Arena) (cs : List Cell) : Prop where
  slot_at : ∀ xs c ys, cs = xs ++ c :: ys → a.slots[c.slot]? =
    some ⟨c.position.stamp, some ⟨c.id, lastSlot xs, firstSlot ys⟩⟩
  nodup : (cs.map Cell.slot).Nodup
  head_eq : a.head = firstSlot cs
  tail_eq : a.tail = lastSlot cs
  size_eq : a.size = cs.length
  vacant_nodup : a.vacant.Nodup
  mem_vacant : ∀ s, s ∈ a.vacant ↔ a.taken? s = some false
  mem_slots : ∀ s, a.taken? s = some true → s ∈ cs.map Cell.slot

variable {a : Arena} {cs : List Cell}

lemma holds_empty : empty.Holds [] where
  slot_at xs c ys h := by simp at h
  nodup := .nil
  head_eq := rfl
  tail_eq := rfl
  size_eq := rfl
  vacant_nodup := .nil
  mem_vacant s := by simp [empty, taken?]
  mem_slots s h := by simp [empty, taken?] at h

lemma Holds.slot_of_mem (h : a.Holds cs) {c : Cell} (hc : c ∈ cs) :
    ∃ node, node.id = c.id ∧ a.slots[c.slot]? = some ⟨c.position.stamp, some node⟩ := by
  obtain ⟨xs, ys, rfl⟩ := List.append_of_mem hc
  exact ⟨_, rfl, h.slot_at xs c ys rfl⟩

lemma Holds.taken_iff (h : a.Holds cs) (s : Nat) :
    a.taken? s = some true ↔ s ∈ cs.map Cell.slot := by
  refine ⟨h.mem_slots s, fun hs => ?_⟩
  obtain ⟨c, hc, rfl⟩ := List.mem_map.mp hs
  obtain ⟨node, _, hn⟩ := h.slot_of_mem hc
  simp [taken?, hn, Slot.taken]

lemma taken?_eq_none {s : Nat} : a.taken? s = none ↔ a.slots.size ≤ s := by
  simp [taken?]

lemma Holds.slots_size (h : a.Holds cs) : a.slots.size = a.vacant.length + cs.length := by
  have hd : (a.vacant ++ cs.map Cell.slot).Nodup := by
    refine h.vacant_nodup.append h.nodup ?_
    intro s hv hs
    have hf := (h.mem_vacant s).mp hv
    rw [(h.taken_iff s).mpr hs] at hf
    simp at hf
  have hp : (List.range a.slots.size).Perm (a.vacant ++ cs.map Cell.slot) := by
    apply (List.perm_ext_iff_of_nodup List.nodup_range hd).mpr
    intro s
    rw [List.mem_range, List.mem_append, h.mem_vacant, ← h.taken_iff, ← Nat.not_le, ← taken?_eq_none]
    rcases a.taken? s with _ | _ | _ <;> simp
  simpa using hp.length_eq

lemma Holds.room (h : a.Holds cs) (hn : cs.length < slotLimit) : ∃ p, a.room = .ok p := by
  cases hv : a.vacant with
  | nil =>
    have hs := h.slots_size
    exact ⟨⟨a.slots.size, 0⟩, by simp [Arena.room, hv]; simp [hv] at hs; omega⟩
  | cons slot vacant =>
    have hf := (h.mem_vacant slot).mp (by simp [hv])
    rcases hs : a.slots[slot]? with _ | ⟨stamp, _ | node⟩
    · simp [taken?, hs] at hf
    · exact ⟨⟨slot, stamp⟩, by simp [Arena.room, hv, hs]⟩
    · simp [taken?, hs, Slot.taken] at hf

lemma room_cases {p : Position} (hr : a.room = .ok p) :
    (∃ vacant, a.vacant = p.slot :: vacant ∧ a.slots[p.slot]? = some ⟨p.stamp, none⟩) ∨
      (a.vacant = [] ∧ p = ⟨a.slots.size, 0⟩) := by
  cases hv : a.vacant with
  | nil =>
    right
    simp only [Arena.room, hv] at hr
    split at hr
    · simpa [eq_comm] using hr
    · simp at hr
  | cons slot vacant =>
    left
    simp only [Arena.room, hv] at hr
    split at hr
    · rename_i stamp hs
      obtain rfl : (⟨slot, stamp⟩ : Position) = p := by simpa using hr
      exact ⟨vacant, rfl, hs⟩
    · simp at hr
    · simp at hr

end Arena

end FramePool
