import FramePool.Proofs.Lru.History

/-! The table and the generations agree after every operation of every legal history. -/

namespace FramePool

namespace Lru

def ListedAt (l : Lru) (g : Nat) (p : Position) (id : FrameId) : Prop :=
  ∃ gen, l.generations[g]? = some gen ∧ gen.frames.get? p = some id

/-- Table and generations tell the same places, and no check finds a difference. -/
structure Agrees (l : Lru) : Prop where
  entry_iff : ∀ id g p, l.entry? id = some ⟨id, g, p⟩ ↔ l.ListedAt g p id
  own_id : ∀ id e, l.entry? id = some e → e.id = id
  once : ∀ id, l.order.count id = if l.contains id then 1 else 0
  checks : ∀ id, l.checkFrame id = .ok ()

variable {l : Lru}

lemma SoundLists.mem_cells (h : l.SoundLists) {g : Nat} {p : Position} {id : FrameId} :
    ⟨p, id⟩ ∈ l.cells g ↔ l.ListedAt g p id := by
  constructor
  · intro hm
    obtain ⟨gen, hg⟩ := exists_generation (lt_of_mem_cells hm)
    rw [cells_of_getElem? hg] at hm
    exact ⟨gen, hg, (h g gen hg).mem_cells.mp hm⟩
  · rintro ⟨gen, hg, hp⟩
    rw [cells_of_getElem? hg]
    exact (h g gen hg).mem_cells.mpr hp

lemma Consistent.agrees (h : l.Consistent) : l.Agrees where
  entry_iff id g p := by
    rw [← h.sound.mem_cells]
    exact (h.mapped id ⟨id, g, p⟩).trans (and_iff_right rfl)
  own_id id e he := ((h.mapped id e).mp he).1
  once id := by
    split_ifs with hid
    · exact List.count_eq_one_of_mem h.order_nodup (h.mem_order.mpr hid)
    · exact List.count_eq_zero_of_not_mem fun hm => hid (h.mem_order.mp hm)
  checks := h.checkFrame

theorem agrees_after_each_operation {n words : Nat} {start : Lru}
    (hn : Lru.create n words = .ok start) {ops : List Op} (hl : Legal ops start) {past : List Op}
    (hp : past <+: ops) : ∃ outs l, run past start = .ok (outs, l) ∧ l.Agrees := by
  obtain ⟨rfl, hpos, _⟩ := create_ok hn
  obtain ⟨more, rfl⟩ := hp
  obtain ⟨outs, l, hr, h, _⟩ := (fresh_consistent n words hpos).run hl.of_append
  exact ⟨outs, l, hr, h.agrees⟩

theorem agrees_after_promotion_and_reuse :
    ∃ start, Lru.create 2 1 = .ok start ∧
      ∃ outs l, run [.insert 1, .insert 65, .age, .touch 1, .scan 2, .retire ⟨65, 1, ⟨0, 0⟩⟩,
        .insert 7, .remove 1] start = .ok (outs, l) ∧ l.Agrees := by
  refine ⟨fresh 2 1, rfl, @agrees_after_each_operation 2 1 _ rfl _ ?_ _ List.prefix_rfl⟩
  decide +kernel

end Lru

end FramePool
