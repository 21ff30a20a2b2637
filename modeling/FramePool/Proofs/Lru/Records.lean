import FramePool.Proofs.Lru.Edits

/-! Removal by record. A record that is the entry of its frame takes exactly this frame out, any other
record changes nothing, and a record becomes stale when its frame leaves its list. -/

namespace FramePool

namespace Lru

structure Withdrawn (l l' : Lru) (m : Entry) : Prop extends Removed l l' m.id where
  cells_eq : ∃ xs ys, l.cells m.generation = xs ++ ⟨m.position, m.id⟩ :: ys ∧
    l'.cells = Function.update l.cells m.generation (xs ++ ys)

def Accepts (l : Lru) (m : Entry) : Prop := ∃ l', l.retire m = .ok l' ∧ l' ≠ l

variable {l l' : Lru} {es : List Edit} {m : Entry} {id : FrameId}

namespace Coherent

lemma withdrawn (h : l.Coherent) (hm : l.entry? m.id = some m) :
    ∃ l', l.retire m = .ok l' ∧ Withdrawn l l' m := by
  obtain ⟨_, hc⟩ := (h.mapped m.id m).mp hm
  obtain ⟨xs, ys, hx⟩ := List.append_of_mem hc
  obtain ⟨l₁, hu, hexp⟩ := h.expel hx
  obtain ⟨l', hr, hrm⟩ := h.retire hm
  obtain rfl : l₁.drop m.id = l' := by
    have hck := hexp.coherent.checkFrame m.id
    simpa [Lru.retire, hm, hu, hck] using hr
  exact ⟨_, hr, hrm, xs, ys, hx, hexp.cells_eq⟩

lemma accepts_iff (h : l.Coherent) : l.Accepts m ↔ l.entry? m.id = some m := by
  constructor
  · rintro ⟨l', hr, hne⟩
    by_contra hm
    rw [retire_of_ne hm] at hr
    exact hne (Except.ok.inj hr).symm
  · intro hm
    obtain ⟨l', hr, hw⟩ := h.withdrawn hm
    refine ⟨l', hr, ?_⟩
    rintro rfl
    have hin : l'.contains m.id = true := by rw [contains_eq_isSome, hm, Option.isSome_some]
    have hout := hw.contains_eq m.id
    simp [hin] at hout

end Coherent

lemma Edited.entry_iff (he : Edited l es l') (h : l.Coherent) (h' : l'.Coherent)
    (hm : l.entry? id = some m)
    (hn : ∀ g slot, Arena.releases slot (changesAt g es) < UInt32.size) :
    l'.entry? id = some m ↔ id ∉ departures es := by
  obtain ⟨rfl, hc⟩ := (h.mapped id m).mp hm
  constructor
  · intro hm' hd
    obtain ⟨_, hc'⟩ := (h'.mapped m.id m).mp hm'
    have hl := mem_changesAt.mpr (he.left_place _ _ hc hd)
    rw [← cells_arena] at hc hc'
    have hnone := (he.changed m.generation).live?_of_left (h.arena_sound _) hc hl (hn _ _)
    have hsome := (h'.arena_sound _).mem_cells.mp hc'
    simp only at hnone
    simp [Arena.get?, hnone] at hsome
  · intro hd
    exact (h'.mapped m.id m).mpr ⟨rfl, he.mem_of_not_departed h hc hd⟩

theorem removal_by_record {n words : Nat} {start : Lru} {past : List Op} {outs : List Outcome}
    (hc : Lru.create n words = .ok start) (hr : run past start = .ok (outs, l)) :
    (∀ m : Entry, (l.Accepts m ↔ l.entry? m.id = some m) ∧
      if l.entry? m.id = some m then ∃ l', l.retire m = .ok l' ∧ Withdrawn l l' m
      else l.retire m = .ok l) ∧
    ∀ since outs' l' id m, run since l = .ok (outs', l') → l.entry? id = some m →
      (∀ g slot, Arena.releases slot (changesAt g (log since l)) < UInt32.size) →
      (∀ g, Arena.Changed (l.arena g) (changesAt g (log since l)) (l'.arena g)) ∧
      (l'.Accepts m ↔ id ∉ departures (log since l)) := by
  obtain ⟨rfl, hpos, _⟩ := create_ok hc
  obtain ⟨h, _⟩ := (fresh_coherent n words hpos).run hr
  constructor
  · refine fun m => ⟨h.accepts_iff, ?_⟩
    split_ifs with hm
    · exact h.withdrawn hm
    · exact retire_of_ne hm
  · intro since outs' l' id m hs hm hn
    have h' := (h.run hs).1
    have he := h.edited_run hs
    obtain ⟨rfl, _⟩ := (h.mapped id m).mp hm
    exact ⟨he.changed, by rw [h'.accepts_iff, he.entry_iff h h' hm hn]⟩

theorem stale_record_after_round_trip :
    ∃ start, Lru.create 2 1 = .ok start ∧
      ∃ outs l, run [.insert 7, .insert 8, .age] start = .ok (outs, l) ∧
      ∃ outs' l', run [.touch 7, .scan 1, .age] l = .ok (outs', l') ∧
        (∀ g slot, Arena.releases slot (changesAt g (log [.touch 7, .scan 1, .age] l)) < UInt32.size) ∧
        l.entry? 7 = some ⟨7, 1, ⟨0, 0⟩⟩ ∧ l'.entry? 7 = some ⟨7, 1, ⟨0, 1⟩⟩ ∧
        ¬l'.Accepts ⟨7, 1, ⟨0, 0⟩⟩ ∧ l.entry? 8 = some ⟨8, 1, ⟨1, 0⟩⟩ ∧ l'.Accepts ⟨8, 1, ⟨1, 0⟩⟩ := by
  have hp : ∃ outs l, run [.insert 7, .insert 8, .age] (fresh 2 1) = .ok (outs, l) ∧
      (run [.touch 7, .scan 1, .age] l).toOption.map (fun r => Lru.entry? r.2 7) =
        some (some ⟨7, 1, ⟨0, 1⟩⟩) ∧
      (log [.touch 7, .scan 1, .age] l).length = 4 ∧
      departures (log [.touch 7, .scan 1, .age] l) = [7, 7] ∧
      l.entry? 7 = some ⟨7, 1, ⟨0, 0⟩⟩ ∧ l.entry? 8 = some ⟨8, 1, ⟨1, 0⟩⟩ :=
    ⟨_, _, rfl, by decide +kernel⟩
  obtain ⟨outs, l, hr, hl', hlen, hdep, h₇, h₈⟩ := hp
  obtain ⟨outs', l', hs⟩ : ∃ outs' l', run [.touch 7, .scan 1, .age] l = .ok (outs', l') := by
    cases hs : run [.touch 7, .scan 1, .age] l with
    | error e => simp [hs, Except.toOption] at hl'
    | ok r => exact ⟨r.1, r.2, rfl⟩
  have h₇' : l'.entry? 7 = some ⟨7, 1, ⟨0, 1⟩⟩ := by simpa [hs, Except.toOption] using hl'
  have hn : ∀ g slot, Arena.releases slot (changesAt g (log [.touch 7, .scan 1, .age] l)) <
      UInt32.size := by
    intro g slot
    have hle := Arena.releases_le_length slot (changesAt g (log [.touch 7, .scan 1, .age] l))
    have hle' : (changesAt g (log [.touch 7, .scan 1, .age] l)).length ≤ 4 :=
      hlen ▸ List.length_filterMap_le _ _
    exact (hle.trans hle').trans_lt (by decide)
  have hc : Lru.create 2 1 = .ok (fresh 2 1) := rfl
  obtain ⟨_, hlater⟩ := removal_by_record hc hr
  have hacc₇ := (hlater _ _ _ _ _ hs h₇ hn).2
  have hacc₈ := (hlater _ _ _ _ _ hs h₈ hn).2
  rw [hdep] at hacc₇ hacc₈
  exact ⟨_, hc, outs, l, hr, outs', l', hs, hn, h₇, h₇', by simp [hacc₇], h₈, by simp [hacc₈]⟩

end Lru

end FramePool
