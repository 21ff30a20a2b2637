import FramePool.Proofs.Except
import FramePool.Proofs.Lru.Table
import FramePool.Proofs.Marks

/-! Coherent engines: every list is sound and the table names the places of exactly the listed frames.
They are consistent if moreover there is room in a list for all frames. -/

namespace FramePool

namespace Lru

def cells (l : Lru) (g : Nat) : List Cell :=
  match l.generations[g]? with
  | some gen => gen.frames.cells
  | none => []

def bitmap (l : Lru) (g : Nat) : Bitmap :=
  match l.generations[g]? with
  | some gen => gen.accessed
  | none => Bitmap.blank 0

/-- The resident frames, the youngest generation first and each one from its head. -/
def order (l : Lru) : List FrameId := l.generations.toList.flatMap fun g => g.frames.toList

def SoundLists (l : Lru) : Prop :=
  ∀ (g : Nat) (gen : Generation), l.generations[g]? = some gen → gen.frames.Sound

structure Coherent (l : Lru) : Prop where
  nonempty : 0 < l.generations.size
  sound : l.SoundLists
  mapped : Mapped l.table l.cells

def Overfull (l : Lru) : Prop := Arena.slotLimit < l.resident

structure Consistent (l : Lru) : Prop extends Coherent l where
  fits : l.resident ≤ Arena.slotLimit

structure Moved (l l' : Lru) : Prop where
  size_eq : l'.generations.size = l.generations.size
  bitmap_eq : l'.bitmap = l.bitmap
  counters_eq : l'.counters = l.counters

lemma Moved.refl (l : Lru) : Moved l l := ⟨rfl, rfl, rfl⟩

lemma Moved.trans {l m n : Lru} (h : Moved l m) (h' : Moved m n) : Moved l n :=
  ⟨h'.size_eq.trans h.size_eq, h'.bitmap_eq.trans h.bitmap_eq, h'.counters_eq.trans h.counters_eq⟩

variable {l : Lru}

lemma cells_of_getElem? {g : Nat} {gen : Generation} (h : l.generations[g]? = some gen) :
    l.cells g = gen.frames.cells := by simp [cells, h]

lemma bitmap_of_getElem? {g : Nat} {gen : Generation} (h : l.generations[g]? = some gen) :
    l.bitmap g = gen.accessed := by simp [bitmap, h]

lemma bitmap_of_le {g : Nat} (h : l.generations.size ≤ g) : l.bitmap g = Bitmap.blank 0 := by
  simp [bitmap, Array.getElem?_eq_none h]

lemma generation_of_getElem? {g : Nat} {gen : Generation} (h : l.generations[g]? = some gen) :
    l.generation g = .ok gen := by simp [generation, h]

lemma exists_generation {g : Nat} (h : g < l.generations.size) :
    ∃ gen, l.generations[g]? = some gen := ⟨_, Array.getElem?_eq_getElem h⟩

lemma lt_of_mem_cells {g : Nat} {c : Cell} (h : c ∈ l.cells g) : g < l.generations.size := by
  by_contra hg
  simp [cells, Array.getElem?_eq_none (Nat.le_of_not_lt hg)] at h

@[simp] lemma size_modifyGeneration (g : Nat) (f : Generation → Generation) :
    (l.modifyGeneration g f).generations.size = l.generations.size := by
  simp [modifyGeneration]

lemma getElem?_modifyGeneration (g : Nat) (f : Generation → Generation) (k : Nat) :
    (l.modifyGeneration g f).generations[k]? =
      if g = k then l.generations[k]?.map f else l.generations[k]? := by
  simp [modifyGeneration, Array.getElem?_modify]

lemma cells_modifyGeneration {g : Nat} {gen : Generation} (hg : l.generations[g]? = some gen)
    (f : Generation → Generation) :
    (l.modifyGeneration g f).cells = Function.update l.cells g (f gen).frames.cells := by
  funext k
  simp only [cells, getElem?_modifyGeneration]
  by_cases hk : g = k
  · subst hk
    simp [hg]
  · rw [if_neg hk, Function.update_of_ne (Ne.symm hk)]
    rfl

lemma bitmap_modifyGeneration {g : Nat} {gen : Generation} (hg : l.generations[g]? = some gen)
    (f : Generation → Generation) :
    (l.modifyGeneration g f).bitmap = Function.update l.bitmap g (f gen).accessed := by
  funext k
  simp only [bitmap, getElem?_modifyGeneration]
  by_cases hk : g = k
  · subst hk
    simp [hg]
  · rw [if_neg hk, Function.update_of_ne (Ne.symm hk)]
    rfl

lemma SoundLists.modify (h : l.SoundLists) {g : Nat} {gen : Generation}
    (hg : l.generations[g]? = some gen) {f : Generation → Generation} (hf : (f gen).frames.Sound) :
    (l.modifyGeneration g f).SoundLists := by
  intro k gen' hk
  rw [getElem?_modifyGeneration] at hk
  split_ifs at hk with he
  · subst he
    obtain rfl : f gen = gen' := by simpa [hg] using hk
    exact hf
  · exact h k gen' hk

lemma SoundLists.unlink (h : l.SoundLists) {g : Nat} {xs ys : List Cell} {c : Cell}
    (hx : l.cells g = xs ++ c :: ys) :
    ∃ l', l.unlink g c.position = .ok l' ∧ l'.SoundLists ∧ l'.table = l.table ∧
      l'.cells = Function.update l.cells g (xs ++ ys) ∧ Moved l l' := by
  obtain ⟨gen, hg⟩ := exists_generation (lt_of_mem_cells (c := c) (by rw [hx]; simp))
  rw [cells_of_getElem? hg] at hx
  obtain ⟨node, hl, _, hs, hc⟩ := (h g gen hg).unlink hx
  refine ⟨l.modifyGeneration g (·.unlink c.slot node), ?_, h.modify hg hs, rfl, ?_, ?_⟩
  · simp [Lru.unlink, generation_of_getElem? hg, Generation.live, hl]
  · rw [cells_modifyGeneration hg, ← hc]
    rfl
  · refine ⟨by simp, ?_, rfl⟩
    rw [bitmap_modifyGeneration hg, Function.update_eq_self_iff, bitmap_of_getElem? hg]
    rfl

lemma SoundLists.place (h : l.SoundLists) {g : Nat} (hg : g < l.generations.size) (id : FrameId) :
    Meets (l.place id g)
      (fun l' => l'.SoundLists ∧ (∃ p, l'.table = l.table.insert id ⟨id, g, p⟩ ∧
        l'.cells = Function.update l.cells g (⟨p, id⟩ :: l.cells g)) ∧ Moved l l')
      (Arena.slotLimit ≤ (l.cells g).length) := by
  obtain ⟨gen, hg⟩ := exists_generation hg
  rw [cells_of_getElem? hg]
  cases hr : gen.frames.room with
  | error f =>
    have hn : ¬gen.frames.cells.length < Arena.slotLimit := by
      intro hn
      obtain ⟨p, hp⟩ := (h g gen hg).room hn
      rw [hp] at hr
      cases hr
    simpa [Lru.place, generation_of_getElem? hg, hr, Meets] using hn
  | ok p =>
    obtain ⟨hs, hc⟩ := (h g gen hg).pushFront hr id
    have hp : l.place id g = .ok { l.modifyGeneration g (·.pushFront id) with
        table := l.table.insert id ⟨id, g, p⟩ } := by
      simp [Lru.place, generation_of_getElem? hg, hr, modifyGeneration]
    rw [hp]
    refine ⟨h.modify hg hs, ⟨p, rfl, ?_⟩, by simp, ?_, rfl⟩
    · rw [← hc]
      exact cells_modifyGeneration hg _
    · have hb := bitmap_modifyGeneration hg (·.pushFront id)
      rwa [Function.update_eq_self_iff.mpr (bitmap_of_getElem? hg).symm] at hb

end Lru

end FramePool
