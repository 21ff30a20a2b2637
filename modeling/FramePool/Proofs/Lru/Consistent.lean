import FramePool.Proofs.Lru.Places
import Mathlib.Algebra.GroupWithZero.Nat
import Mathlib.Data.List.Perm.Subperm

/-! In a coherent engine every resident frame is listed exactly once and no check fails. Adding, moving
and dropping a frame keeps an engine coherent, and no list is full if the engine is consistent. -/

namespace FramePool

namespace Lru

variable {l l' : Lru}

lemma contains_eq_isSome (l : Lru) (id : FrameId) : l.contains id = (l.entry? id).isSome :=
  Std.ExtTreeMap.contains_eq_isSome_getElem?

def ids (l : Lru) (g : Nat) : List FrameId := (l.cells g).map Cell.id

@[simp] lemma length_ids (g : Nat) : (l.ids g).length = (l.cells g).length := List.length_map ..

lemma SoundLists.order_eq (h : l.SoundLists) :
    l.order = (List.range l.generations.size).flatMap l.ids := by
  rw [order, List.flatMap_def, List.flatMap_def]
  congr 1
  apply List.ext_getElem (by simp)
  intro g hg _
  obtain ⟨gen, he⟩ := exists_generation (l := l) (g := g) (by simpa using hg)
  have hl := (h g gen he).toList_eq
  obtain ⟨_, rfl⟩ := Array.getElem?_eq_some_iff.mp he
  simpa [ids, cells_of_getElem? he] using hl

lemma SoundLists.sizes_sum (h : l.SoundLists) : l.sizes.sum = l.order.length := by
  rw [order, List.length_flatMap, sizes]
  congr 1
  apply List.map_congr_left
  intro gen hm
  obtain ⟨g, hg⟩ := List.getElem?_of_mem hm
  have hs := h g gen (by simpa using hg)
  simp [Generation.size, hs.size_eq, hs.toList_eq]

lemma SoundLists.mem_order (h : l.SoundLists) {id : FrameId} :
    id ∈ l.order ↔ ∃ g, ∃ c ∈ l.cells g, c.id = id := by
  simp only [h.order_eq, ids, List.mem_flatMap, List.mem_range, List.mem_map]
  constructor
  · rintro ⟨g, _, c, hc, he⟩
    exact ⟨g, c, hc, he⟩
  · rintro ⟨g, c, hc, he⟩
    exact ⟨g, lt_of_mem_cells hc, c, hc, he⟩

lemma SoundLists.positions_nodup (h : l.SoundLists) (g : Nat) :
    ((l.cells g).map Cell.position).Nodup := by
  rw [cells]
  split
  · rename_i gen hg
    exact (h g gen hg).positions_nodup
  · exact .nil

lemma cells_modifyGeneration_of_frames_eq (g : Nat) {f : Generation → Generation}
    (hf : ∀ gen, (f gen).frames = gen.frames) : (l.modifyGeneration g f).cells = l.cells := by
  funext k
  simp only [cells, getElem?_modifyGeneration]
  split_ifs
  · rcases l.generations[k]? with _ | gen <;> simp [hf]
  · rfl

structure Relocated (l l' : Lru) (g k : Nat) (c : Cell) (rest : List Cell) : Prop where
  coherent : l'.Coherent
  cells_eq : ∃ p, l'.cells =
    Function.update (Function.update l.cells g rest) k (⟨p, c.id⟩ :: l.cells k)
  contains_eq : ∀ id, l'.contains id = l.contains id
  moved : Moved l l'

structure Expelled (l l' : Lru) (g : Nat) (c : Cell) (rest : List Cell) : Prop where
  coherent : l'.Coherent
  cells_eq : l'.cells = Function.update l.cells g rest
  table_eq : l'.table = l.table.erase c.id
  moved : Moved l l'

structure Added (l l' : Lru) (id : FrameId) : Prop where
  coherent : l'.Coherent
  place_eq : ∃ p, l'.table = l.table.insert id ⟨id, 0, p⟩ ∧
    l'.cells = Function.update l.cells 0 (⟨p, id⟩ :: l.cells 0)
  moved : Moved l l'

lemma Expelled.contains_eq {g : Nat} {c : Cell} {rest : List Cell} (h : Expelled l l' g c rest)
    (id : FrameId) : l'.contains id = (l.contains id && decide (id ≠ c.id)) := by
  simp only [contains, h.table_eq, Std.ExtTreeMap.contains_erase]
  by_cases he : id = c.id
  · simp [he]
  · simp [he, Ne.symm he]

lemma Added.contains_eq {id : FrameId} (h : Added l l' id) (k : FrameId) :
    l'.contains k = (l.contains k || decide (k = id)) := by
  obtain ⟨p, ht, _⟩ := h.place_eq
  simp only [contains, ht, Std.ExtTreeMap.contains_insert]
  by_cases he : k = id
  · simp [he]
  · simp [he, Ne.symm he]

lemma Added.entry_of_ne {id k : FrameId} (h : Added l l' id) (hk : id ≠ k) :
    l'.entry? k = l.entry? k := by
  obtain ⟨p, ht, _⟩ := h.place_eq
  change l'.table[k]? = l.table[k]?
  rw [ht, Std.ExtTreeMap.getElem?_insert, if_neg (by simpa using hk)]

lemma Added.resident_eq {id : FrameId} (h : Added l l' id) (hid : l.contains id = false) :
    l'.resident = l.resident + 1 := by
  obtain ⟨p, ht, _⟩ := h.place_eq
  rw [resident, ht, Std.ExtTreeMap.size_insert]
  exact if_neg (Bool.eq_false_iff.mp hid)

namespace Coherent

lemma oldest_lt (h : l.Coherent) : l.oldest < l.generations.size :=
  Nat.sub_lt h.nonempty Nat.one_pos

lemma size_eq_succ (h : l.Coherent) : l.generations.size = l.oldest + 1 :=
  (Nat.sub_add_cancel h.nonempty).symm

lemma ids_nodup (h : l.Coherent) (g : Nat) : (l.ids g).Nodup := by
  refine (h.sound.positions_nodup g).of_map _ |>.map_on ?_
  intro c hc d hd he
  exact (h.mapped.generation_eq hc hd he).2

lemma mem_ids (h : l.Coherent) {g : Nat} {id : FrameId} :
    id ∈ l.ids g ↔ ∃ p, l.entry? id = some ⟨id, g, p⟩ := by
  rw [ids, List.mem_map]
  constructor
  · rintro ⟨c, hc, rfl⟩
    exact ⟨c.position, h.mapped.getElem?_of_mem hc⟩
  · rintro ⟨p, hp⟩
    exact ⟨_, ((h.mapped id _).mp hp).2, rfl⟩

lemma order_nodup (h : l.Coherent) : l.order.Nodup := by
  rw [h.sound.order_eq, List.nodup_flatMap]
  refine ⟨fun g _ => h.ids_nodup g, List.nodup_range.imp ?_⟩
  intro g k hgk id hg hk
  obtain ⟨c, hc, rfl⟩ := List.mem_map.mp hg
  obtain ⟨d, hd, he⟩ := List.mem_map.mp hk
  exact hgk (h.mapped.generation_eq hc hd he.symm).1

lemma mem_order (h : l.Coherent) {id : FrameId} : id ∈ l.order ↔ l.contains id = true := by
  rw [h.sound.mem_order, contains, Std.ExtTreeMap.contains_iff_mem]
  constructor
  · rintro ⟨g, c, hc, rfl⟩
    rw [Std.ExtTreeMap.mem_iff_isSome_getElem?, h.mapped.getElem?_of_mem hc]
    rfl
  · intro hm
    obtain ⟨e, he⟩ := Option.isSome_iff_exists.mp (Std.ExtTreeMap.mem_iff_isSome_getElem?.mp hm)
    obtain ⟨_, hc⟩ := (h.mapped id e).mp he
    exact ⟨e.generation, _, hc, rfl⟩

lemma contains_of_mem (h : l.Coherent) {g : Nat} {c : Cell} (hc : c ∈ l.cells g) :
    l.contains c.id = true := h.mem_order.mp (h.sound.mem_order.mpr ⟨g, c, hc, rfl⟩)

lemma order_perm_keys (h : l.Coherent) : l.order.Perm l.table.keys := by
  apply (List.perm_ext_iff_of_nodup h.order_nodup Std.ExtTreeMap.nodup_keys).mpr
  intro id
  rw [Std.ExtTreeMap.mem_keys, h.mem_order, contains, Std.ExtTreeMap.contains_iff_mem]

lemma resident_eq (h : l.Coherent) : l.resident = l.order.length := by
  rw [resident, ← Std.ExtTreeMap.length_keys, h.order_perm_keys.length_eq]

lemma checkSizes (h : l.Coherent) : l.checkSizes = .ok () := by
  simp [Lru.checkSizes, ← List.sum_eq_foldl_nat, h.sound.sizes_sum, h.resident_eq]

lemma checkEntry (h : l.Coherent) (id : FrameId) : l.checkEntry id = .ok () := by
  cases he : l.entry? id with
  | none => simp [Lru.checkEntry, he]
  | some e =>
    obtain ⟨hid, hc⟩ := (h.mapped id e).mp he
    obtain ⟨gen, hg⟩ := exists_generation (lt_of_mem_cells hc)
    rw [cells_of_getElem? hg, (h.sound _ _ hg).mem_cells] at hc
    simp [Lru.checkEntry, he, hid, generation_of_getElem? hg, hc]

lemma checkFrame (h : l.Coherent) (id : FrameId) : l.checkFrame id = .ok () := by
  simp [Lru.checkFrame, h.checkSizes, h.checkEntry]

lemma length_le (h : l.Coherent) (g : Nat) : (l.cells g).length ≤ l.resident := by
  have hs : (l.cells g).map Cell.id ⊆ l.order := by
    intro id hm
    obtain ⟨c, hc, rfl⟩ := List.mem_map.mp hm
    exact h.sound.mem_order.mpr ⟨g, c, hc, rfl⟩
  rw [h.resident_eq]
  simpa using ((h.ids_nodup g).subperm hs).length_le

lemma length_lt (h : l.Coherent) {g k : Nat} {c : Cell} (hc : c ∈ l.cells g) (hk : k ≠ g) :
    (l.cells k).length < l.resident := by
  have hn : (c.id :: (l.cells k).map Cell.id).Nodup := by
    refine List.nodup_cons.mpr ⟨?_, h.ids_nodup k⟩
    intro hm
    obtain ⟨d, hd, he⟩ := List.mem_map.mp hm
    exact hk (h.mapped.generation_eq hd hc he).1
  have hs : c.id :: (l.cells k).map Cell.id ⊆ l.order := by
    intro id hm
    rw [h.sound.mem_order]
    rcases List.mem_cons.mp hm with rfl | hm
    · exact ⟨g, c, hc, rfl⟩
    · obtain ⟨d, hd, rfl⟩ := List.mem_map.mp hm
      exact ⟨k, d, hd, rfl⟩
  have hl := (hn.subperm hs).length_le
  rw [h.resident_eq]
  simp only [List.length_cons, List.length_map] at hl
  omega

lemma resident_le (h : l.Coherent) (h' : l'.Coherent)
    (hsub : ∀ id, l'.contains id = true → l.contains id = true) : l'.resident ≤ l.resident := by
  rw [h.resident_eq, h'.resident_eq]
  apply List.Subperm.length_le
  apply h'.order_nodup.subperm
  intro id hid
  exact h.mem_order.mpr (hsub id (h'.mem_order.mp hid))

lemma overfull_of (h : l.Coherent) (h' : l'.Coherent)
    (hsub : ∀ id, l'.contains id = true → l.contains id = true) (hn : l'.Overfull) : l.Overfull :=
  Nat.lt_of_lt_of_le hn (h.resident_le h' hsub)

lemma move (h : l.Coherent) {g k : Nat} {xs ys : List Cell} {c : Cell}
    (hx : l.cells g = xs ++ c :: ys) (hk : k < l.generations.size) (hkg : k ≠ g) :
    ∃ l₁, l.unlink g c.position = .ok l₁ ∧
      Meets (l₁.place c.id k) (fun l' => Relocated l l' g k c (xs ++ ys)) l.Overfull := by
  have hc : c ∈ l.cells g := by simp [hx]
  obtain ⟨l₁, hu, hs₁, ht₁, hc₁, hm₁⟩ := h.sound.unlink hx
  have hk₁ : l₁.cells k = l.cells k := by rw [hc₁, Function.update_of_ne hkg]
  refine ⟨l₁, hu, ?_⟩
  apply (hs₁.place (hm₁.size_eq ▸ hk) c.id).mono
  · rintro l' ⟨hs', ⟨p, ht', hc'⟩, hm'⟩
    rw [ht₁] at ht'
    rw [hk₁, hc₁] at hc'
    have hm : Moved l l' := hm₁.trans hm'
    refine ⟨⟨?_, hs', ?_⟩, ⟨p, hc'⟩, ?_, hm⟩
    · rw [hm.size_eq]
      exact h.nonempty
    · rw [ht', hc']
      exact h.mapped.move (h.sound.positions_nodup g) hx hkg p
    · intro id
      have hin : l.table.contains c.id = true := h.contains_of_mem hc
      rw [contains, contains, ht', Std.ExtTreeMap.contains_insert]
      by_cases he : c.id = id
      · rw [← he, hin, Bool.or_true]
      · simp [he]
  · intro hn
    rw [hk₁] at hn
    exact hn.trans_lt (h.length_lt hc hkg)

lemma expel (h : l.Coherent) {g : Nat} {xs ys : List Cell} {c : Cell}
    (hx : l.cells g = xs ++ c :: ys) :
    ∃ l', l.unlink g c.position = .ok l' ∧ Expelled l (l'.drop c.id) g c (xs ++ ys) := by
  obtain ⟨l', hu, hs, ht, hc, hm⟩ := h.sound.unlink hx
  have hm' : Moved l (l'.drop c.id) := ⟨hm.size_eq, hm.bitmap_eq, hm.counters_eq⟩
  have htable : (l'.drop c.id).table = l.table.erase c.id := congrArg (·.erase c.id) ht
  refine ⟨l', hu, ⟨?_, hs, ?_⟩, hc, htable, hm'⟩
  · rw [hm'.size_eq]
    exact h.nonempty
  · rw [htable, show (l'.drop c.id).cells = Function.update l.cells g (xs ++ ys) from hc]
    exact h.mapped.erase (h.sound.positions_nodup g) hx

lemma insert (h : l.Coherent) (id : FrameId) :
    Meets (l.insert id) (fun l' => l.contains id = false ∧ Added l l' id)
      (l.contains id = true ∨ Arena.slotLimit ≤ l.resident) := by
  cases hid : l.contains id with
  | true => simp [Lru.insert, hid, Meets]
  | false =>
    have hno : l.table[id]? = none := Std.ExtTreeMap.getElem?_eq_none_of_contains_eq_false hid
    simp only [Lru.insert, hid, Bool.false_eq_true, if_false]
    have hplace := h.sound.place h.nonempty id
    apply Meets.bind (hplace.mono (fun _ hl => hl) fun hn => Or.inr (hn.trans (h.length_le 0)))
    rintro l' ⟨hs, ⟨p, ht, hc⟩, hm⟩
    have h' : l'.Coherent := by
      refine ⟨?_, hs, ?_⟩
      · rw [hm.size_eq]
        exact h.nonempty
      · rw [ht, hc]
        exact h.mapped.insert hno 0 p
    rw [h'.checkFrame id]
    exact ⟨trivial, h', ⟨p, ht, hc⟩, hm⟩

lemma modifyBits (h : l.Coherent) (g : Nat) {f : Generation → Generation}
    (hf : ∀ gen, (f gen).frames = gen.frames) : (l.modifyGeneration g f).Coherent := by
  have hc := cells_modifyGeneration_of_frames_eq (l := l) g hf
  refine ⟨by simpa using h.nonempty, ?_, ?_⟩
  · intro k gen hk
    rw [getElem?_modifyGeneration] at hk
    split_ifs at hk with he
    · obtain ⟨gen', hg, rfl⟩ := Option.map_eq_some_iff.mp hk
      rw [hf]
      exact h.sound k gen' hg
    · exact h.sound k gen hk
  · rw [hc]
    exact h.mapped

lemma order_modifyBits (h : l.Coherent) (g : Nat) {f : Generation → Generation}
    (hf : ∀ gen, (f gen).frames = gen.frames) : (l.modifyGeneration g f).order = l.order := by
  have hc := cells_modifyGeneration_of_frames_eq (l := l) g hf
  rw [(h.modifyBits g hf).sound.order_eq, h.sound.order_eq, size_modifyGeneration]
  unfold ids
  rw [hc]

end Coherent

namespace Consistent

lemma not_overfull (h : l.Consistent) : ¬l.Overfull := Nat.not_lt.mpr h.fits

lemma of_coherent (h : l.Consistent) (h' : l'.Coherent)
    (hsub : ∀ id, l'.contains id = true → l.contains id = true) : l'.Consistent :=
  ⟨h', (h.resident_le h' hsub).trans h.fits⟩

lemma insert (h : l.Consistent) {id : FrameId} (hid : l.contains id = false)
    (hn : l.resident < Arena.slotLimit) :
    ∃ l', l.insert id = .ok l' ∧ l'.Consistent ∧ Added l l' id := by
  have hroom : ¬(l.contains id = true ∨ Arena.slotLimit ≤ l.resident) := by
    rw [hid]
    simpa using hn
  obtain ⟨l', hi, _, ha⟩ := (h.toCoherent.insert id).exists_ok hroom
  exact ⟨l', hi, ⟨ha.coherent, by rw [ha.resident_eq hid]; exact hn⟩, ha⟩

end Consistent

end Lru

end FramePool
