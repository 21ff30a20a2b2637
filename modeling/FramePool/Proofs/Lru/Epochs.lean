import FramePool.Proofs.Lru.Agreement
import FramePool.Proofs.Lru.Survival

/-! Aging moves every frame by exactly one generation, until it is in the oldest one. When all frames are
there, further agings are only counted. -/

namespace FramePool

lemma Bitmap.wipe_eq_blank (b : Bitmap) : b.wipe = blank b.size := by
  rw [wipe, blank, Array.map_const']
  rfl

@[simp] lemma Bitmap.wipe_blank (words : Nat) : (blank words).wipe = blank words := by
  rw [wipe_eq_blank, size_blank]

namespace Lru

variable {l l' l₁ : Lru} {words : Nat} {id : FrameId}

def withAgings (l : Lru) (k : Nat) : Lru :=
  { l with counters := { l.counters with agings := l.counters.agings + k } }

lemma mem_older {n g : Nat} {f : Nat → List FrameId} (hg : g ≤ n) (hid : id ∈ f g) :
    id ∈ older n f (min (g + 1) n) := by
  have hn : ¬n < min (g + 1) n := by omega
  rw [older, if_neg hn, List.mem_append]
  rcases Nat.lt_or_eq_of_le hg with hlt | rfl
  · have hmin : min (g + 1) n = g + 1 := by omega
    rw [hmin]
    exact Or.inl hid
  · rw [Nat.min_eq_right (Nat.le_succ g), if_pos rfl]
    exact Or.inr hid

lemma Coherent.generation_le (h : l.Coherent) {e : Entry} (he : l.entry? id = some e) :
    e.generation ≤ l.oldest := by
  have hlt := lt_of_mem_cells ((h.mapped id e).mp he).2
  rw [h.size_eq_succ] at hlt
  exact Nat.le_of_lt_succ hlt

/-- Where the frames of `l` are after `k` agings. -/
structure Outlived (k : Nat) (l l' : Lru) : Prop where
  size_eq : l'.generations.size = l.generations.size
  counters_eq : l'.counters = (l.withAgings k).counters
  contains_eq : ∀ id, l'.contains id = l.contains id
  entry_eq : ∀ id e, l.entry? id = some e →
    ∃ p, l'.entry? id = some ⟨id, min (e.generation + k) l.oldest, p⟩
  bitmap_eq : ∀ g, l'.bitmap g = if k = 0 then l.bitmap g else (l.bitmap g).wipe

lemma Outlived.zero (h : l.Coherent) : Outlived 0 l l where
  size_eq := rfl
  counters_eq := rfl
  contains_eq _ := rfl
  entry_eq id e he := by
    obtain ⟨rfl, _⟩ := (h.mapped id e).mp he
    have hmin : min (e.generation + 0) l.oldest = e.generation := Nat.min_eq_left (h.generation_le he)
    rw [hmin]
    exact ⟨e.position, he⟩
  bitmap_eq _ := rfl

lemma Aged.outlived (ha : Aged l l') (h : l.Coherent) (h' : l'.Coherent) : Outlived 1 l l' where
  size_eq := ha.size_eq
  counters_eq := ha.counters_eq
  contains_eq := ha.contains_eq
  entry_eq id e he := by
    obtain ⟨rfl, hc⟩ := (h.mapped id e).mp he
    apply h'.mem_ids.mp
    rw [ha.ids_eq]
    exact mem_older (h.generation_le he) (List.mem_map_of_mem hc)
  bitmap_eq := ha.bitmap_eq

lemma Outlived.cons {k : Nat} (h : Outlived 1 l l₁) (h' : Outlived k l₁ l') :
    Outlived (k + 1) l l' where
  size_eq := h'.size_eq.trans h.size_eq
  counters_eq := by
    rw [h'.counters_eq, withAgings, h.counters_eq, withAgings, withAgings]
    simp only [Counters.mk.injEq, true_and]
    omega
  contains_eq id := by rw [h'.contains_eq, h.contains_eq]
  entry_eq id e he := by
    obtain ⟨p, he₁⟩ := h.entry_eq id e he
    obtain ⟨p', he'⟩ := h'.entry_eq id _ he₁
    have ho : l₁.oldest = l.oldest := by simp [oldest, h.size_eq]
    have hmin : min (min (e.generation + 1) l.oldest + k) l₁.oldest =
        min (e.generation + (k + 1)) l.oldest := by omega
    rw [hmin] at he'
    exact ⟨p', he'⟩
  bitmap_eq g := by
    have hwiped : l₁.bitmap g = (l.bitmap g).wipe := h.bitmap_eq g
    rw [h'.bitmap_eq, if_neg (Nat.succ_ne_zero k), hwiped]
    split_ifs
    · rfl
    · rw [Bitmap.wipe_eq_blank (l.bitmap g), Bitmap.wipe_blank]

lemma Consistent.run_agings (h : l.Consistent) (k : Nat) :
    ∃ l', Lru.run (List.replicate k .age) l = .ok (List.replicate k .done, l') ∧ l'.Consistent ∧
      Outlived k l l' := by
  induction k generalizing l with
  | zero => exact ⟨l, rfl, h, .zero h.toCoherent⟩
  | succ k ih =>
    obtain ⟨l₁, ha, h₁, hag⟩ := h.age
    obtain ⟨l', hr, h', ho⟩ := ih h₁
    refine ⟨l', ?_, h', (hag.outlived h.toCoherent h₁.toCoherent).cons ho⟩
    simp [List.replicate_succ, Lru.run, Lru.step, ha, hr]

structure Gathered (l : Lru) : Prop where
  younger : ∀ g, g < l.oldest → l.cells g = []
  blank : ∀ g, g < l.generations.size → (l.bitmap g).wipe = l.bitmap g

lemma modifyGeneration_eq_self {g : Nat} {f : Generation → Generation}
    (hf : ∀ gen, l.generations[g]? = some gen → f gen = gen) : l.modifyGeneration g f = l := by
  have hgen : l.generations.modify g f = l.generations := by
    apply Array.ext_getElem?
    intro k
    rw [Array.getElem?_modify]
    split_ifs with hk
    · subst hk
      cases hg : l.generations[g]? with
      | none => rfl
      | some gen => rw [Option.map_some, hf gen hg]
    · rfl
  rw [modifyGeneration, hgen]

namespace Gathered

lemma wipe_eq_self (hga : l.Gathered) (g : Nat) : l.modifyGeneration g Generation.wipe = l := by
  apply modifyGeneration_eq_self
  intro gen hg
  obtain ⟨hlt, _⟩ := Array.getElem?_eq_some_iff.mp hg
  have hb := hga.blank g hlt
  rw [bitmap_of_getElem? hg] at hb
  rw [Generation.wipe, hb]

lemma shift (hga : l.Gathered) (h : l.Coherent) {g : Nat} (hg : g < l.oldest) : l.shift g = .ok l := by
  obtain ⟨gen, hgen⟩ := exists_generation (hg.trans h.oldest_lt)
  have hnone := hga.younger g hg
  rw [cells_of_getElem? hgen] at hnone
  have hlast : gen.frames.lastIds gen.frames.size = [] := by
    rw [(h.sound g gen hgen).lastIds_eq, hnone, List.reverse_nil, List.take_nil, List.map_nil]
  simp only [Lru.shift, generation_of_getElem? hgen, ok_bind, hlast, List.foldlM_nil, pure_eq_ok,
    hga.wipe_eq_self]

lemma shiftBelow (hga : l.Gathered) (h : l.Coherent) {n : Nat} (hn : n ≤ l.oldest) :
    Lru.shiftBelow n l = .ok l := by
  induction n with
  | zero => rfl
  | succ n ih => rw [Lru.shiftBelow, hga.shift h hn, ok_bind, ih (Nat.le_of_succ_le hn)]

lemma age (hga : l.Gathered) (h : l.Coherent) : l.age = .ok (l.withAgings 1) := by
  have h' : (l.withAgings 1).Coherent := ⟨h.nonempty, h.sound, h.mapped⟩
  have hck : (l.withAgings 1).checkSizes = .ok () := h'.checkSizes
  rw [withAgings] at hck ⊢
  simp only [Lru.age, hga.shiftBelow h le_rfl, ok_bind, hga.wipe_eq_self, hck, pure_eq_ok]

lemma run_agings (hga : l.Gathered) (h : l.Coherent) (k : Nat) :
    run (List.replicate k .age) l = .ok (List.replicate k .done, l.withAgings k) := by
  induction k generalizing l with
  | zero => rfl
  | succ k ih =>
    have h' : (l.withAgings 1).Coherent := ⟨h.nonempty, h.sound, h.mapped⟩
    have hga' : (l.withAgings 1).Gathered := ⟨hga.younger, hga.blank⟩
    have hsum : (l.withAgings 1).withAgings k = l.withAgings (k + 1) := by
      simp only [withAgings, Lru.mk.injEq, Counters.mk.injEq, true_and]
      omega
    simp [List.replicate_succ, Lru.run, Lru.step, hga.age h, ih hga' h', hsum]

end Gathered

lemma Outlived.younger (ho : Outlived l.oldest l l') (h' : l'.Coherent) {g : Nat} (hg : g < l'.oldest) :
    l'.cells g = [] := by
  have hold : l'.oldest = l.oldest := by simp [oldest, ho.size_eq]
  apply List.eq_nil_iff_forall_not_mem.mpr
  intro c hc
  have hres : l.contains c.id = true := (ho.contains_eq c.id).symm.trans (h'.contains_of_mem hc)
  rw [contains_eq_isSome] at hres
  obtain ⟨e, he⟩ := Option.isSome_iff_exists.mp hres
  obtain ⟨p, he'⟩ := ho.entry_eq c.id e he
  have hgen := congrArg Entry.generation (Option.some.inj (he'.symm.trans (h'.mapped.getElem?_of_mem hc)))
  simp only at hgen
  omega

lemma Outlived.gathered (ho : Outlived l.oldest l l') (h' : l'.Coherent) (h0 : l.oldest ≠ 0) :
    l'.Gathered := by
  refine ⟨fun g hg => ho.younger h' hg, fun g _ => ?_⟩
  rw [ho.bitmap_eq, if_neg h0, Bitmap.wipe_eq_blank (l.bitmap g), Bitmap.wipe_blank]

structure Advanced (l l' : Lru) (words : Nat) : Prop where
  youngest : l.oldest ≠ 0 → l'.ids 0 = []
  middle : ∀ g, 0 < g → g < l.oldest → l'.ids g = l.ids (g - 1)
  joined : l.oldest ≠ 0 → ∃ moved, l'.cells l.oldest = moved ++ l.cells l.oldest ∧
    moved.map Cell.id = l.ids (l.oldest - 1)
  single : l.oldest = 0 → l'.cells 0 = l.cells 0
  entry_eq : ∀ id e, l.entry? id = some e →
    ∃ p, l'.entry? id = some ⟨id, min (e.generation + 1) l.oldest, p⟩ ∧
      l'.ListedAt (min (e.generation + 1) l.oldest) p id
  contains_eq : ∀ id, l'.contains id = l.contains id
  bitmap_eq : ∀ g, g ≤ l.oldest → l'.bitmap g = Bitmap.blank words
  size_eq : l'.generations.size = l.generations.size
  counters_eq : l'.counters = (l.withAgings 1).counters
  agrees : l'.Agrees

lemma Consistent.advanced (h : l.Consistent) (hu : l.Uniform words) :
    ∃ l', l.age = .ok l' ∧ Advanced l l' words := by
  obtain ⟨l', ha, h', hag⟩ := h.age
  have hout := hag.outlived h.toCoherent h'.toCoherent
  have holdest : l'.ids l.oldest = (if l.oldest = 0 then [] else l.ids (l.oldest - 1)) ++ l.ids l.oldest := by
    rw [hag.ids_eq, older, if_neg (Nat.lt_irrefl _), if_pos rfl]
  obtain ⟨moved, hmoved⟩ := hag.suffix
  exact ⟨l', ha, {
    youngest := by
      intro h0
      rw [hag.ids_eq, older, if_neg (Nat.not_lt_zero _), if_pos rfl, if_neg h0.symm, List.append_nil]
    middle := by
      intro g hpos hlt
      rw [hag.ids_eq, older, if_neg (by omega), if_neg hpos.ne', if_neg hlt.ne, List.append_nil]
    joined := by
      intro h0
      refine ⟨moved, hmoved.symm, ?_⟩
      rw [if_neg h0, ids, ← hmoved, List.map_append] at holdest
      exact List.append_cancel_right holdest
    single := by
      intro h0
      rw [if_pos h0, List.nil_append] at holdest
      have hlen := congrArg List.length holdest
      rw [length_ids, length_ids] at hlen
      have hsame := hag.suffix.eq_of_length hlen.symm
      rw [h0] at hsame
      exact hsame.symm
    entry_eq := by
      intro id e he
      obtain ⟨p, hp⟩ := hout.entry_eq id e he
      exact ⟨p, hp, (h'.agrees.entry_iff id _ p).mp hp⟩
    contains_eq := hag.contains_eq
    bitmap_eq := by
      intro g hg
      have hlt := Nat.lt_of_le_of_lt hg h.oldest_lt
      rw [hag.bitmap_eq, Bitmap.wipe_eq_blank, hu g hlt]
    size_eq := hag.size_eq
    counters_eq := hag.counters_eq
    agrees := h'.agrees }⟩

theorem aging_outcome {n : Nat} {start : Lru} {past : List Op} {outs : List Outcome}
    (hc : Lru.create n words = .ok start) (hr : run past start = .ok (outs, l))
    (hn : l.resident < Arena.slotLimit) :
    l.oldest + 1 = n ∧ (∃ l', l.age = .ok l' ∧ Advanced l l' words) ∧
      (2 ≤ n → ∃ last, run (List.replicate (n - 1) .age) l = .ok (List.replicate (n - 1) .done, last) ∧
        (∀ id, last.contains id = l.contains id) ∧
        (∀ g, g < n - 1 → last.ids g = []) ∧
        (∀ id e, last.entry? id = some e → e.generation = n - 1) ∧
        ∀ k, run (List.replicate k .age) last = .ok (List.replicate k .done, last.withAgings k)) := by
  obtain ⟨rfl, hpos, _⟩ := create_ok hc
  obtain ⟨h, hsz, hwords, _⟩ := (fresh_coherent n words hpos).run hr
  have hcons : l.Consistent := ⟨h, hn.le⟩
  have hold : l.oldest + 1 = n := by rw [← h.size_eq_succ, hsz, fresh_size]
  refine ⟨hold, hcons.advanced ((fresh_uniform n words).of_words_eq hsz hwords), fun htwo => ?_⟩
  obtain ⟨last, hrun, hlast, hout⟩ := hcons.run_agings l.oldest
  have hga := hout.gathered hlast.toCoherent (by omega)
  have hsame : last.oldest = l.oldest := by simp [oldest, hout.size_eq]
  have hn1 : n - 1 = l.oldest := by omega
  rw [hn1]
  refine ⟨last, hrun, hout.contains_eq, ?_, ?_, hga.run_agings hlast.toCoherent⟩
  · intro g hg
    rw [ids, hga.younger g (hsame ▸ hg), List.map_nil]
  · intro id e he
    obtain ⟨_, hc⟩ := (hlast.mapped id e).mp he
    rcases Nat.eq_or_lt_of_le (hlast.generation_le he) with hg | hlt
    · exact hg.trans hsame
    · rw [hga.younger e.generation hlt] at hc
      cases hc

theorem aging_of_three_generations :
    ∃ start, Lru.create 3 2 = .ok start ∧
      ∃ outs l, run [.insert 1, .age, .insert 7, .touch 1, .age, .insert 3, .touch 3] start =
        .ok (outs, l) ∧ l.resident < Arena.slotLimit ∧ l.ids 2 = [1] ∧ l.ids 1 = [7] ∧ l.ids 0 = [3] ∧
      (∃ l', l.age = .ok l' ∧ Advanced l l' 2 ∧ l'.ids 2 = [7, 1]) ∧
      ∃ last, run [.age, .age] l = .ok ([.done, .done], last) ∧ last.ids 0 = [] ∧ last.ids 1 = [] ∧
        ∀ k, run (List.replicate k .age) last = .ok (List.replicate k .done, last.withAgings k) := by
  have hp : ∃ outs l, run [.insert 1, .age, .insert 7, .touch 1, .age, .insert 3, .touch 3] (fresh 3 2) =
      .ok (outs, l) ∧ l.resident = 3 ∧ l.ids 2 = [1] ∧ l.ids 1 = [7] ∧ l.ids 0 = [3] :=
    ⟨_, _, rfl, by decide +kernel⟩
  obtain ⟨outs, l, hr, hres, h₂, h₁, h₀⟩ := hp
  have hn : l.resident < Arena.slotLimit := by
    rw [hres]
    decide
  have hc : Lru.create 3 2 = .ok (fresh 3 2) := rfl
  obtain ⟨hold, ⟨l', ha, hadv⟩, hmany⟩ := aging_outcome hc hr hn
  obtain ⟨last, hrun, _, hnone, _, hmore⟩ := hmany (by decide)
  have ho : l.oldest = 2 := by omega
  obtain ⟨moved, hcells, hmoved⟩ := hadv.joined (by omega)
  rw [ho] at hcells hmoved
  refine ⟨fresh 3 2, hc, outs, l, hr, hn, h₂, h₁, h₀, ⟨l', ha, hadv, ?_⟩, last, hrun,
    hnone 0 (by decide), hnone 1 (by decide), hmore⟩
  rw [ids, hcells, List.map_append, hmoved, h₁]
  exact congrArg (7 :: ·) h₂

end Lru

end FramePool
