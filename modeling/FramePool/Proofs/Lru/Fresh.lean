import FramePool.Proofs.Lru.Consistent

/-! A new engine is consistent, holds no frame and has no mark. -/

namespace FramePool

lemma pos_of_isPowerOfTwo {n : Nat} (h : isPowerOfTwo n = true) : 0 < n := by
  rcases Nat.eq_zero_or_pos n with rfl | hn
  · simp [isPowerOfTwo] at h
  · exact hn

lemma Bitmap.create_ok {words : Nat} {b : Bitmap} (h : Bitmap.create words = .ok b) :
    b = Bitmap.blank words ∧ isPowerOfTwo words = true := by
  rcases hp : isPowerOfTwo words with _ | _
  · simp [Bitmap.create, hp] at h
  · simp only [Bitmap.create, hp, Bool.not_true, Bool.false_eq_true, if_false, bind_eq_ok] at h
    obtain ⟨_, _, hb⟩ := h
    exact ⟨(Except.ok.inj hb).symm, rfl⟩

namespace Lru

def fresh (generations words : Nat) : Lru where
  generations :=
    ((List.range generations).map fun index => ⟨index, Arena.empty, Bitmap.blank words⟩).toArray
  table := ∅
  counters := {}

lemma create_ok {n words : Nat} {l : Lru} (h : Lru.create n words = .ok l) :
    l = fresh n words ∧ 0 < n ∧ isPowerOfTwo words = true := by
  rcases Nat.eq_zero_or_pos n with rfl | hn
  · simp [Lru.create] at h
  simp only [Lru.create, hn.ne', if_false, bind_eq_ok] at h
  obtain ⟨_, _, cohorts, hm, hl⟩ := h
  have hc : ∀ index b, Bitmap.create words = .ok b →
      Generation.create index words = .ok ⟨index, Arena.empty, b⟩ := by
    intro index b hb
    simp [Generation.create, hb]
  cases hb : Bitmap.create words with
  | error f =>
    obtain ⟨m, rfl⟩ := Nat.exists_eq_succ_of_ne_zero hn.ne'
    rw [List.range_succ_eq_map, List.mapM_cons] at hm
    simp [Generation.create, hb, bind, Except.bind] at hm
  | ok b =>
    obtain ⟨rfl, hw⟩ := Bitmap.create_ok hb
    rw [mapM_eq_ok _ fun index => hc index _ hb] at hm
    obtain rfl := Except.ok.inj hm
    exact ⟨(Except.ok.inj hl).symm, hn, hw⟩

variable (n words : Nat)

@[simp] lemma fresh_size : (fresh n words).generations.size = n := by simp [fresh]

lemma fresh_getElem? (g : Nat) : (fresh n words).generations[g]? =
    if g < n then some ⟨g, Arena.empty, Bitmap.blank words⟩ else none := by
  split_ifs with hg <;> simp [fresh, hg]

lemma fresh_cells (g : Nat) : (fresh n words).cells g = [] := by
  rw [cells, fresh_getElem?]
  split_ifs <;> simp

lemma fresh_marked (g : Nat) (id : FrameId) : ((fresh n words).bitmap g).marked id = false := by
  rw [bitmap, fresh_getElem?]
  split_ifs <;> simp

lemma fresh_coherent (hn : 0 < n) : (fresh n words).Coherent := by
  refine ⟨by simpa using hn, ?_, ?_⟩
  · intro g gen hg
    rw [fresh_getElem?] at hg
    split_ifs at hg
    obtain rfl := Option.some.inj hg
    exact Arena.sound_empty
  · intro id e
    rw [fresh_cells]
    simp [fresh]

lemma fresh_consistent (hn : 0 < n) : (fresh n words).Consistent :=
  ⟨fresh_coherent n words hn, Nat.zero_le _⟩

lemma fresh_order (hn : 0 < n) : (fresh n words).order = [] := by
  rw [(fresh_coherent n words hn).sound.order_eq]
  simp [ids, fresh_cells]

end Lru

end FramePool
