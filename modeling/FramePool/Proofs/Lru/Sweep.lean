import FramePool.Lru.Scan
import FramePool.Proofs.Lru.Consistent

/-! A sweep examines the last frames of the oldest generation. Which of them it evicts is a matter of
the access bits alone. -/

namespace FramePool

structure Sifted where
  evicted : List Cell
  promoted : List Cell
  bits : Bitmap

/-- Each marked cell takes its mark away, so the next one with the same bit is not spared. -/
def Bitmap.sift (b : Bitmap) : List Cell → Sifted
  | [] => ⟨[], [], b⟩
  | c :: cs =>
      if b.marked c.id then
        let r := (b.unmark c.id).sift cs
        ⟨r.evicted, c :: r.promoted, r.bits⟩
      else
        let r := b.sift cs
        ⟨c :: r.evicted, r.promoted, r.bits⟩

lemma Bitmap.length_sift (b : Bitmap) (cs : List Cell) :
    (b.sift cs).evicted.length + (b.sift cs).promoted.length = cs.length := by
  induction cs generalizing b with
  | nil => rfl
  | cons c cs ih =>
    rw [Bitmap.sift]
    split
    · have := ih (b.unmark c.id)
      simp only [List.length_cons]
      omega
    · have := ih b
      simp only [List.length_cons]
      omega

@[simp] lemma Bitmap.size_sift (b : Bitmap) (cs : List Cell) : (b.sift cs).bits.size = b.size := by
  induction cs generalizing b with
  | nil => rfl
  | cons c cs ih =>
    rw [Bitmap.sift]
    split
    · rw [ih, Bitmap.size_unmark]
    · exact ih b

def Scan.after (s : Scan) (r : Sifted) : Scan :=
  { s with
    evicted := s.evicted ++ (r.evicted.map Cell.id).toArray
    promoted := s.promoted + r.promoted.length
    scanned := s.scanned + (r.evicted.length + r.promoted.length) }

lemma Scan.after_evicted (s : Scan) (c : Cell) (r : Sifted) :
    Scan.after { s with scanned := s.scanned + 1, evicted := s.evicted.push c.id } r =
      s.after ⟨c :: r.evicted, r.promoted, r.bits⟩ := by
  simp only [Scan.after, List.map_cons, List.length_cons, Scan.mk.injEq, and_true, true_and]
  constructor
  · simp
  · omega

lemma Scan.after_promoted (s : Scan) (c : Cell) (r : Sifted) :
    Scan.after { s with scanned := s.scanned + 1, promoted := s.promoted + 1 } r =
      s.after ⟨r.evicted, c :: r.promoted, r.bits⟩ := by
  simp only [Scan.after, List.length_cons, Scan.mk.injEq, and_true, true_and]
  constructor <;> omega

namespace Lru

variable {l l₁ l' : Lru} {xs ys cs : List Cell} {c : Cell} {r : Sifted}

structure Sifts (l l' : Lru) (xs ys : List Cell) (r : Sifted) : Prop where
  size_eq : l'.generations.size = l.generations.size
  oldest_eq : l'.cells l.oldest = if l.oldest = 0 then xs ++ r.promoted.reverse ++ ys else xs ++ ys
  younger : l.oldest ≠ 0 → ∃ moved, l'.cells (l.oldest - 1) = moved ++ l.cells (l.oldest - 1) ∧
    moved.map Cell.id = (r.promoted.map Cell.id).reverse
  other : ∀ k, k ≠ l.oldest → k ≠ l.oldest - 1 → l'.cells k = l.cells k
  bitmap_eq : l'.bitmap = Function.update l.bitmap l.oldest r.bits
  mem_iff : ∀ id, l'.contains id = true ↔ l.contains id = true ∧ id ∉ r.evicted.map Cell.id

structure Spared (l l' : Lru) (c : Cell) (rest : List Cell) : Prop where
  coherent : l'.Coherent
  size_eq : l'.generations.size = l.generations.size
  counters_eq : l'.counters = l.counters
  cells_eq : if l.oldest = 0 then l'.cells = l.cells
    else ∃ p, l'.cells = Function.update (Function.update l.cells l.oldest rest) (l.oldest - 1)
      (⟨p, c.id⟩ :: l.cells (l.oldest - 1))
  contains_eq : ∀ id, l'.contains id = l.contains id
  bitmap_eq : l'.bitmap = Function.update l.bitmap l.oldest ((l.bitmap l.oldest).unmark c.id)

lemma Sifts.of_expelled (hs : Sifts l₁ l' xs ys r)
    (he : Expelled l l₁ l.oldest c (xs ++ cs.reverse ++ ys)) :
    Sifts l l' xs ys ⟨c :: r.evicted, r.promoted, r.bits⟩ := by
  have hsz := he.moved.size_eq
  have ho : l₁.oldest = l.oldest := by simp [oldest, hsz]
  refine ⟨hs.size_eq.trans hsz, ?_, ?_, ?_, ?_, ?_⟩
  · rw [← ho, hs.oldest_eq]
  · intro h0
    obtain ⟨moved, hc', hids⟩ := hs.younger (ho ▸ h0)
    rw [ho, he.cells_eq, Function.update_of_ne (by omega)] at hc'
    exact ⟨moved, hc', hids⟩
  · intro k hk hk'
    rw [hs.other k (ho ▸ hk) (ho ▸ hk'), he.cells_eq, Function.update_of_ne hk]
  · rw [hs.bitmap_eq, ho, he.moved.bitmap_eq]
  · intro id
    rw [hs.mem_iff, he.contains_eq]
    simp [and_assoc]

lemma Sifts.of_spared (hs : Sifts l₁ l' xs (if l.oldest = 0 then c :: ys else ys) r)
    (hp : Spared l l₁ c (xs ++ cs.reverse ++ ys)) :
    Sifts l l' xs ys ⟨r.evicted, c :: r.promoted, r.bits⟩ := by
  have hc := hp.cells_eq
  have ho : l₁.oldest = l.oldest := by simp [oldest, hp.size_eq]
  refine ⟨hs.size_eq.trans hp.size_eq, ?_, ?_, ?_, ?_, ?_⟩
  · rw [← ho, hs.oldest_eq, ho]
    split_ifs <;> simp
  · intro h0
    rw [if_neg h0] at hc
    obtain ⟨p, hc⟩ := hc
    obtain ⟨moved, hc', hids⟩ := hs.younger (ho ▸ h0)
    rw [ho, hc, Function.update_self] at hc'
    exact ⟨moved ++ [⟨p, c.id⟩], by simp [hc'], by simp [hids]⟩
  · intro k hk hk'
    rw [hs.other k (ho ▸ hk) (ho ▸ hk')]
    split_ifs at hc with h0
    · rw [hc]
    · obtain ⟨p, hc⟩ := hc
      rw [hc, Function.update_of_ne hk', Function.update_of_ne hk]
  · rw [hs.bitmap_eq, ho, hp.bitmap_eq, Function.update_idem]
  · intro id
    rw [hs.mem_iff, hp.contains_eq]

namespace Coherent

lemma examine_unmarked (h : l.Coherent) (hx : l.cells l.oldest = xs ++ c :: ys)
    (hm : (l.bitmap l.oldest).marked c.id = false) (s : Scan) :
    ∃ l', examine l.oldest (l, s) c.id =
        .ok (l', { s with scanned := s.scanned + 1, evicted := s.evicted.push c.id }) ∧
      Expelled l l' l.oldest c (xs ++ ys) := by
  obtain ⟨l', hu, hexp⟩ := h.expel hx
  obtain ⟨gen, hg⟩ := exists_generation (h.oldest_lt)
  rw [bitmap_of_getElem? hg] at hm
  have he : l.entry? c.id = some ⟨c.id, l.oldest, c.position⟩ :=
    h.mapped.getElem?_of_mem (by simp [hx])
  refine ⟨l'.drop c.id, ?_, hexp⟩
  simp [examine, he, generation_of_getElem? hg, hm, hu]

lemma promote_after_unmark (h : l.Coherent) (hx : l.cells l.oldest = xs ++ c :: ys) :
    Meets ((l.modifyGeneration l.oldest (·.unmark c.id)).promote ⟨c.id, l.oldest, c.position⟩)
      (fun l' => Spared l l' c (xs ++ ys)) l.Overfull := by
  obtain ⟨gen, hg⟩ := exists_generation (h.oldest_lt)
  have hu : ∀ gen : Generation, (gen.unmark c.id).frames = gen.frames := fun _ => rfl
  let l₁ := l.modifyGeneration l.oldest (·.unmark c.id)
  have h₁ : l₁.Coherent := h.modifyBits l.oldest hu
  have hc₁ : l₁.cells = l.cells := cells_modifyGeneration_of_frames_eq l.oldest hu
  have hb₁ : l₁.bitmap = Function.update l.bitmap l.oldest ((l.bitmap l.oldest).unmark c.id) := by
    rw [bitmap_of_getElem? hg]
    exact bitmap_modifyGeneration hg _
  have hs₁ : l₁.generations.size = l.generations.size := size_modifyGeneration _ _
  change Meets (l₁.promote _) _ _
  rw [promote]
  by_cases ho : l.oldest = 0
  · simp only [ho, if_true, pure_eq_ok]
    exact ⟨h₁, hs₁, rfl, by rwa [if_pos ho], fun _ => rfl, hb₁⟩
  · have hk : l.oldest - 1 < l₁.generations.size := by
      have := h.oldest_lt
      omega
    obtain ⟨l₂, hul, hp⟩ := h₁.move (hc₁ ▸ hx) hk (by omega)
    simp only [ho, if_false, hul, ok_bind]
    apply hp.bind
    intro l' hr
    obtain ⟨p, hc⟩ := hr.cells_eq
    rw [hr.coherent.checkFrame, ok_bind, pure_eq_ok]
    refine ⟨hr.coherent, hr.moved.size_eq.trans hs₁, hr.moved.counters_eq, ?_, hr.contains_eq,
      hr.moved.bitmap_eq.trans hb₁⟩
    rw [if_neg ho]
    exact ⟨p, by rw [hc, hc₁]⟩

lemma examine_marked (h : l.Coherent) (hx : l.cells l.oldest = xs ++ c :: ys)
    (hm : (l.bitmap l.oldest).marked c.id = true) (s : Scan) :
    Meets (examine l.oldest (l, s) c.id)
      (fun r => r.2 = { s with scanned := s.scanned + 1, promoted := s.promoted + 1 } ∧
        Spared l r.1 c (xs ++ ys)) l.Overfull := by
  obtain ⟨gen, hg⟩ := exists_generation (h.oldest_lt)
  have he : l.entry? c.id = some ⟨c.id, l.oldest, c.position⟩ :=
    h.mapped.getElem?_of_mem (by simp [hx])
  rw [bitmap_of_getElem? hg] at hm
  simp only [examine, he, ne_eq, not_true_eq_false, if_false, generation_of_getElem? hg, ok_bind, hm,
    if_true]
  apply (h.promote_after_unmark hx).bind
  exact fun l' hp => ⟨rfl, hp⟩

lemma foldlM_examine (h : l.Coherent) (cs : List Cell)
    (hx : l.cells l.oldest = xs ++ cs.reverse ++ ys) (s : Scan) :
    Meets ((cs.map Cell.id).foldlM (examine l.oldest) (l, s))
      (fun r => r.2 = s.after ((l.bitmap l.oldest).sift cs) ∧ r.1.Coherent ∧
        Sifts l r.1 xs ys ((l.bitmap l.oldest).sift cs) ∧ r.1.counters = l.counters)
      l.Overfull := by
  -- `cs` are the cells still to be examined. Those that a single generation spared are in `ys`.
  induction cs generalizing l s ys with
  | nil =>
    refine ⟨by simp [Bitmap.sift, Scan.after], h, ?_, rfl⟩
    refine ⟨rfl, ?_, fun _ => ⟨[], rfl, rfl⟩, fun _ _ _ => rfl, ?_, ?_⟩
    · simpa [Bitmap.sift] using hx
    · simp [Bitmap.sift]
    · simp [Bitmap.sift]
  | cons c cs ih =>
    have hx' : l.cells l.oldest = (xs ++ cs.reverse) ++ c :: ys := by simp [hx]
    rw [List.map_cons, List.foldlM_cons]
    cases hm : (l.bitmap l.oldest).marked c.id with
    | false =>
      obtain ⟨l₁, he, hexp⟩ := h.examine_unmarked hx' hm s
      have ho : l₁.oldest = l.oldest := by simp [oldest, hexp.moved.size_eq]
      have hx₁ : l₁.cells l₁.oldest = xs ++ cs.reverse ++ ys := by
        rw [ho, hexp.cells_eq, Function.update_self]
      have hrest := ih hexp.coherent hx₁
        { s with scanned := s.scanned + 1, evicted := s.evicted.push c.id }
      rw [ho, hexp.moved.bitmap_eq] at hrest
      rw [he, ok_bind]
      apply hrest.mono
      · rintro ⟨l', s'⟩ ⟨hs', h', hs, hct⟩
        refine ⟨?_, h', ?_, hct.trans hexp.moved.counters_eq⟩
        · simpa [Scan.after_evicted, Bitmap.sift, hm] using hs'
        · simpa [Bitmap.sift, hm] using hs.of_expelled hexp
      · apply h.overfull_of hexp.coherent
        intro id hid
        rw [hexp.contains_eq, Bool.and_eq_true] at hid
        exact hid.1
    | true =>
      apply (h.examine_marked hx' hm s).bind
      rintro ⟨l₁, s₁⟩ ⟨rfl, hp⟩
      have ho : l₁.oldest = l.oldest := by simp [oldest, hp.size_eq]
      have hx₁ : l₁.cells l₁.oldest =
          xs ++ cs.reverse ++ if l.oldest = 0 then c :: ys else ys := by
        have hc := hp.cells_eq
        rw [ho]
        split_ifs at hc ⊢ with h0
        · rw [hc, hx']
        · obtain ⟨p, hc⟩ := hc
          rw [hc, Function.update_of_ne (by omega), Function.update_self]
      have hrest := ih hp.coherent hx₁
        { s with scanned := s.scanned + 1, promoted := s.promoted + 1 }
      rw [ho, hp.bitmap_eq, Function.update_self] at hrest
      apply hrest.mono
      · rintro ⟨l', s'⟩ ⟨hs', h', hs, hct⟩
        refine ⟨?_, h', ?_, hct.trans hp.counters_eq⟩
        · simpa [Scan.after_promoted _ c, Bitmap.sift, hm] using hs'
        · simpa [Bitmap.sift, hm] using hs.of_spared hp
      · exact h.overfull_of hp.coherent fun id hid => (hp.contains_eq id).symm.trans hid

end Coherent

end Lru

end FramePool
