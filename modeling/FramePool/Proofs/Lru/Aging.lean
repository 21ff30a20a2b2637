import FramePool.Lru.Aging
import FramePool.Proofs.Lru.Order

/-! Aging shifts every list into the next older one, in the same order, and wipes all access bits. -/

namespace FramePool

namespace Lru

variable {l l' : Lru}

def older (n : Nat) (f : Nat → List FrameId) (g : Nat) : List FrameId :=
  if n < g then f g
  else (if g = 0 then [] else f (g - 1)) ++ (if g = n then f n else [])

structure Poured (g : Nat) (l l' : Lru) : Prop where
  size_eq : l'.generations.size = l.generations.size
  counters_eq : l'.counters = l.counters
  source : l'.cells g = []
  target : ∃ moved, l'.cells (g + 1) = moved ++ l.cells (g + 1) ∧ moved.map Cell.id = l.ids g
  other : ∀ k, k ≠ g → k ≠ g + 1 → l'.cells k = l.cells k
  contains_eq : ∀ id, l'.contains id = l.contains id

lemma Coherent.moveOlder (h : l.Coherent) {g : Nat} {xs : List Cell} {c : Cell}
    (hx : l.cells g = xs ++ [c]) (hg : g + 1 < l.generations.size) :
    Meets (l.moveOlder g c.id) (fun l' => Relocated l l' g (g + 1) c xs) l.Overfull := by
  obtain ⟨l₁, hu, hp⟩ := h.move hx hg (by omega)
  have he : l.entry? c.id = some ⟨c.id, g, c.position⟩ := h.mapped.getElem?_of_mem (by simp [hx])
  simpa [Lru.moveOlder, he, hu] using hp

lemma Coherent.foldlM_moveOlder (h : l.Coherent) {g : Nat} (hg : g + 1 < l.generations.size)
    (cs : List Cell) (hcs : l.cells g = cs.reverse) :
    Meets ((cs.map Cell.id).foldlM (Lru.moveOlder g) l)
      (fun l' => l'.Coherent ∧ Poured g l l' ∧ l'.bitmap = l.bitmap) l.Overfull := by
  induction cs generalizing l with
  | nil =>
    refine ⟨h, ⟨rfl, rfl, hcs, ⟨[], rfl, ?_⟩, fun _ _ _ => rfl, fun _ => rfl⟩, rfl⟩
    simp [ids, hcs]
  | cons c cs ih =>
    rw [List.reverse_cons] at hcs
    rw [List.map_cons, List.foldlM_cons]
    apply (h.moveOlder hcs hg).bind
    intro l₁ hr
    obtain ⟨p, hc₁⟩ := hr.cells_eq
    have hsource : l₁.cells g = cs.reverse := by
      rw [hc₁, Function.update_of_ne (by omega), Function.update_self]
    have htarget : l₁.cells (g + 1) = ⟨p, c.id⟩ :: l.cells (g + 1) := by
      rw [hc₁, Function.update_self]
    apply (ih hr.coherent (hr.moved.size_eq ▸ hg) hsource).mono
    · rintro l' ⟨h', hp', hb'⟩
      obtain ⟨moved, hc', hids⟩ := hp'.target
      refine ⟨h', ?_, hb'.trans hr.moved.bitmap_eq⟩
      refine ⟨hp'.size_eq.trans hr.moved.size_eq, hp'.counters_eq.trans hr.moved.counters_eq,
        hp'.source, ⟨moved ++ [⟨p, c.id⟩], by simp [hc', htarget], ?_⟩, ?_, ?_⟩
      · simp [hids, ids, hsource, hcs]
      · intro k hk hk'
        rw [hp'.other k hk hk', hc₁, Function.update_of_ne hk', Function.update_of_ne hk]
      · intro id
        rw [hp'.contains_eq, hr.contains_eq]
    · exact h.overfull_of hr.coherent fun id hid => (hr.contains_eq id).symm.trans hid

lemma Poured.ids_target {g : Nat} (h : Poured g l l') : l'.ids (g + 1) = l.ids g ++ l.ids (g + 1) := by
  obtain ⟨moved, hc, hm⟩ := h.target
  simp [ids, hc, hm]

lemma Poured.order_eq {g : Nat} (h : Poured g l l') (hs : l.SoundLists) (hs' : l'.SoundLists)
    (hg : g + 1 < l.generations.size) : l'.order = l.order := by
  refine order_of_join hs hs' h.size_eq hg h.other ?_
  rw [h.ids_target, ids, h.source, List.map_nil, List.nil_append]

lemma Coherent.shift (h : l.Coherent) {g : Nat} (hg : g + 1 < l.generations.size) :
    Meets (l.shift g) (fun l' => l'.Coherent ∧ Poured g l l' ∧
      l'.bitmap = Function.update l.bitmap g (l.bitmap g).wipe) l.Overfull := by
  obtain ⟨gen, hgen⟩ := exists_generation (Nat.lt_of_succ_lt hg)
  have hs := h.sound g gen hgen
  have hcs : l.cells g = gen.frames.cells.reverse.reverse := by simp [cells_of_getElem? hgen]
  have hlast : gen.frames.lastIds gen.frames.size = gen.frames.cells.reverse.map Cell.id := by
    rw [hs.lastIds_eq, hs.size_eq, ← List.length_reverse, List.take_length]
  simp only [Lru.shift, generation_of_getElem? hgen, ok_bind, hlast, pure_eq_ok]
  apply (h.foldlM_moveOlder hg gen.frames.cells.reverse hcs).bind
  rintro l₁ ⟨h₁, hp, hb⟩
  obtain ⟨gen₁, hgen₁⟩ := exists_generation (hp.size_eq ▸ Nat.lt_of_succ_lt hg : g < l₁.generations.size)
  have hc := cells_modifyGeneration_of_frames_eq (l := l₁) g (f := Generation.wipe) fun _ => rfl
  refine ⟨h₁.modifyBits g fun _ => rfl, ?_, ?_⟩
  · refine ⟨by simpa using hp.size_eq, hp.counters_eq, ?_, ?_, ?_, hp.contains_eq⟩
    · rw [hc, hp.source]
    · rw [hc]
      exact hp.target
    · rw [hc]
      exact hp.other
  · rw [bitmap_modifyGeneration hgen₁, hb, ← hb, bitmap_of_getElem? hgen₁]
    rfl

structure Shifted (n : Nat) (l l' : Lru) : Prop where
  size_eq : l'.generations.size = l.generations.size
  counters_eq : l'.counters = l.counters
  ids_eq : l'.ids = older n l.ids
  above : ∀ g, n < g → l'.cells g = l.cells g
  suffix : l.cells n <:+ l'.cells n
  bitmap_eq : ∀ g, l'.bitmap g = if g < n then (l.bitmap g).wipe else l.bitmap g
  contains_eq : ∀ id, l'.contains id = l.contains id
  order_eq : l'.order = l.order

lemma older_zero (f : Nat → List FrameId) : older 0 f = f := by
  funext g
  rcases g with _ | g <;> simp [older]

lemma older_succ {n : Nat} {f f' : Nat → List FrameId} (hn : f' n = [])
    (hs : f' (n + 1) = f n ++ f (n + 1)) (ho : ∀ k, k ≠ n → k ≠ n + 1 → f' k = f k) :
    older n f' = older (n + 1) f := by
  funext g
  rcases Nat.lt_trichotomy g (n + 1) with hg | rfl | hg
  · have hl : (if g = n then f' n else []) = [] := by
      split_ifs
      · exact hn
      · rfl
    have hp : (if g = 0 then [] else f' (g - 1)) = if g = 0 then [] else f (g - 1) := by
      split_ifs
      · rfl
      · exact ho _ (by omega) (by omega)
    have h₁ : ¬n < g := by omega
    have h₂ : ¬n + 1 < g := by omega
    have h₃ : g ≠ n + 1 := by omega
    simp only [older, if_neg h₁, if_neg h₂, if_neg h₃, hl, hp]
  · simp [older, hs]
  · simp [older, ho g (by omega) (by omega), hg, Nat.lt_of_succ_lt hg]

lemma Coherent.shiftBelow (n : Nat) (h : l.Coherent) (hn : n < l.generations.size) :
    Meets (shiftBelow n l) (fun l' => l'.Coherent ∧ Shifted n l l') l.Overfull := by
  induction n generalizing l with
  | zero =>
    refine ⟨h, rfl, rfl, (older_zero _).symm, fun _ _ => rfl, List.suffix_rfl, ?_, fun _ => rfl, rfl⟩
    simp
  | succ n ih =>
    rw [Lru.shiftBelow]
    apply (h.shift hn).bind
    rintro l₁ ⟨h₁, hp, hb⟩
    apply (ih h₁ (hp.size_eq ▸ Nat.lt_of_succ_lt hn)).mono
    · rintro l' ⟨h', hsh⟩
      have hids : l₁.ids n = [] := by rw [ids, hp.source, List.map_nil]
      have ho : ∀ k, k ≠ n → k ≠ n + 1 → l₁.ids k = l.ids k := by
        intro k hk hk'
        rw [ids, ids, hp.other k hk hk']
      refine ⟨h', hsh.size_eq.trans hp.size_eq, hsh.counters_eq.trans hp.counters_eq, ?_, ?_, ?_, ?_,
        ?_, ?_⟩
      · rw [hsh.ids_eq, older_succ hids hp.ids_target ho]
      · intro g hg
        rw [hsh.above g (by omega), hp.other g (by omega) (by omega)]
      · obtain ⟨moved, hc, _⟩ := hp.target
        rw [hsh.above (n + 1) (by omega), hc]
        exact List.suffix_append moved _
      · intro g
        rw [hsh.bitmap_eq, hb]
        rcases Nat.lt_trichotomy g n with hg | rfl | hg
        · rw [if_pos hg, if_pos (by omega), Function.update_of_ne (by omega)]
        · simp
        · rw [if_neg (by omega), if_neg (by omega), Function.update_of_ne (by omega)]
      · intro id
        rw [hsh.contains_eq, hp.contains_eq]
      · rw [hsh.order_eq, hp.order_eq h.sound h₁.sound hn]
    · exact h.overfull_of h₁ fun id hid => (hp.contains_eq id).symm.trans hid

/-- Every frame is one generation older, in the same order, and all access bits are wiped. -/
structure Aged (l l' : Lru) : Prop where
  size_eq : l'.generations.size = l.generations.size
  counters_eq : l'.counters = { l.counters with agings := l.counters.agings + 1 }
  ids_eq : l'.ids = older l.oldest l.ids
  suffix : l.cells l.oldest <:+ l'.cells l.oldest
  bitmap_eq : ∀ g, l'.bitmap g = (l.bitmap g).wipe
  contains_eq : ∀ id, l'.contains id = l.contains id
  order_eq : l'.order = l.order

lemma Aged.words_eq (h : Aged l l') (g : Nat) : (l'.bitmap g).size = (l.bitmap g).size := by
  rw [h.bitmap_eq, Bitmap.size_wipe]

lemma Coherent.age (h : l.Coherent) :
    Meets l.age (fun l' => l'.Coherent ∧ Aged l l') l.Overfull := by
  have hn := h.oldest_lt
  rw [Lru.age]
  apply (h.shiftBelow l.oldest hn).bind
  rintro l₁ ⟨h₁, hsh⟩
  obtain ⟨gen, hg⟩ := exists_generation (hsh.size_eq ▸ hn)
  have hw : ∀ gen : Generation, gen.wipe.frames = gen.frames := fun _ => rfl
  let l₂ := l₁.modifyGeneration l.oldest Generation.wipe
  let l' := { l₂ with counters := { l₂.counters with agings := l₂.counters.agings + 1 } }
  have h₂ : l₂.Coherent := h₁.modifyBits l.oldest hw
  have h' : l'.Coherent := ⟨h₂.nonempty, h₂.sound, h₂.mapped⟩
  have hc : l'.cells = l₁.cells := cells_modifyGeneration_of_frames_eq l.oldest hw
  have hsz : l'.generations.size = l.generations.size :=
    (size_modifyGeneration l.oldest _).trans hsh.size_eq
  change Meets (l'.checkSizes >>= fun _ => .ok l') _ _
  rw [h'.checkSizes, ok_bind]
  refine ⟨h', hsz, ?_, ?_, ?_, ?_, hsh.contains_eq, ?_⟩
  · exact congrArg (fun c : Counters => { c with agings := c.agings + 1 }) hsh.counters_eq
  · rw [← hsh.ids_eq]
    exact congrArg (fun f g => (f g).map Cell.id) hc
  · rw [hc]
    exact hsh.suffix
  · intro g
    have hb : l'.bitmap = Function.update l₁.bitmap l.oldest gen.wipe.accessed :=
      bitmap_modifyGeneration hg _
    rw [hb]
    rcases Nat.lt_trichotomy g l.oldest with hg' | rfl | hg'
    · rw [Function.update_of_ne (by omega), hsh.bitmap_eq, if_pos hg']
    · have hw' := hsh.bitmap_eq l.oldest
      rw [if_neg (by omega), bitmap_of_getElem? hg] at hw'
      rw [Function.update_self, ← hw']
      rfl
    · have hout : l.generations.size ≤ g := by
        rw [h.size_eq_succ]
        exact hg'
      rw [Function.update_of_ne (by omega), hsh.bitmap_eq, if_neg (by omega), bitmap_of_le hout]
      simp [Bitmap.blank, Bitmap.wipe]
  · exact (h₁.order_modifyBits l.oldest hw).trans hsh.order_eq

lemma Consistent.age (h : l.Consistent) : ∃ l', l.age = .ok l' ∧ l'.Consistent ∧ Aged l l' := by
  obtain ⟨l', ha, h', hag⟩ := h.toCoherent.age.exists_ok h.not_overfull
  exact ⟨l', ha, h.of_coherent h' fun id hid => (hag.contains_eq id).symm.trans hid, hag⟩

end Lru

end FramePool
