import FramePool.Proofs.Arena.Handles
import FramePool.Proofs.Lru.History

/-! The edits of the lists that an operation makes: which frames leave which list and which enter one,
in this order. -/

namespace FramePool

abbrev Edit := Nat × Arena.Change

def changesAt (g : Nat) (es : List Edit) : List Arena.Change :=
  es.filterMap fun e => if e.1 = g then some e.2 else none

def departures (es : List Edit) : List FrameId :=
  es.filterMap fun
    | (_, .left c) => some c.id
    | (_, .entered _) => none

def transfer (g k : Nat) (c : Cell) : List Edit := [(g, .left c), (k, .entered c.id)]

variable {es fs : List Edit} {g k : Nat} {c : Cell}

@[simp] lemma changesAt_append (g : Nat) (es fs : List Edit) :
    changesAt g (es ++ fs) = changesAt g es ++ changesAt g fs := List.filterMap_append

@[simp] lemma departures_append (es fs : List Edit) :
    departures (es ++ fs) = departures es ++ departures fs := List.filterMap_append

lemma mem_departures {id : FrameId} : id ∈ departures es ↔ ∃ g c, (g, .left c) ∈ es ∧ c.id = id := by
  simp only [departures, List.mem_filterMap, Prod.exists]
  constructor
  · rintro ⟨g, _ | c, he, hi⟩
    · cases hi
    · exact ⟨g, c, he, Option.some.inj hi⟩
  · rintro ⟨g, c, he, hi⟩
    exact ⟨g, .left c, he, congrArg some hi⟩

lemma mem_changesAt {e : Arena.Change} : e ∈ changesAt g es ↔ (g, e) ∈ es := by
  simp only [changesAt, List.mem_filterMap, Prod.exists]
  constructor
  · rintro ⟨k, e', he, hi⟩
    split_ifs at hi with hk
    obtain rfl := Option.some.inj hi
    exact hk ▸ he
  · exact fun he => ⟨g, e, he, if_pos rfl⟩

namespace Lru

def arena (l : Lru) (g : Nat) : Arena :=
  match l.generations[g]? with
  | some gen => gen.frames
  | none => Arena.empty

def shiftEdits (l : Lru) (g : Nat) : List Edit := (l.cells g).reverse.flatMap (transfer g (g + 1))

def shiftBelowEdits (l : Lru) : Nat → List Edit
  | 0 => []
  | n + 1 => l.shiftEdits n ++ l.shiftBelowEdits n

def ageEdits (l : Lru) : List Edit := l.shiftBelowEdits l.oldest

def examineEdits (oldest : Nat) (evicted : List FrameId) (c : Cell) : List Edit :=
  if c.id ∈ evicted then [(oldest, .left c)]
  else if oldest = 0 then []
  else transfer oldest (oldest - 1) c

def sweepEdits (l : Lru) (budget : Nat) (s : Scan) : List Edit :=
  (l.candidates budget).flatMap (examineEdits l.oldest s.evicted.toList)

def scanEdits (l : Lru) (budget : Nat) (s : Scan) : List Edit :=
  match l.sweep budget with
  | .ok (_, l₁) => l.sweepEdits budget s ++ if s.aged then l₁.ageEdits else []
  | .error _ => []

def retireEdits (l : Lru) (e : Entry) : List Edit :=
  if l.entry? e.id = some e then [(e.generation, .left ⟨e.position, e.id⟩)] else []

def edits (l : Lru) : Op → Outcome → List Edit
  | .insert id, _ => [(0, .entered id)]
  | .touch _, _ => []
  | .scan budget, .scanned s => l.scanEdits budget s
  | .scan _, _ => []
  | .age, _ => l.ageEdits
  | .remove id, _ =>
      match l.entry? id with
      | some e => l.retireEdits e
      | none => []
  | .retire e, _ => l.retireEdits e

def log : List Op → Lru → List Edit
  | [], _ => []
  | op :: ops, l =>
      match l.step op with
      | .ok (out, l₁) => l.edits op out ++ log ops l₁
      | .error _ => []

/-- The lists change by the edits, and a frame that leaves a list leaves its place at the start
first. -/
structure Edited (l : Lru) (es : List Edit) (l' : Lru) : Prop where
  changed : ∀ g, Arena.Changed (l.arena g) (changesAt g es) (l'.arena g)
  left_place : ∀ g, ∀ c ∈ l.cells g, c.id ∈ departures es → (g, .left c) ∈ es

structure Relisted (l l' : Lru) (g : Nat) (a : Arena) : Prop where
  lt : g < l.generations.size
  arena_eq : l'.arena = Function.update l.arena g a
  size_eq : l'.generations.size = l.generations.size

variable {l l₁ l' : Lru}

lemma arena_of_getElem? {gen : Generation} (h : l.generations[g]? = some gen) :
    l.arena g = gen.frames := by simp [arena, h]

lemma cells_arena (l : Lru) (g : Nat) : (l.arena g).cells = l.cells g := by
  cases hg : l.generations[g]? <;> simp [arena, cells, hg]

lemma SoundLists.arena_sound (h : l.SoundLists) (g : Nat) : (l.arena g).Sound := by
  rw [arena]
  split
  · rename_i gen hg
    exact h g gen hg
  · exact Arena.sound_empty

lemma Coherent.arena_sound (h : l.Coherent) (g : Nat) : (l.arena g).Sound := h.sound.arena_sound g

lemma getElem?_of_generation {gen : Generation} (h : l.generation g = .ok gen) :
    l.generations[g]? = some gen := by
  rw [generation] at h
  split at h
  · rwa [← Except.ok.inj h]
  · cases h

lemma arena_modifyGeneration {gen : Generation} (hg : l.generations[g]? = some gen)
    (f : Generation → Generation) :
    (l.modifyGeneration g f).arena = Function.update l.arena g (f gen).frames := by
  funext k
  simp only [arena, getElem?_modifyGeneration]
  by_cases hk : g = k
  · subst hk
    simp [hg]
  · rw [if_neg hk, Function.update_of_ne (Ne.symm hk)]
    rfl

lemma relisted_modifyGeneration {gen : Generation} (hg : l.generations[g]? = some gen)
    (f : Generation → Generation) : Relisted l (l.modifyGeneration g f) g (f gen).frames :=
  ⟨(Array.getElem?_eq_some_iff.mp hg).1, arena_modifyGeneration hg f, size_modifyGeneration g f⟩

lemma arena_modifyGeneration_of_frames_eq (g : Nat) {f : Generation → Generation}
    (hf : ∀ gen, (f gen).frames = gen.frames) : (l.modifyGeneration g f).arena = l.arena := by
  funext k
  simp only [arena, getElem?_modifyGeneration]
  split_ifs
  · rcases l.generations[k]? with _ | gen <;> simp [hf]
  · rfl

lemma unlink_eq_ok {p : Position} (hu : l.unlink g p = .ok l') :
    ∃ node, (l.arena g).live? p = some node ∧ Relisted l l' g ((l.arena g).unlink p.slot node) ∧
      l'.table = l.table := by
  obtain ⟨gen, hgen, hu⟩ := bind_eq_ok.mp hu
  obtain ⟨node, hl, hu⟩ := bind_eq_ok.mp hu
  obtain rfl := Except.ok.inj hu
  have hg := getElem?_of_generation hgen
  rw [arena_of_getElem? hg]
  refine ⟨node, ?_, relisted_modifyGeneration hg _, rfl⟩
  rw [Generation.live] at hl
  split at hl
  · rename_i hlive
    rwa [← Except.ok.inj hl]
  · cases hl

lemma place_eq_ok {id : FrameId} (hp : l.place id g = .ok l') :
    ∃ p, (l.arena g).room = .ok p ∧ Relisted l l' g ((l.arena g).pushFront id) ∧
      l'.table = l.table.insert id ⟨id, g, p⟩ := by
  obtain ⟨gen, hgen, hp⟩ := bind_eq_ok.mp hp
  obtain ⟨p, hr, hp⟩ := bind_eq_ok.mp hp
  obtain rfl := Except.ok.inj hp
  have hg := getElem?_of_generation hgen
  rw [arena_of_getElem? hg]
  obtain ⟨hlt, ha, hs⟩ := relisted_modifyGeneration hg (·.pushFront id)
  exact ⟨p, hr, ⟨hlt, ha, hs⟩, rfl⟩

lemma Edited.of_arena_eq (h : l'.arena = l.arena) : Edited l [] l' := by
  refine ⟨fun g => ?_, fun _ _ _ hd => by simp [departures] at hd⟩
  rw [h]
  exact .nil

lemma Edited.congr (he : Edited l es l₁) (h : l'.arena = l₁.arena) : Edited l es l' :=
  ⟨fun g => h ▸ he.changed g, he.left_place⟩

lemma changed_of_update {a : Arena} {e : Arena.Change} (h : l'.arena = Function.update l.arena g a)
    (he : Arena.Changed (l.arena g) [e] a) (k : Nat) :
    Arena.Changed (l.arena k) (changesAt k [(g, e)]) (l'.arena k) := by
  rw [h, changesAt]
  by_cases hk : k = g
  · subst hk
    simpa using he
  · rw [Function.update_of_ne hk]
    simpa [Ne.symm hk] using .nil

lemma changed_unlink (h : l.Coherent) (hc : c ∈ l.cells g) (hu : l.unlink g c.position = .ok l') :
    ∀ k, Arena.Changed (l.arena k) (changesAt k [(g, .left c)]) (l'.arena k) := by
  obtain ⟨node, hl, hrel, _⟩ := unlink_eq_ok hu
  have hid : node.id = c.id := by
    rw [← cells_arena] at hc
    simpa [Arena.get?, hl] using (h.arena_sound g).mem_cells.mp hc
  exact changed_of_update hrel.arena_eq (.left hl hid .nil)

lemma changed_place {id : FrameId} (hp : l.place id g = .ok l') :
    ∀ k, Arena.Changed (l.arena k) (changesAt k [(g, .entered id)]) (l'.arena k) := by
  obtain ⟨p, hr, hrel, _⟩ := place_eq_ok hp
  exact changed_of_update hrel.arena_eq (.entered hr .nil)

lemma changed_append (h : Arena.Changed (l.arena g) (changesAt g es) (l₁.arena g))
    (h' : Arena.Changed (l₁.arena g) (changesAt g fs) (l'.arena g)) :
    Arena.Changed (l.arena g) (changesAt g (es ++ fs)) (l'.arena g) := by
  rw [changesAt_append]
  exact h.append h'

namespace Edited

lemma mem_of_not_departed (he : Edited l es l') (h : l.Coherent) (hc : c ∈ l.cells g)
    (hn : c.id ∉ departures es) : c ∈ l'.cells g := by
  rw [← cells_arena] at hc ⊢
  refine (he.changed g).mem_of_not_left (h.arena_sound g) hc fun hl => hn ?_
  exact mem_departures.mpr ⟨g, c, mem_changesAt.mp hl, rfl⟩

lemma append (he : Edited l es l₁) (h : l.Coherent) (hf : Edited l₁ fs l') :
    Edited l (es ++ fs) l' := by
  refine ⟨fun g => changed_append (he.changed g) (hf.changed g), ?_⟩
  intro g c hc hd
  by_cases hes : c.id ∈ departures es
  · exact List.mem_append_left _ (he.left_place g c hc hes)
  · rw [departures_append, List.mem_append] at hd
    have hc₁ := he.mem_of_not_departed h hc hes
    exact List.mem_append_right _ (hf.left_place g c hc₁ (hd.resolve_left hes))

end Edited

lemma edited_place (id : FrameId) (hp : l.place id g = .ok l') : Edited l [(g, .entered id)] l' :=
  ⟨changed_place hp, fun _ _ _ hd => by simp [departures] at hd⟩

namespace Coherent

lemma edited_of_left (h : l.Coherent) (hc : c ∈ l.cells g)
    (hch : ∀ k, Arena.Changed (l.arena k) (changesAt k es) (l'.arena k))
    (hes : (g, .left c) ∈ es) (hd : departures es = [c.id]) : Edited l es l' := by
  refine ⟨hch, fun k d hk hm => ?_⟩
  rw [hd, List.mem_singleton] at hm
  obtain ⟨rfl, rfl⟩ := h.mapped.generation_eq hk hc hm
  exact hes

lemma edited_unlink (h : l.Coherent) (hc : c ∈ l.cells g) (hu : l.unlink g c.position = .ok l') :
    Edited l [(g, .left c)] l' :=
  h.edited_of_left hc (changed_unlink h hc hu) (by simp) rfl

lemma edited_transfer (h : l.Coherent) (hc : c ∈ l.cells g) (hu : l.unlink g c.position = .ok l₁)
    (hp : l₁.place c.id k = .ok l') : Edited l (transfer g k c) l' :=
  h.edited_of_left hc (fun i => changed_append (changed_unlink h hc hu i) (changed_place hp i))
    (by simp [transfer]) rfl

end Coherent

lemma shiftBelowEdits_congr {n : Nat} (h : ∀ g, g < n → l'.cells g = l.cells g) :
    l'.shiftBelowEdits n = l.shiftBelowEdits n := by
  induction n with
  | zero => rfl
  | succ n ih =>
    rw [shiftBelowEdits, shiftBelowEdits, shiftEdits, shiftEdits, h n n.lt_succ_self,
      ih fun g hg => h g (hg.trans n.lt_succ_self)]

namespace Coherent

lemma edited_moveOlder (h : l.Coherent) {xs : List Cell} (hx : l.cells g = xs ++ [c])
    (hm : l.moveOlder g c.id = .ok l') : Edited l (transfer g (g + 1) c) l' := by
  have hc : c ∈ l.cells g := by simp [hx]
  have he : l.entry? c.id = some ⟨c.id, g, c.position⟩ := h.mapped.getElem?_of_mem hc
  simp only [Lru.moveOlder, he, bind_eq_ok] at hm
  obtain ⟨l₁, hu, hp⟩ := hm
  exact h.edited_transfer hc hu hp

lemma edited_foldlM_moveOlder (h : l.Coherent) (hg : g + 1 < l.generations.size) (cs : List Cell)
    (hcs : l.cells g = cs.reverse) (hm : (cs.map Cell.id).foldlM (Lru.moveOlder g) l = .ok l') :
    Edited l (cs.flatMap (transfer g (g + 1))) l' := by
  induction cs generalizing l with
  | nil =>
    obtain rfl := Except.ok.inj hm
    exact .of_arena_eq rfl
  | cons c cs ih =>
    rw [List.reverse_cons] at hcs
    rw [List.map_cons, List.foldlM_cons, bind_eq_ok] at hm
    obtain ⟨l₁, hm₁, hm⟩ := hm
    have hr := (h.moveOlder hcs hg).of_eq_ok hm₁
    obtain ⟨p, hc₁⟩ := hr.cells_eq
    have hcs₁ : l₁.cells g = cs.reverse := by
      rw [hc₁, Function.update_of_ne (by omega), Function.update_self]
    rw [List.flatMap_cons]
    exact (h.edited_moveOlder hcs hm₁).append h
      (ih hr.coherent (hr.moved.size_eq ▸ hg) hcs₁ hm)

lemma edited_shift (h : l.Coherent) (hg : g + 1 < l.generations.size) (hs : l.shift g = .ok l') :
    Edited l (l.shiftEdits g) l' := by
  obtain ⟨gen, hgen⟩ := exists_generation (Nat.lt_of_succ_lt hg)
  have hsound := h.sound g gen hgen
  have hlast : gen.frames.lastIds gen.frames.size = (l.cells g).reverse.map Cell.id := by
    rw [hsound.lastIds_eq, hsound.size_eq, ← List.length_reverse, List.take_length,
      cells_of_getElem? hgen]
  simp only [Lru.shift, generation_of_getElem? hgen, ok_bind, hlast, pure_eq_ok, bind_eq_ok] at hs
  obtain ⟨l₁, hm, hw⟩ := hs
  obtain rfl := Except.ok.inj hw
  have he := h.edited_foldlM_moveOlder hg _ (List.reverse_reverse _).symm hm
  exact he.congr (arena_modifyGeneration_of_frames_eq g fun _ => rfl)

lemma edited_shiftBelow (n : Nat) (h : l.Coherent) (hn : n < l.generations.size)
    (hs : Lru.shiftBelow n l = .ok l') : Edited l (l.shiftBelowEdits n) l' := by
  induction n generalizing l with
  | zero =>
    obtain rfl := Except.ok.inj hs
    exact .of_arena_eq rfl
  | succ n ih =>
    rw [Lru.shiftBelow, bind_eq_ok] at hs
    obtain ⟨l₁, hs₁, hs⟩ := hs
    obtain ⟨h₁, hp, _⟩ := (h.shift hn).of_eq_ok hs₁
    have hrest := ih h₁ (hp.size_eq ▸ Nat.lt_of_succ_lt hn) hs
    rw [shiftBelowEdits_congr fun g hg => hp.other g (by omega) (by omega)] at hrest
    exact (h.edited_shift hn hs₁).append h hrest

lemma edited_age (h : l.Coherent) (ha : l.age = .ok l') : Edited l l.ageEdits l' := by
  obtain ⟨l₁, hs, ha⟩ := bind_eq_ok.mp ha
  obtain ⟨_, _, ha⟩ := bind_eq_ok.mp ha
  obtain rfl := Except.ok.inj ha
  have hw : ∀ gen : Generation, gen.wipe.frames = gen.frames := fun _ => rfl
  have he := h.edited_shiftBelow l.oldest h.oldest_lt hs
  exact he.congr (arena_modifyGeneration_of_frames_eq l.oldest hw)

lemma edited_examine_unmarked (h : l.Coherent) (hc : c ∈ l.cells l.oldest)
    (hm : (l.bitmap l.oldest).marked c.id = false) {s s' : Scan}
    (he : examine l.oldest (l, s) c.id = .ok (l', s')) : Edited l [(l.oldest, .left c)] l' := by
  obtain ⟨gen, hg⟩ := exists_generation h.oldest_lt
  rw [bitmap_of_getElem? hg] at hm
  have hentry : l.entry? c.id = some ⟨c.id, l.oldest, c.position⟩ := h.mapped.getElem?_of_mem hc
  simp only [examine, hentry, ne_eq, not_true_eq_false, if_false, generation_of_getElem? hg, ok_bind,
    hm, Bool.false_eq_true, bind_eq_ok] at he
  obtain ⟨l₁, hu, hd⟩ := he
  obtain ⟨rfl, -⟩ := Prod.mk.inj (Except.ok.inj hd)
  exact (h.edited_unlink hc hu).congr rfl

lemma edited_examine_marked (h : l.Coherent) (hc : c ∈ l.cells l.oldest)
    (hm : (l.bitmap l.oldest).marked c.id = true) {s s' : Scan}
    (he : examine l.oldest (l, s) c.id = .ok (l', s')) :
    Edited l (if l.oldest = 0 then [] else transfer l.oldest (l.oldest - 1) c) l' := by
  obtain ⟨gen, hg⟩ := exists_generation h.oldest_lt
  rw [bitmap_of_getElem? hg] at hm
  have hentry : l.entry? c.id = some ⟨c.id, l.oldest, c.position⟩ := h.mapped.getElem?_of_mem hc
  have hu : ∀ gen : Generation, (gen.unmark c.id).frames = gen.frames := fun _ => rfl
  have hbits : Edited l [] (l.modifyGeneration l.oldest (·.unmark c.id)) :=
    .of_arena_eq (arena_modifyGeneration_of_frames_eq _ hu)
  simp only [examine, hentry, ne_eq, not_true_eq_false, if_false, generation_of_getElem? hg, ok_bind,
    hm, if_true, bind_eq_ok] at he
  obtain ⟨l₁, hp, hd⟩ := he
  obtain ⟨rfl, -⟩ := Prod.mk.inj (Except.ok.inj hd)
  rw [promote] at hp
  split_ifs at hp ⊢ with h0
  · obtain rfl := Except.ok.inj hp
    exact hbits
  · obtain ⟨l₂, hul, hp⟩ := bind_eq_ok.mp hp
    obtain ⟨l₃, hpl, hp⟩ := bind_eq_ok.mp hp
    obtain ⟨_, _, hp⟩ := bind_eq_ok.mp hp
    obtain rfl := Except.ok.inj hp
    have hc₁ : c ∈ (l.modifyGeneration l.oldest (·.unmark c.id)).cells l.oldest := by
      rwa [cells_modifyGeneration_of_frames_eq _ hu]
    exact hbits.append h ((h.modifyBits _ hu).edited_transfer hc₁ hul hpl)

end Coherent

lemma flatMap_examineEdits_cons {oldest : Nat} {ids : List FrameId} {cs : List Cell}
    (hc : c.id ∉ cs.map Cell.id) :
    cs.flatMap (examineEdits oldest (c.id :: ids)) = cs.flatMap (examineEdits oldest ids) := by
  apply List.flatMap_congr
  intro d hd
  have hne : d.id ≠ c.id := fun he => hc (he ▸ List.mem_map_of_mem hd)
  simp [examineEdits, hne]

lemma Coherent.edited_foldlM_examine (h : l.Coherent) {xs ys : List Cell} (cs : List Cell)
    (hx : l.cells l.oldest = xs ++ cs.reverse ++ ys) (hn : (cs.map Cell.id).Nodup) {s s' : Scan}
    (hf : (cs.map Cell.id).foldlM (examine l.oldest) (l, s) = .ok (l', s')) :
    Edited l (cs.flatMap (examineEdits l.oldest
      (((l.bitmap l.oldest).sift cs).evicted.map Cell.id))) l' := by
  induction cs generalizing l s ys with
  | nil =>
    obtain ⟨rfl, -⟩ := Prod.mk.inj (Except.ok.inj hf)
    exact .of_arena_eq rfl
  | cons c cs ih =>
    have hx' : l.cells l.oldest = (xs ++ cs.reverse) ++ c :: ys := by simp [hx]
    have hc : c ∈ l.cells l.oldest := by simp [hx]
    obtain ⟨hno, hn⟩ := List.nodup_cons.mp hn
    rw [List.map_cons, List.foldlM_cons, bind_eq_ok] at hf
    obtain ⟨⟨l₁, s₁⟩, he, hf⟩ := hf
    rw [List.flatMap_cons]
    cases hm : (l.bitmap l.oldest).marked c.id with
    | false =>
      have hedit := h.edited_examine_unmarked hc hm he
      obtain ⟨l₂, he₂, hexp⟩ := h.examine_unmarked hx' hm s
      obtain ⟨rfl, rfl⟩ := Prod.mk.inj (Except.ok.inj (he₂.symm.trans he))
      have ho : l₂.oldest = l.oldest := by simp [oldest, hexp.moved.size_eq]
      have hx₁ : l₂.cells l₂.oldest = xs ++ cs.reverse ++ ys := by
        rw [ho, hexp.cells_eq, Function.update_self]
      have hrest := ih hexp.coherent hx₁ hn (ho ▸ hf)
      rw [ho, hexp.moved.bitmap_eq] at hrest
      have hsift : ((l.bitmap l.oldest).sift (c :: cs)).evicted.map Cell.id =
          c.id :: ((l.bitmap l.oldest).sift cs).evicted.map Cell.id := by
        simp [Bitmap.sift, hm]
      rw [hsift, flatMap_examineEdits_cons hno, examineEdits, if_pos (by simp)]
      exact hedit.append h hrest
    | true =>
      have hedit := h.edited_examine_marked hc hm he
      obtain ⟨_, hp⟩ := (h.examine_marked hx' hm s).of_eq_ok he
      have ho : l₁.oldest = l.oldest := by simp [oldest, hp.size_eq]
      have hx₁ : l₁.cells l₁.oldest = xs ++ cs.reverse ++ if l.oldest = 0 then c :: ys else ys := by
        have hcells := hp.cells_eq
        rw [ho]
        split_ifs at hcells ⊢ with h0
        · rw [hcells, hx']
        · obtain ⟨p, hcells⟩ := hcells
          rw [hcells, Function.update_of_ne (by omega), Function.update_self]
      have hrest := ih hp.coherent hx₁ hn (ho ▸ hf)
      rw [ho, hp.bitmap_eq, Function.update_self] at hrest
      have hsift : ((l.bitmap l.oldest).sift (c :: cs)).evicted =
          (((l.bitmap l.oldest).unmark c.id).sift cs).evicted := by
        simp [Bitmap.sift, hm]
      have hkept : c.id ∉ (((l.bitmap l.oldest).unmark c.id).sift cs).evicted.map Cell.id :=
        fun hm => hno ((Bitmap.sift_evicted_ids _ cs).mem hm)
      rw [hsift, examineEdits, if_neg hkept]
      exact hedit.append h hrest

namespace Coherent

lemma edited_sweep (h : l.Coherent) {budget : Nat} {s : Scan} (hs : l.sweep budget = .ok (s, l')) :
    Edited l (l.sweepEdits budget s) l' := by
  obtain ⟨gen, hg, hsound, hc⟩ := h.oldest_generation
  have hx : l.cells l.oldest = l.unexamined budget ++ (l.candidates budget).reverse ++ [] := by
    rw [unexamined_append_candidates, List.append_nil]
  have hl : gen.frames.lastIds budget = (l.candidates budget).map Cell.id := by
    rw [hsound.lastIds_eq, hc, candidates]
  obtain rfl : s = _ := ((h.sweep budget).of_eq_ok hs).1
  simp only [Lru.sweep, hg, ok_bind, hl, pure_eq_ok, bind_eq_ok] at hs
  obtain ⟨⟨l₁, s₁⟩, hf, hs⟩ := hs
  obtain ⟨-, rfl⟩ := Prod.mk.inj (Except.ok.inj hs)
  have he := h.edited_foldlM_examine _ hx (h.candidates_nodup budget) hf
  have hev : (Scan.after {} (l.verdict budget)).evicted.toList =
      (l.verdict budget).evicted.map Cell.id := by simp [Scan.after]
  rw [sweepEdits, hev]
  exact he.congr rfl

lemma sweep_of_empty (h : l.Coherent) (he : l.cells l.oldest = []) (budget : Nat) :
    l.sweep budget = .ok ({}, l.count {}) := by
  obtain ⟨gen, hg, hsound, hc⟩ := h.oldest_generation
  have hl : gen.frames.lastIds budget = [] := by simp [hsound.lastIds_eq, hc, he]
  simp [Lru.sweep, hg, hl]

lemma edited_refill (h : l.Coherent) {budget : Nat} {aged : Bool}
    (hr : l.refill budget = .ok (aged, l')) : Edited l (if aged then l.ageEdits else []) l' := by
  have ha := refill_eq_ok hr
  split_ifs at ha ⊢
  · exact h.edited_age ha
  · exact .of_arena_eq (by rw [ha])

lemma edited_scan (h : l.Coherent) {budget : Nat} {s : Scan} (hs : l.scan budget = .ok (s, l')) :
    Edited l (l.scanEdits budget s) l' := by
  by_cases he : l.cells l.oldest = []
  · obtain ⟨gen, hg, hsound, hc⟩ := h.oldest_generation
    have hem : gen.frames.isEmpty = true := by simp [Arena.isEmpty, hsound.size_eq, hc, he]
    simp only [Lru.scan, hg, ok_bind, hem, if_true] at hs
    obtain ⟨l₁, ha, hs⟩ := bind_eq_ok.mp hs
    obtain ⟨rfl, rfl⟩ := Prod.mk.inj (Except.ok.inj hs)
    simp only [scanEdits, h.sweep_of_empty he, sweepEdits, candidates, he, List.reverse_nil,
      List.take_nil, List.flatMap_nil, List.nil_append, if_true]
    exact h.edited_age ha
  · rw [h.scan_eq_of_ne_nil he, bind_eq_ok] at hs
    obtain ⟨⟨s₁, l₁⟩, hsw, hs⟩ := hs
    obtain ⟨⟨aged, l₂⟩, hr, hs⟩ := bind_eq_ok.mp hs
    obtain ⟨_, _, hs⟩ := bind_eq_ok.mp hs
    obtain ⟨rfl, rfl⟩ := Prod.mk.inj (Except.ok.inj hs)
    have h₁ : l₁.Coherent := ((h.sweep budget).of_eq_ok hsw).2.1
    rw [scanEdits, hsw]
    exact (h.edited_sweep hsw).append h (h₁.edited_refill hr)

end Coherent

lemma edited_insert (id : FrameId) (hi : l.insert id = .ok l') : Edited l [(0, .entered id)] l' := by
  rw [Lru.insert] at hi
  split_ifs at hi
  · cases hi
  · obtain ⟨l₁, hp, hi⟩ := bind_eq_ok.mp hi
    obtain ⟨_, _, hi⟩ := bind_eq_ok.mp hi
    obtain rfl := Except.ok.inj hi
    exact edited_place id hp

lemma edited_touch (id : FrameId) : Edited l [] (l.touch id) := by
  apply Edited.of_arena_eq
  rw [Lru.touch]
  split
  · exact arena_modifyGeneration_of_frames_eq _ fun _ => rfl
  · rfl

namespace Coherent

lemma edited_retire (h : l.Coherent) {e : Entry} (hr : l.retire e = .ok l') :
    Edited l (l.retireEdits e) l' := by
  rw [Lru.retire] at hr
  rw [retireEdits]
  split_ifs at hr ⊢ with he
  · obtain ⟨l₁, hu, hr⟩ := bind_eq_ok.mp hr
    obtain ⟨_, _, hr⟩ := bind_eq_ok.mp hr
    obtain rfl := Except.ok.inj hr
    exact (h.edited_unlink ((h.mapped e.id e).mp he).2 hu).congr rfl
  · obtain rfl := Except.ok.inj hr
    exact .of_arena_eq rfl

lemma edited_remove (h : l.Coherent) {id : FrameId} {known : Bool}
    (hr : l.remove id = .ok (known, l')) : Edited l (l.edits (.remove id) (.removed known)) l' := by
  rw [edits]
  cases he : l.entry? id with
  | none =>
    simp only [Lru.remove, he] at hr
    obtain ⟨-, rfl⟩ := Prod.mk.inj (Except.ok.inj hr)
    exact .of_arena_eq rfl
  | some e =>
    simp only [Lru.remove, he, bind_eq_ok] at hr
    obtain ⟨l₁, hr, hk⟩ := hr
    obtain ⟨-, rfl⟩ := Prod.mk.inj (Except.ok.inj hk)
    exact h.edited_retire hr

variable {op : Op} {out : Outcome} {ops : List Op} {outs : List Outcome}

lemma edited_step (h : l.Coherent) (hs : l.step op = .ok (out, l')) :
    Edited l (l.edits op out) l' := by
  cases op with
  | insert id =>
    obtain ⟨l₁, hi, hs⟩ := bind_eq_ok.mp hs
    obtain ⟨rfl, rfl⟩ := Prod.mk.inj (Except.ok.inj hs)
    exact edited_insert id hi
  | touch id =>
    obtain ⟨rfl, rfl⟩ := Prod.mk.inj (Except.ok.inj hs)
    exact edited_touch id
  | scan budget =>
    obtain ⟨⟨s, l₁⟩, hsc, hs⟩ := bind_eq_ok.mp hs
    obtain ⟨rfl, rfl⟩ := Prod.mk.inj (Except.ok.inj hs)
    exact h.edited_scan hsc
  | age =>
    obtain ⟨l₁, ha, hs⟩ := bind_eq_ok.mp hs
    obtain ⟨rfl, rfl⟩ := Prod.mk.inj (Except.ok.inj hs)
    exact h.edited_age ha
  | remove id =>
    obtain ⟨⟨known, l₁⟩, hr, hs⟩ := bind_eq_ok.mp hs
    obtain ⟨rfl, rfl⟩ := Prod.mk.inj (Except.ok.inj hs)
    exact h.edited_remove hr
  | retire e =>
    obtain ⟨l₁, hr, hs⟩ := bind_eq_ok.mp hs
    obtain ⟨rfl, rfl⟩ := Prod.mk.inj (Except.ok.inj hs)
    exact h.edited_retire hr

lemma edited_run (h : l.Coherent) (hr : Lru.run ops l = .ok (outs, l')) : Edited l (log ops l) l' := by
  induction ops generalizing l outs with
  | nil =>
    obtain ⟨-, rfl⟩ := Prod.mk.inj (Except.ok.inj hr)
    exact .of_arena_eq rfl
  | cons op ops ih =>
    obtain ⟨out, l₁, outs', hs, hr, _⟩ := run_cons_eq_ok hr
    have h₁ := (((h.step op).of_eq_ok hs).kept h).coherent
    rw [log, hs]
    exact (h.edited_step hs).append h (ih h₁ hr)

end Coherent

end Lru

end FramePool
