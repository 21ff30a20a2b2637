import FramePool.Proofs.Lru.Moments
import Mathlib.Order.Bounds.Basic

/-! A list opens a new slot only when a frame is in each of its slots. Hence it has as many slots as it
has ever held frames at once, the moments inside an aging or a scan included. -/

namespace FramePool

namespace Arena

variable {a : Arena} {p : Position}

lemma Sound.length_le_slots (h : a.Sound) : a.cells.length ≤ a.slots.size := by
  rw [Holds.slots_size h]
  exact Nat.le_add_left _ _

lemma Sound.slots_pushFront (h : a.Sound) (hr : a.room = .ok p) (id : FrameId) :
    (a.pushFront id).slots.size = max a.slots.size (a.pushFront id).cells.length ∧
      p.slot < (a.pushFront id).slots.size := by
  obtain ⟨h', hc⟩ := h.pushFront hr id
  have hs := Holds.slots_size h
  have hs' := Holds.slots_size h'
  rw [(pushFront_fields hr id).1, List.length_tail, hc, List.length_cons] at hs'
  constructor
  · rw [hc, List.length_cons]
    omega
  · obtain ⟨node, _, hn⟩ := Holds.slot_of_mem h' (c := ⟨p, id⟩) (by simp [hc])
    exact (Array.getElem?_eq_some_iff.mp hn).1

lemma slots_size_unlink (a : Arena) (slot : Nat) (node : Node) :
    (a.unlink slot node).slots.size = a.slots.size := by
  rcases a with ⟨slots, vacant, head, tail, size⟩
  rcases node with ⟨id, _ | p, _ | n⟩ <;> simp [unlink]

end Arena

namespace Lru

/-- Each list of `l` has as many slots as it held frames in one of the engines `seen`, and in none of them
did it hold more. Every slot that a table of these engines names is one of them. -/
structure SlotsMatch (seen : List Lru) (l : Lru) : Prop where
  greatest : ∀ g, IsGreatest {n | ∃ m ∈ seen, (m.ids g).length = n} (l.arena g).slots.size
  slot_lt : ∀ m ∈ seen, ∀ id e, m.entry? id = some e →
    e.position.slot < (l.arena e.generation).slots.size

structure Matched (seen : List Lru) (l : Lru) : Prop extends SlotsMatch seen l where
  sound : l.SoundLists
  own_slot_lt : ∀ id e, l.entry? id = some e → e.position.slot < (l.arena e.generation).slots.size

variable {l l₁ l' m : Lru} {seen ms : List Lru} {n k g : Nat} {id : FrameId}

lemma soundLists_of_arena (h : ∀ g, (l.arena g).Sound) : l.SoundLists :=
  fun g _ hg => arena_of_getElem? hg ▸ h g

lemma Rests.soundLists (hr : Rests l l') (h : l.SoundLists) : l'.SoundLists :=
  soundLists_of_arena (hr.arena_eq ▸ h.arena_sound)

lemma Relisted.soundLists {a : Arena} (hr : Relisted l l' g a) (h : l.SoundLists) (ha : a.Sound) :
    l'.SoundLists := by
  apply soundLists_of_arena
  rw [hr.arena_eq, Function.forall_update_iff l.arena fun _ (a : Arena) => a.Sound]
  exact ⟨ha, fun k _ => h.arena_sound k⟩

namespace SoundLists

lemma length_ids_le_slots (h : l.SoundLists) (g : Nat) :
    (l.ids g).length ≤ (l.arena g).slots.size := by
  rw [length_ids, ← cells_arena]
  exact (h.arena_sound g).length_le_slots

lemma of_unlink (h : l.SoundLists) {p : Position} (hu : l.unlink g p = .ok l') : l'.SoundLists := by
  obtain ⟨node, hl, hr, _⟩ := unlink_eq_ok hu
  obtain ⟨_, _, _, hs, _⟩ := (h.arena_sound g).split_of_live (c := ⟨p, node.id⟩) hl rfl
  exact hr.soundLists h hs

lemma of_place (h : l.SoundLists) (hp : l.place id g = .ok l') : l'.SoundLists := by
  obtain ⟨p, hroom, hr, _⟩ := place_eq_ok hp
  exact hr.soundLists h ((h.arena_sound g).pushFront hroom id).1

end SoundLists

namespace Matched

lemma rest (h : Matched seen l) (hr : Rests l l') : Matched seen l' := by
  refine ⟨⟨?_, ?_⟩, hr.soundLists h.sound, ?_⟩ <;> rw [hr.arena_eq]
  · exact h.greatest
  · exact h.slot_lt
  · exact fun id e he => h.own_slot_lt id e (hr.entry_of id e he)

lemma note (h : Matched seen l) (hs : l'.SoundLists)
    (hslots : ∀ g, (l'.arena g).slots.size = max (l.arena g).slots.size (l'.ids g).length)
    (hown : ∀ id e, l'.entry? id = some e →
      e.position.slot < (l'.arena e.generation).slots.size) : Matched (seen ++ [l']) l' := by
  refine ⟨⟨fun g => ?_, ?_⟩, hs, hown⟩
  · have hset : {n | ∃ m ∈ seen ++ [l'], (m.ids g).length = n} =
        Insert.insert (l'.ids g).length {n | ∃ m ∈ seen, (m.ids g).length = n} := by
      ext n
      simp [or_and_right, exists_or, or_comm, eq_comm]
    rw [hset, hslots, max_comm]
    exact (h.greatest g).insert _
  · intro m hm id e he
    rcases List.mem_append.mp hm with hm | hm
    · rw [hslots]
      exact (h.slot_lt m hm id e he).trans_le (le_max_left _ _)
    · rw [List.mem_singleton.mp hm] at he
      exact hown id e he

lemma unlink (h : Matched seen l) {p : Position} (hu : l.unlink g p = .ok l') :
    Matched (seen ++ [l']) l' := by
  obtain ⟨node, _, hr, ht⟩ := unlink_eq_ok hu
  have hs := h.sound.of_unlink hu
  have hsame : ∀ k, (l'.arena k).slots.size = (l.arena k).slots.size := by
    rw [hr.arena_eq, Function.forall_update_iff l.arena fun k (a : Arena) =>
      a.slots.size = (l.arena k).slots.size]
    exact ⟨Arena.slots_size_unlink _ _ _, fun _ _ => rfl⟩
  refine h.note hs (fun k => ?_) fun id e he => ?_
  · rw [← hsame, max_eq_left (hs.length_ids_le_slots k)]
  · rw [hsame]
    exact h.own_slot_lt id e (ht ▸ he : l.table[id]? = some e)

lemma place (h : Matched seen l) (hp : l.place id g = .ok l') : Matched (seen ++ [l']) l' := by
  obtain ⟨p, hroom, hr, ht⟩ := place_eq_ok hp
  obtain ⟨hmax, hlt⟩ := (h.sound.arena_sound g).slots_pushFront hroom id
  have hslots : ∀ k, (l'.arena k).slots.size = max (l.arena k).slots.size (l'.ids k).length := by
    simp only [length_ids, ← cells_arena]
    rw [hr.arena_eq, Function.forall_update_iff l.arena fun k (a : Arena) =>
      a.slots.size = max (l.arena k).slots.size a.cells.length]
    exact ⟨hmax, fun k _ => (max_eq_left (h.sound.arena_sound k).length_le_slots).symm⟩
  refine h.note (h.sound.of_place hp) hslots fun id' e he => ?_
  change l'.table[id']? = some e at he
  rw [ht, Std.ExtTreeMap.getElem?_insert] at he
  split_ifs at he
  · obtain rfl := Option.some.inj he
    rw [hr.arena_eq, Function.update_self]
    exact hlt
  · rw [hslots]
    exact (h.own_slot_lt id' e he).trans_le (le_max_left _ _)

end Matched

lemma slotsMatch_cons (seen : List Lru) (h : SlotsMatch (seen ++ [l]) l)
    (hrest : ∀ past, past ++ [m] <+: ms → SlotsMatch (seen ++ [l] ++ past ++ [m]) m)
    {past : List Lru} (hm : past ++ [m] <+: l :: ms) : SlotsMatch (seen ++ past ++ [m]) m := by
  cases past with
  | nil =>
    obtain ⟨rfl, -⟩ := List.cons_prefix_cons.mp hm
    simpa using h
  | cons q past =>
    obtain ⟨rfl, hpast⟩ := List.cons_prefix_cons.mp hm
    simpa using hrest past hpast

namespace Path

lemma slotsMatch (hp : Path n l ms k l') (h : Matched seen l) {past : List Lru}
    (hm : past ++ [m] <+: ms) : SlotsMatch (seen ++ past ++ [m]) m := by
  induction hp generalizing seen past with
  | nil => simp at hm
  | rest hr _ _ ih => exact ih (h.rest hr) hm
  | unlink hu _ ih =>
    have h₁ := h.unlink hu
    exact slotsMatch_cons seen h₁.toSlotsMatch (fun _ => ih h₁) hm
  | place hpl _ ih =>
    have h₁ := h.place hpl
    exact slotsMatch_cons seen h₁.toSlotsMatch (fun _ => ih h₁) hm

lemma arena_eq (hp : Path n l ms k l') : l'.arena = (ms.getLastD l).arena := by
  induction hp with
  | nil => rfl
  | @rest _ _ _ l l₁ l' ms hr _ _ ih =>
    rw [ih]
    cases ms with
    | nil => exact hr.arena_eq
    | cons q ms => rfl
  | unlink _ _ ih => rwa [List.getLastD_cons]
  | place _ _ ih => rwa [List.getLastD_cons]

end Path

lemma fresh_matched (n words : Nat) : Matched [fresh n words] (fresh n words) := by
  have harena : ∀ g, (fresh n words).arena g = Arena.empty := by
    intro g
    rw [arena, fresh_getElem?]
    split_ifs <;> rfl
  have hno : ∀ id e, entry? (fresh n words) id ≠ some e := by
    intro id e he
    simp [fresh, entry?] at he
  refine ⟨⟨fun g => ?_, ?_⟩, soundLists_of_arena fun g => harena g ▸ Arena.sound_empty, ?_⟩
  · simp [harena, fresh_cells, Arena.empty]
  · intro m hm id e he
    rw [List.mem_singleton.mp hm] at he
    exact (hno id e he).elim
  · exact fun id e he => (hno id e he).elim

lemma fresh_slotsMatch {words : Nat} {ops : List Op}
    (hm : seen ++ [m] <+: fresh n words :: (Traced.run ops (fresh n words)).moments) :
    SlotsMatch (seen ++ [m]) m := by
  have h := fresh_matched n words
  obtain ⟨_, _, hp, _⟩ := (Traced.follows_run ops (fresh n words)).path
  exact slotsMatch_cons [] h.toSlotsMatch (fun _ => hp.slotsMatch h) hm

lemma Relisted.length_order {a : Arena} (hr : Relisted l l' g a) (h : l.SoundLists)
    (h' : l'.SoundLists) :
    l'.order.length + (l.arena g).cells.length = l.order.length + a.cells.length := by
  have hc : l'.cells = Function.update l.cells g a.cells := by
    funext k
    rw [← cells_arena, hr.arena_eq]
    by_cases hk : k = g
    · rw [hk, Function.update_self, Function.update_self]
    · rw [Function.update_of_ne hk, Function.update_of_ne hk, cells_arena]
  obtain ⟨as, bs, ho, ho'⟩ := order_of_update h h' hr.size_eq hr.lt hc
  rw [ho, ho', cells_arena]
  simp only [List.length_append, length_ids, List.length_map]
  omega

lemma Rests.length_order (hr : Rests l l') (h : l.SoundLists) : l'.order.length = l.order.length := by
  have hids : l'.ids = l.ids := by
    funext k
    rw [ids, ids, ← cells_arena, ← cells_arena, hr.arena_eq]
  rw [h.order_eq, (hr.soundLists h).order_eq, hr.size_eq, hids]

namespace SoundLists

lemma length_order_unlink (h : l.SoundLists) {p : Position} (hu : l.unlink g p = .ok l') :
    l'.order.length + 1 = l.order.length := by
  obtain ⟨node, hl, hr, _⟩ := unlink_eq_ok hu
  obtain ⟨xs, ys, hx, _, hc⟩ := (h.arena_sound g).split_of_live (c := ⟨p, node.id⟩) hl rfl
  have hlen := hr.length_order h (h.of_unlink hu)
  rw [hx, hc, List.length_append, List.length_append, List.length_cons] at hlen
  omega

lemma length_order_place (h : l.SoundLists) (hp : l.place id g = .ok l') :
    l'.order.length = l.order.length + 1 := by
  obtain ⟨p, hroom, hr, _⟩ := place_eq_ok hp
  have hlen := hr.length_order h (h.of_place hp)
  rw [((h.arena_sound g).pushFront hroom id).2, List.length_cons] at hlen
  omega

lemma length_ids_le_order (h : l.SoundLists) (g : Nat) : (l.ids g).length ≤ l.order.length := by
  by_cases hg : g < l.generations.size
  · rw [h.order_eq, List.flatMap_def]
    apply List.Sublist.length_le
    exact List.sublist_flatten_of_mem (List.mem_map_of_mem (List.mem_range.mpr hg))
  · have hnil : l.ids g = [] := by
      rw [ids, cells, Array.getElem?_eq_none (Nat.le_of_not_lt hg), List.map_nil]
    simp [hnil]

end SoundLists

lemma Path.length_order_le (hp : Path n l ms k l') (h : l.SoundLists) :
    ∀ m ∈ ms, m.SoundLists ∧ m.order.length ≤ l.order.length + n := by
  induction hp with
  | nil => simp
  | rest hr hn _ ih =>
    intro m hm
    obtain ⟨hs, hle⟩ := ih (hr.soundLists h) m hm
    rw [hr.length_order h] at hle
    exact ⟨hs, by omega⟩
  | unlink hu _ ih =>
    have h₁ := h.of_unlink hu
    have hlen := h.length_order_unlink hu
    refine List.forall_mem_cons.mpr ⟨⟨h₁, by omega⟩, fun m hm => ?_⟩
    obtain ⟨hs, hle⟩ := ih h₁ m hm
    exact ⟨hs, by omega⟩
  | place hp _ ih =>
    have h₁ := h.of_place hp
    have hlen := h.length_order_place hp
    refine List.forall_mem_cons.mpr ⟨⟨h₁, by omega⟩, fun m hm => ?_⟩
    obtain ⟨hs, hle⟩ := ih h₁ m hm
    exact ⟨hs, by omega⟩

/-- The operations lead from `l` to `l'`. At most `n` frames are resident before each of them, with the one
that it brings along. -/
inductive Confined (n : Nat) : Lru → List Op → Lru → Prop
  | nil {l : Lru} : Confined n l [] l
  | cons {l l₁ l' : Lru} {op : Op} {out : Outcome} {ops : List Op} : l.step op = .ok (out, l₁) →
      l.order.length + Traced.arrivals op ≤ n → Confined n l₁ ops l' → Confined n l (op :: ops) l'

namespace Confined

variable {ops more : List Op}

lemma append (h : Confined n l ops l₁) (h' : Confined n l₁ more l') : Confined n l (ops ++ more) l' := by
  induction h with
  | nil => exact h'
  | cons hs hn _ ih => exact .cons hs hn (ih h')

lemma run (h : Confined n l ops l') (hl : l.Coherent) : ∃ outs, Lru.run ops l = .ok (outs, l') ∧
    ∀ m ∈ (Traced.run ops l).moments, m.SoundLists ∧ m.order.length ≤ n := by
  induction h with
  | nil => exact ⟨[], rfl, fun _ hm => (List.not_mem_nil hm).elim⟩
  | @cons l l₁ l' op out ops hs hn _ ih =>
    have h₁ := (((hl.step op).of_eq_ok hs).kept hl).coherent
    obtain ⟨outs, hr, hms⟩ := ih h₁
    obtain ⟨_, _, hp, _⟩ := (Traced.follows_step l op).path
    refine ⟨out :: outs, by simp [Lru.run, hs, hr], fun m hm => ?_⟩
    rw [Traced.moments_run_cons hs, List.mem_append] at hm
    cases hm with
    | inl hm =>
      obtain ⟨hm, hle⟩ := hp.length_order_le hl.sound m hm
      exact ⟨hm, hle.trans hn⟩
    | inr hm => exact hms m hm

lemma slots_le {generations words : Nat} (h : Confined n (fresh generations words) ops l')
    (hl : (fresh generations words).Coherent) :
    ∃ outs, Lru.run ops (fresh generations words) = .ok (outs, l') ∧
      ∀ m ∈ (Traced.run ops (fresh generations words)).moments, ∀ g,
        (m.arena g).slots.size ≤ n := by
  obtain ⟨outs, hr, hms⟩ := h.run hl
  refine ⟨outs, hr, fun m hm g => ?_⟩
  obtain ⟨past, later, hsplit⟩ := List.append_of_mem hm
  have hpre : fresh generations words :: past ++ [m] <+:
      fresh generations words :: (Traced.run ops (fresh generations words)).moments :=
    ⟨later, by simp [hsplit]⟩
  obtain ⟨q, hq, hslots⟩ := ((fresh_slotsMatch hpre).greatest g).1
  rw [← hslots]
  rcases List.mem_cons.mp (hpre.subset hq) with rfl | hq
  · simp [ids, fresh_cells]
  · obtain ⟨hs, hle⟩ := hms q hq
    exact (hs.length_ids_le_order g).trans hle

end Confined

end Lru

end FramePool
