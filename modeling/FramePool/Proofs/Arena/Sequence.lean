import FramePool.Arena.Cursor
import FramePool.Proofs.Arena.Reading
import FramePool.Proofs.Except
import Mathlib.Data.List.Induction

/-! An arena stands for a sequence of cells. Histories of insertions and removals edit the sequence,
and what is read and linked in the arena is the sequence. -/

namespace FramePool

namespace Cursor

variable (read : Cursor → Except Fault (Option FrameId × Cursor))

inductive Yields : Cursor → List FrameId → Prop
  | done {c d : Cursor} : read c = .ok (none, d) → Yields c []
  | more {c d : Cursor} {id : FrameId} {ids : List FrameId} : read c = .ok (some id, d) →
      Yields d ids → Yields c (id :: ids)

end Cursor

namespace Arena

inductive Op where
  | insert (id : FrameId)
  | erase (p : Position)

inductive Outcome where
  | inserted (p : Position)
  | erased (id : Option FrameId)

def step (a : Arena) : Op → Except Fault (Outcome × Arena)
  | .insert id => do
      let (p, a) ← a.insert id
      return (.inserted p, a)
  | .erase p =>
      match a.erase? p with
      | some (id, a) => .ok (.erased (some id), a)
      | none => .ok (.erased none, a)

def run : List Op → Arena → Except Fault (List Outcome × Arena)
  | [], a => .ok ([], a)
  | op :: ops, a => do
      let (out, a) ← a.step op
      let (outs, a) ← run ops a
      return (out :: outs, a)

/-- The same operations on a sequence. A position names at most one cell of it. -/
inductive Edits : List Cell → Op → Outcome → List Cell → Prop
  | insert {cs : List Cell} {p : Position} (id : FrameId) : p ∉ cs.map Cell.position →
      Edits cs (.insert id) (.inserted p) (⟨p, id⟩ :: cs)
  | erase (xs : List Cell) (c : Cell) (ys : List Cell) :
      Edits (xs ++ c :: ys) (.erase c.position) (.erased (some c.id)) (xs ++ ys)
  | miss {cs : List Cell} {p : Position} : p ∉ cs.map Cell.position →
      Edits cs (.erase p) (.erased none) cs

inductive Traces : List Cell → List Op → List Outcome → List Cell → Prop
  | nil {cs : List Cell} : Traces cs [] [] cs
  | cons {bs cs ds : List Cell} {op : Op} {out : Outcome} {ops : List Op} {outs : List Outcome} :
      Edits bs op out cs → Traces cs ops outs ds → Traces bs (op :: ops) (out :: outs) ds

/-- Following the links that `follow` reads from a node passes these slots and ends after them. -/
inductive Chain (a : Arena) (follow : Node → Option Nat) : Option Nat → List Nat → Prop
  | nil : Chain a follow none []
  | cons {slot : Nat} {node : Node} {slots : List Nat} : a.node? slot = some node →
      Chain a follow (follow node) slots → Chain a follow (some slot) (slot :: slots)

structure Represents (a : Arena) (cs : List Cell) : Prop where
  positions_nodup : (cs.map Cell.position).Nodup
  get?_iff : ∀ p id, a.get? p = some id ↔ ⟨p, id⟩ ∈ cs
  unchanged : ∀ p, p ∉ cs.map Cell.position → a.step (.erase p) = .ok (.erased none, a)
  size_eq : a.size = cs.length
  forwards : Cursor.Yields Cursor.next (.start a) (cs.map Cell.id)
  backwards : Cursor.Yields Cursor.nextBack (.start a) (cs.map Cell.id).reverse
  toList_eq : a.toList = cs.map Cell.id
  lastIds_eq : ∀ n, a.lastIds n = (cs.map Cell.id).reverse.take n
  next_chain : a.Chain Node.next a.head (cs.map Cell.slot)
  prev_chain : a.Chain Node.prev a.tail (cs.map Cell.slot).reverse
  slots_nodup : (cs.map Cell.slot).Nodup
  mem_slots : ∀ s, s ∈ cs.map Cell.slot ↔ a.taken? s = some true
  vacant_nodup : a.vacant.Nodup
  mem_vacant : ∀ s, s ∈ a.vacant ↔ a.taken? s = some false

/-- A list has room for one cell more after every part of the history. -/
def StaysSmall (a : Arena) (cs : List Cell) (ops : List Op) : Prop :=
  ∀ past outs b ds, past <+: ops → run past a = .ok (outs, b) → Traces cs past outs ds →
    ds.length < slotLimit

variable {a b : Arena} {cs ds : List Cell} {op : Op} {out : Outcome} {ops : List Op}
  {outs : List Outcome}

lemma Holds.node_of_split (h : a.Holds cs) {xs ys : List Cell} {c : Cell} (hx : cs = xs ++ c :: ys) :
    a.node? c.slot = some ⟨c.id, lastSlot xs, firstSlot ys⟩ := by
  simp [node?, h.slot_at xs c ys hx]

lemma Holds.next_chain (h : a.Holds cs) (xs ys : List Cell) (hx : cs = xs ++ ys) :
    a.Chain Node.next (firstSlot ys) (ys.map Cell.slot) := by
  induction ys generalizing xs with
  | nil => exact .nil
  | cons c ys ih =>
    apply Chain.cons (h.node_of_split hx)
    exact ih (xs ++ [c]) (by simp [hx])

lemma Holds.prev_chain (h : a.Holds cs) (xs ys : List Cell) (hx : cs = xs ++ ys) :
    a.Chain Node.prev (lastSlot xs) (xs.map Cell.slot).reverse := by
  induction xs using List.reverseRecOn generalizing ys with
  | nil => exact .nil
  | append_singleton xs c ih =>
    have hx' : cs = xs ++ c :: ys := by simp [hx]
    simp only [lastSlot_append_cons, lastSlot_singleton, List.map_append, List.map_cons,
      List.map_nil, List.reverse_append, List.reverse_singleton, List.singleton_append]
    exact Chain.cons (h.node_of_split hx') (ih (c :: ys) hx')

lemma Holds.next_yields (h : a.Holds cs) (xs ys : List Cell) (hx : cs = xs ++ ys)
    (back : Option Nat) :
    Cursor.Yields Cursor.next ⟨a, firstSlot ys, back, ys.length⟩ (ys.map Cell.id) := by
  induction ys generalizing xs with
  | nil => exact .done rfl
  | cons c ys ih =>
    have hn := h.node_of_split hx
    apply Cursor.Yields.more (d := ⟨a, firstSlot ys, back, ys.length⟩)
    · simp [Cursor.next, Cursor.follow, hn]
    · exact ih (xs ++ [c]) (by simp [hx])

lemma Holds.prev_yields (h : a.Holds cs) (xs ys : List Cell) (hx : cs = xs ++ ys)
    (front : Option Nat) :
    Cursor.Yields Cursor.nextBack ⟨a, front, lastSlot xs, xs.length⟩ (xs.map Cell.id).reverse := by
  induction xs using List.reverseRecOn generalizing ys with
  | nil => exact .done rfl
  | append_singleton xs c ih =>
    have hx' : cs = xs ++ c :: ys := by simp [hx]
    have hn := h.node_of_split hx'
    simp only [List.map_append, List.map_cons, List.map_nil, List.reverse_append,
      List.reverse_singleton, List.singleton_append]
    apply Cursor.Yields.more (d := ⟨a, front, lastSlot xs, xs.length⟩)
    · simp [Cursor.nextBack, Cursor.follow, hn]
    · exact ih (c :: ys) hx'

lemma Holds.erase_of_not_mem (h : a.Holds cs) {p : Position} (hp : p ∉ cs.map Cell.position) :
    a.step (.erase p) = .ok (.erased none, a) := by
  have hl : a.live? p = none := by
    cases hl : a.live? p with
    | none => rfl
    | some node =>
      have hc : ⟨p, node.id⟩ ∈ cs := h.get?_eq_some.mp (by simp [get?, hl])
      exact (hp (List.mem_map_of_mem hc)).elim
  simp [Arena.step, erase?, hl]

lemma Holds.represents (h : a.Holds cs) : a.Represents cs := by
  obtain rfl := h.cells_eq
  have hs : a.Sound := h.sound
  constructor
  case positions_nodup => exact hs.positions_nodup
  case get?_iff => exact fun p id => h.get?_eq_some
  case unchanged => exact fun p hp => h.erase_of_not_mem hp
  case size_eq => exact h.size_eq
  case forwards =>
    rw [Cursor.start, h.head_eq, h.size_eq]
    exact h.next_yields [] _ rfl _
  case backwards =>
    rw [Cursor.start, h.tail_eq, h.size_eq]
    exact h.prev_yields _ [] (by simp) _
  case toList_eq => exact hs.toList_eq
  case lastIds_eq =>
    intro n
    rw [hs.lastIds_eq, ← List.map_reverse, List.map_take]
  case next_chain =>
    rw [h.head_eq]
    exact h.next_chain [] _ rfl
  case prev_chain =>
    rw [h.tail_eq]
    exact h.prev_chain _ [] (by simp)
  case slots_nodup => exact h.nodup
  case mem_slots => exact fun s => (h.taken_iff s).symm
  case vacant_nodup => exact h.vacant_nodup
  case mem_vacant => exact h.mem_vacant

lemma step_insert {id : FrameId} (h : a.step (.insert id) = .ok (out, b)) :
    ∃ p, a.room = .ok p ∧ out = .inserted p ∧ b = a.pushFront id := by
  obtain ⟨⟨p, d⟩, hi, h⟩ := bind_eq_ok.mp h
  obtain ⟨q, hr, hi⟩ := bind_eq_ok.mp hi
  obtain ⟨rfl, rfl⟩ := Prod.mk.inj (Except.ok.inj hi)
  obtain ⟨rfl, rfl⟩ := Prod.mk.inj (Except.ok.inj h)
  exact ⟨q, hr, rfl, rfl⟩

lemma Holds.exists_step (h : a.Holds cs) (hn : cs.length < slotLimit) (op : Op) :
    ∃ out b, a.step op = .ok (out, b) := by
  cases op with
  | insert id =>
    obtain ⟨p, hr⟩ := h.room hn
    exact ⟨.inserted p, a.pushFront id, by simp [Arena.step, Arena.insert, hr]⟩
  | erase p =>
    cases he : a.erase? p with
    | none => exact ⟨.erased none, a, by simp [Arena.step, he]⟩
    | some e => exact ⟨.erased (some e.1), e.2, by simp [Arena.step, he]⟩

lemma Holds.edits (h : a.Holds cs) (hs : a.step op = .ok (out, b)) :
    ∃ ds, Edits cs op out ds ∧ b.Holds ds := by
  cases op with
  | insert id =>
    obtain ⟨p, hr, rfl, rfl⟩ := step_insert hs
    have hp : p ∉ cs.map Cell.position := by
      intro hm
      obtain ⟨c, hc, rfl⟩ := List.mem_map.mp hm
      exact h.room_not_listed hr (List.mem_map_of_mem hc)
    exact ⟨_, .insert id hp, h.pushFront hr id⟩
  | erase p =>
    by_cases hp : p ∈ cs.map Cell.position
    · obtain ⟨c, hc, rfl⟩ := List.mem_map.mp hp
      obtain ⟨xs, ys, rfl⟩ := List.append_of_mem hc
      simp only [Arena.step, erase?, h.live_of_split rfl] at hs
      cases hs
      exact ⟨xs ++ ys, .erase xs c ys, h.unlink⟩
    · rw [h.erase_of_not_mem hp] at hs
      cases hs
      exact ⟨cs, .miss hp, h⟩

lemma Holds.step (h : a.Holds cs) (hn : cs.length < slotLimit) (op : Op) :
    ∃ out b ds, a.step op = .ok (out, b) ∧ Edits cs op out ds ∧ b.Holds ds := by
  obtain ⟨out, b, hs⟩ := h.exists_step hn op
  obtain ⟨ds, he, hb⟩ := h.edits hs
  exact ⟨out, b, ds, hs, he, hb⟩

lemma StaysSmall.length_lt (h : StaysSmall a cs ops) : cs.length < slotLimit :=
  h [] [] a cs List.nil_prefix rfl .nil

lemma StaysSmall.tail (h : StaysSmall a cs (op :: ops)) (hs : a.step op = .ok (out, b))
    (he : Edits cs op out ds) : StaysSmall b ds ops := by
  intro past outs c es hp hr ht
  apply h (op :: past) (out :: outs) c es
  · exact List.cons_prefix_cons.mpr ⟨rfl, hp⟩
  · simp [run, hs, hr]
  · exact .cons he ht

lemma StaysSmall.of_prefix {past : List Op} (h : StaysSmall a cs ops) (hp : past <+: ops) :
    StaysSmall a cs past := fun before outs b ds hb => h before outs b ds (hb.trans hp)

lemma Holds.run (h : a.Holds cs) (hn : StaysSmall a cs ops) :
    ∃ outs b ds, Arena.run ops a = .ok (outs, b) ∧ Traces cs ops outs ds ∧ b.Holds ds := by
  induction ops generalizing a cs with
  | nil => exact ⟨[], a, cs, rfl, .nil, h⟩
  | cons op ops ih =>
    obtain ⟨out, b, ds, hs, he, hb⟩ := h.step hn.length_lt op
    obtain ⟨outs, c, es, hr, ht, hc⟩ := ih hb (hn.tail hs he)
    exact ⟨out :: outs, c, es, by simp [Arena.run, hs, hr], .cons he ht, hc⟩

/-- After each operation of a history the arena represents the sequence that the history makes, and
the answers so far are the answers of the sequence. -/
theorem represents_edited_sequence (hn : StaysSmall empty [] ops) {past : List Op}
    (hp : past <+: ops) :
    ∃ outs a cs, run past empty = .ok (outs, a) ∧ Traces [] past outs cs ∧ a.Represents cs := by
  obtain ⟨outs, a, cs, hr, ht, ha⟩ := holds_empty.run (hn.of_prefix hp)
  exact ⟨outs, a, cs, hr, ht, ha.represents⟩

lemma Edits.length_le (h : Edits cs op out ds) : ds.length ≤ cs.length + 1 := by
  cases h with
  | insert => simp
  | erase => simp; omega
  | miss => omega

lemma Traces.length_le (h : Traces cs ops outs ds) : ds.length ≤ cs.length + ops.length := by
  induction h with
  | nil => simp
  | cons he _ ih =>
    have := he.length_le
    simp only [List.length_cons]
    omega

lemma staysSmall_of_length_lt (hn : cs.length + ops.length < slotLimit) : StaysSmall a cs ops := by
  intro past outs b ds hp _ ht
  have := ht.length_le
  have := hp.length_le
  omega

theorem represents_after_reuse :
    let ops : List Op := [.insert 7, .insert 8, .erase ⟨0, 0⟩, .insert 9, .insert 7, .erase ⟨0, 0⟩,
      .erase ⟨0, 1⟩]
    StaysSmall empty [] ops ∧
      ∃ outs a cs, run ops empty = .ok (outs, a) ∧ Traces [] ops outs cs ∧ a.Represents cs := by
  intro ops
  have hn : StaysSmall empty [] ops := staysSmall_of_length_lt (by decide)
  exact ⟨hn, represents_edited_sequence hn List.prefix_rfl⟩

end Arena

end FramePool
