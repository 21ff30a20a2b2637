import FramePool.Proofs.Arena.Handles

/-! A list that is read from both ends in any order. The cursor stands between what it gave from the
front and what it gave from the back, and stops when they meet. -/

namespace FramePool

inductive End where
  | front
  | back
deriving DecidableEq

namespace Cursor

def read : End → Cursor → Except Fault (Option FrameId × Cursor)
  | .front => next
  | .back => nextBack

def reads : List End → Cursor → Except Fault (List (Option FrameId) × Cursor)
  | [], c => .ok ([], c)
  | e :: es, c => do
      let (answer, c) ← c.read e
      let (answers, c) ← reads es c
      return (answer :: answers, c)

def given (e : End) (es : List End) (answers : List (Option FrameId)) : List FrameId :=
  (es.zip answers).filterMap fun (d, answer) => if d = e then answer else none

def between (a : Arena) (xs ms ys : List Cell) : Cursor :=
  ⟨a, firstSlot (ms ++ ys), lastSlot (xs ++ ms), ms.length⟩

structure Shares (a : Arena) (cs : List Cell) (es : List End) (answers : List (Option FrameId))
    (c : Cursor) : Prop where
  front_eq : given .front es answers = (cs.map Cell.id).take (given .front es answers).length
  back_eq : given .back es answers = (cs.map Cell.id).reverse.take (given .back es answers).length
  length_le : (given .front es answers).length + (given .back es answers).length ≤ cs.length
  sizeHint_eq : c.sizeHint =
    (cs.length - (given .front es answers).length - (given .back es answers).length,
      some (cs.length - (given .front es answers).length - (given .back es answers).length))
  apart : ∃ xs ms ys, cs = xs ++ ms ++ ys ∧ (xs.map Cell.slot).Disjoint (ys.map Cell.slot) ∧
    given .front es answers = xs.map Cell.id ∧
    given .back es answers = (ys.map Cell.id).reverse ∧ c = between a xs ms ys
  none_iff : ∀ e, ∃ answer d, c.read e = .ok (answer, d) ∧ (answer = none ↔
    (given .front es answers).length + (given .back es answers).length = cs.length)
  ended : (given .front es answers).length + (given .back es answers).length = cs.length →
    ∀ later, reads later c = .ok (List.replicate later.length none, c)

variable {e : End} {es : List End} {answer : Option FrameId} {answers : List (Option FrameId)}
  {c d : Cursor}

@[simp] lemma given_nil : given e [] [] = [] := rfl

lemma given_cons (e' : End) : given e (e' :: es) (answer :: answers) =
    (if e' = e then answer.toList else []) ++ given e es answers := by
  by_cases he : e' = e <;> cases answer <;> simp [given, he]

@[simp] lemma given_replicate (e : End) (es : List End) (n : Nat) :
    given e es (List.replicate n none) = [] := by
  apply List.filterMap_eq_nil_iff.mpr
  rintro ⟨d, answer⟩ hz
  have hn : answer = none := List.eq_of_mem_replicate (List.of_mem_zip hz).2
  simp [hn]

lemma reads_cons {f : Cursor} (h : c.read e = .ok (answer, d)) (hr : reads es d = .ok (answers, f)) :
    reads (e :: es) c = .ok (answer :: answers, f) := by
  simp [reads, h, hr]

lemma read_of_remaining_eq_zero (h : c.remaining = 0) (e : End) : c.read e = .ok (none, c) := by
  cases e <;> simp [read, next, nextBack, h]

lemma reads_of_remaining_eq_zero (h : c.remaining = 0) (es : List End) :
    reads es c = .ok (List.replicate es.length none, c) := by
  induction es with
  | nil => rfl
  | cons e es ih => exact reads_cons (read_of_remaining_eq_zero h e) ih

end Cursor

namespace Arena

open Cursor

variable {a : Arena} {cs xs ms ys : List Cell} {ops : List Op} {outs : List Outcome}

lemma Holds.read_front {m : Cell} (h : a.Holds (xs ++ m :: ms ++ ys)) :
    (between a xs (m :: ms) ys).read .front = .ok (some m.id, between a (xs ++ [m]) ms ys) := by
  have hm : a.node? m.slot = some ⟨m.id, lastSlot xs, firstSlot (ms ++ ys)⟩ :=
    h.node_of_split (by simp)
  simp [Cursor.read, between, Cursor.next, follow, hm]

lemma Holds.read_back {m : Cell} (h : a.Holds (xs ++ (ms ++ [m]) ++ ys)) :
    (between a xs (ms ++ [m]) ys).read .back = .ok (some m.id, between a xs ms (m :: ys)) := by
  have hm : a.node? m.slot = some ⟨m.id, lastSlot (xs ++ ms), firstSlot ys⟩ :=
    h.node_of_split (by simp)
  have hl : lastSlot (xs ++ (ms ++ [m])) = some m.slot := by
    rw [← List.append_assoc, lastSlot_append_cons, lastSlot_singleton]
  simp [Cursor.read, between, nextBack, follow, hl, hm]

lemma Holds.reads (es : List End) (h : a.Holds (xs ++ ms ++ ys)) :
    ∃ answers ps rest qs, ms = ps ++ rest ++ qs ∧
      Cursor.reads es (between a xs ms ys) = .ok (answers, between a (xs ++ ps) rest (qs ++ ys)) ∧
      given .front es answers = ps.map Cell.id ∧
      given .back es answers = (qs.map Cell.id).reverse := by
  induction es generalizing xs ms ys with
  | nil => exact ⟨[], [], ms, [], by simp, by simp [Cursor.reads], rfl, rfl⟩
  | cons e es ih =>
    rcases List.eq_nil_or_concat ms with rfl | ⟨init, m, hm⟩
    · have hr := reads_of_remaining_eq_zero (c := between a xs [] ys) rfl (e :: es)
      exact ⟨_, [], [], [], rfl, by simpa using hr, given_replicate .front _ _,
        given_replicate .back _ _⟩
    cases e with
    | front =>
      obtain ⟨m, ms, rfl⟩ := List.exists_cons_of_ne_nil (l := ms) (by simp [hm])
      have hm : a.Holds (xs ++ [m] ++ ms ++ ys) := by simpa using h
      obtain ⟨answers, ps, rest, qs, rfl, hr, hf, hb⟩ := ih hm
      refine ⟨some m.id :: answers, m :: ps, rest, qs, by simp, ?_, ?_, ?_⟩
      · simpa using reads_cons h.read_front hr
      · simp [given_cons, hf]
      · simp [given_cons, hb]
    | back =>
      obtain rfl : ms = init ++ [m] := by simpa using hm
      have hm : a.Holds (xs ++ init ++ m :: ys) := by simpa using h
      obtain ⟨answers, ps, rest, qs, rfl, hr, hf, hb⟩ := ih hm
      refine ⟨some m.id :: answers, ps, rest, qs ++ [m], by simp, ?_, ?_, ?_⟩
      · simpa using reads_cons h.read_back hr
      · simp [given_cons, hf]
      · simp [given_cons, hb]

lemma Holds.exists_read (h : a.Holds (xs ++ ms ++ ys)) (e : End) :
    ∃ answer d, (between a xs ms ys).read e = .ok (answer, d) ∧ (answer = none ↔ ms = []) := by
  rcases List.eq_nil_or_concat ms with rfl | ⟨init, m, hm⟩
  · exact ⟨none, _, read_of_remaining_eq_zero rfl e, by simp⟩
  cases e with
  | front =>
    obtain ⟨m, ms, rfl⟩ := List.exists_cons_of_ne_nil (l := ms) (by simp [hm])
    exact ⟨_, _, h.read_front, by simp⟩
  | back =>
    obtain rfl : ms = init ++ [m] := by simpa using hm
    exact ⟨_, _, h.read_back, by simp⟩

lemma Holds.shares (h : a.Holds cs) (es : List End) :
    ∃ answers c, Cursor.reads es (.start a) = .ok (answers, c) ∧ Shares a cs es answers c := by
  have hs : Cursor.start a = between a [] cs [] := by
    simp [start, between, h.head_eq, h.tail_eq, h.size_eq]
  have h₀ : a.Holds ([] ++ cs ++ []) := by simpa using h
  obtain ⟨answers, xs, ms, ys, rfl, hr, hf, hb⟩ := h₀.reads es
  rw [List.nil_append, List.append_nil] at hr
  have hx : (given .front es answers).length = xs.length := by simp [hf]
  have hy : (given .back es answers).length = ys.length := by simp [hb]
  refine ⟨answers, between a xs ms ys, hs ▸ hr, ?_⟩
  constructor
  case front_eq =>
    rw [hx, hf]
    simp
  case back_eq =>
    rw [hy, hb]
    simp
  case length_le =>
    rw [hx, hy]
    simp
  case sizeHint_eq =>
    rw [hx, hy, show (xs ++ ms ++ ys).length - xs.length - ys.length = ms.length by simp]
    rfl
  case apart =>
    refine ⟨xs, ms, ys, rfl, ?_, hf, hb, rfl⟩
    have hn := h.nodup
    rw [List.map_append, List.map_append] at hn
    exact fun s hsx hsy => (List.nodup_append'.mp hn).2.2 (List.mem_append_left _ hsx) hsy
  case none_iff =>
    intro e
    obtain ⟨answer, d, hd, hn⟩ := h.exists_read e
    refine ⟨answer, d, hd, hn.trans ?_⟩
    rw [hx, hy, ← List.length_eq_zero_iff]
    simp
  case ended =>
    intro hl later
    refine reads_of_remaining_eq_zero ?_ later
    rw [hx, hy] at hl
    simp [between] at hl ⊢
    omega

lemma Holds.traces (h : a.Holds cs) {b : Arena} (hr : Arena.run ops a = .ok (outs, b)) :
    ∃ ds, Traces cs ops outs ds ∧ b.Holds ds := by
  induction ops generalizing a cs outs with
  | nil =>
    obtain ⟨rfl, rfl⟩ : [] = outs ∧ a = b := by simpa [Arena.run] using hr
    exact ⟨cs, .nil, h⟩
  | cons op ops ih =>
    obtain ⟨out, d, later, hs, hl, rfl⟩ := run_cons_eq_ok.mp hr
    obtain ⟨ds, he, hd⟩ := h.edits hs
    obtain ⟨es, ht, hb⟩ := ih hd hl
    exact ⟨es, .cons he ht, hb⟩

/-- However a list came about, and in whatever order it is read from its two ends, no read fails. The
calls at the front give the first cells in order and those at the back the last ones, no cell is given
twice, and a call has no answer exactly from when all cells are given. -/
theorem both_ends_share_cells (hr : run ops empty = .ok (outs, a)) :
    ∃ cs, Traces [] ops outs cs ∧ ∀ es, ∃ answers c,
      Cursor.reads es (.start a) = .ok (answers, c) ∧ Shares a cs es answers c := by
  obtain ⟨cs, ht, h⟩ := holds_empty.traces hr
  exact ⟨cs, ht, h.shares⟩

theorem both_ends_share_cells_after_reuse :
    let ops : List Op := [.insert 7, .insert 8, .erase ⟨0, 0⟩, .insert 9, .insert 5]
    let es : List End := [.back, .front, .back, .front]
    ∃ outs a cs c, run ops empty = .ok (outs, a) ∧ Traces [] ops outs cs ∧
      Cursor.reads es (.start a) = .ok ([some 8, some 5, some 9, none], c) ∧
      Shares a cs es [some 8, some 5, some 9, none] c := by
  intro ops es
  have hr : run ops empty = .ok (_, _) := rfl
  obtain ⟨cs, ht, hs⟩ := both_ends_share_cells hr
  obtain ⟨answers, c, h, hc⟩ := hs es
  have hp : ([some 8, some 5, some 9, none], _) = (answers, c) := Except.ok.inj h
  obtain ⟨rfl, rfl⟩ := Prod.mk.inj hp
  exact ⟨_, _, cs, _, hr, ht, h, hc⟩

end Arena

end FramePool
