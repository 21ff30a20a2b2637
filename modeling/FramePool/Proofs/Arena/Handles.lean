import FramePool.Proofs.Arena.Sequence

/-! A slot's stamp counts its releases. Hence a position is live from its insertion to its removal,
and stale from then on, as long as the stamp does not come round. -/

namespace FramePool

namespace Arena

inductive Change where
  | entered (id : FrameId)
  | left (c : Cell)
deriving DecidableEq

inductive Changed : Arena → List Change → Arena → Prop
  | nil {a : Arena} : Changed a [] a
  | entered {a b : Arena} {p : Position} {id : FrameId} {es : List Change} : a.room = .ok p →
      Changed (a.pushFront id) es b → Changed a (.entered id :: es) b
  | left {a b : Arena} {c : Cell} {node : Node} {es : List Change} :
      a.live? c.position = some node → node.id = c.id → Changed (a.unlink c.slot node) es b →
      Changed a (.left c :: es) b

def Change.slot? : Change → Option Nat
  | .entered _ => none
  | .left c => some c.slot

def releases (slot : Nat) (es : List Change) : Nat := es.countP (·.slot? = some slot)

def stamp (a : Arena) (slot : Nat) : UInt32 := (a.slots[slot]?.map Slot.stamp).getD 0

variable {a b : Arena} {c : Cell} {p : Position} {id : FrameId} {es fs : List Change}

@[simp] lemma releases_nil (slot : Nat) : releases slot [] = 0 := rfl

@[simp] lemma releases_entered (slot : Nat) (id : FrameId) (es : List Change) :
    releases slot (.entered id :: es) = releases slot es := by
  simp [releases, Change.slot?]

@[simp] lemma releases_left (slot : Nat) (c : Cell) (es : List Change) :
    releases slot (.left c :: es) = releases slot es + if c.slot = slot then 1 else 0 := by
  simp [releases, List.countP_cons, Change.slot?]

@[simp] lemma releases_append (slot : Nat) (es fs : List Change) :
    releases slot (es ++ fs) = releases slot es + releases slot fs := List.countP_append

lemma releases_le_length (slot : Nat) (es : List Change) : releases slot es ≤ es.length :=
  List.countP_le_length

lemma releases_pos (h : .left c ∈ es) : 0 < releases c.slot es :=
  List.countP_pos_iff.mpr ⟨_, h, by simp [Change.slot?]⟩

lemma stamp_of_room (h : a.room = .ok p) : a.stamp p.slot = p.stamp := by
  rcases room_cases h with ⟨rest, _, hs⟩ | ⟨_, rfl⟩
  · simp [stamp, hs]
  · simp [stamp]

@[simp] lemma stamp_linkPrev (s : Slot) (link : Option Nat) : (s.linkPrev link).stamp = s.stamp := rfl

@[simp] lemma stamp_linkNext (s : Slot) (link : Option Nat) : (s.linkNext link).stamp = s.stamp := rfl

@[simp] lemma stamp_release (s : Slot) : s.release.stamp = s.stamp + 1 := rfl

namespace Sound

lemma stamp_of_mem (h : a.Sound) (hc : c ∈ a.cells) : a.stamp c.slot = c.position.stamp := by
  obtain ⟨node, _, hs⟩ := Holds.slot_of_mem h hc
  simp [stamp, hs]

lemma stamp_pushFront (h : a.Sound) (hr : a.room = .ok p) (id : FrameId) (slot : Nat) :
    (a.pushFront id).stamp slot = a.stamp slot := by
  by_cases hs : slot = p.slot
  · subst hs
    rw [stamp_of_room hr]
    simp [stamp, slots_pushFront hr (Holds.head_ne h hr)]
  · simp only [stamp, slots_pushFront hr (Holds.head_ne h hr), hs, if_false]
    split_ifs
    · simp [Function.comp_def]
    · rfl

lemma split_of_live (h : a.Sound) {node : Node} (hl : a.live? c.position = some node)
    (hi : node.id = c.id) : ∃ xs ys, a.cells = xs ++ c :: ys ∧ (a.unlink c.slot node).Sound ∧
      (a.unlink c.slot node).cells = xs ++ ys := by
  have hc : c ∈ a.cells := h.mem_cells.mpr (by simp [get?, hl, hi])
  obtain ⟨xs, ys, hx⟩ := List.append_of_mem hc
  obtain ⟨node', hl', _, hs, hcs⟩ := h.unlink hx
  obtain rfl : node = node' := by simpa [hl] using hl'
  exact ⟨xs, ys, hx, hs, hcs⟩

lemma stamp_unlink (h : a.Sound) (hc : c ∈ a.cells) (node : Node) (slot : Nat) :
    (a.unlink c.slot node).stamp slot = a.stamp slot + if c.slot = slot then 1 else 0 := by
  by_cases hs : c.slot = slot
  · subst hs
    obtain ⟨m, _, hm⟩ := Holds.slot_of_mem h hc
    simp only [stamp, slots_unlink, hm]
    split_ifs <;> simp
  · simp only [stamp, slots_unlink, Ne.symm hs, hs, if_false]
    split_ifs <;> simp [Function.comp_def]

lemma live?_eq_none (h : a.Sound) (hp : ∀ id, ⟨p, id⟩ ∉ a.cells) : a.live? p = none := by
  cases hl : a.live? p with
  | none => rfl
  | some node => exact (hp node.id (h.mem_cells.mpr (by simp [get?, hl]))).elim

end Sound

namespace Changed

lemma append {d : Arena} (h : Changed a es b) (hd : Changed b fs d) : Changed a (es ++ fs) d := by
  induction h with
  | nil => exact hd
  | entered hr _ ih => exact .entered hr (ih hd)
  | left hl hi _ ih => exact .left hl hi (ih hd)

lemma sound (h : Changed a es b) (ha : a.Sound) : b.Sound := by
  induction h with
  | nil => exact ha
  | entered hr _ ih => exact ih (ha.pushFront hr _).1
  | left hl hi _ ih =>
    obtain ⟨xs, ys, _, hs, _⟩ := ha.split_of_live hl hi
    exact ih hs

lemma stamp_eq (h : Changed a es b) (ha : a.Sound) (slot : Nat) :
    b.stamp slot = a.stamp slot + UInt32.ofNat (releases slot es) := by
  induction h with
  | nil => simp
  | entered hr _ ih =>
    rw [ih (ha.pushFront hr _).1, ha.stamp_pushFront hr, releases_entered]
  | @left a b c node es hl hi _ ih =>
    obtain ⟨xs, ys, hx, hs, _⟩ := ha.split_of_live hl hi
    rw [ih hs, ha.stamp_unlink (by simp [hx]), releases_left, UInt32.ofNat_add, UInt32.add_assoc]
    congr 1
    rw [UInt32.add_comm]
    split_ifs <;> rfl

lemma mem_of_not_left (h : Changed a es b) (ha : a.Sound) (hc : c ∈ a.cells) (hl : .left c ∉ es) :
    c ∈ b.cells := by
  induction h with
  | nil => exact hc
  | entered hr _ ih =>
    obtain ⟨hs, hcs⟩ := ha.pushFront hr _
    exact ih hs (by simp [hcs, hc]) (by simpa using hl)
  | @left a b d node es hv hi _ ih =>
    obtain ⟨xs, ys, hx, hs, hcs⟩ := ha.split_of_live hv hi
    obtain ⟨hd, hl⟩ : c ≠ d ∧ .left c ∉ es := by simpa using hl
    exact ih hs (by simpa [hcs, hx, hd] using hc) hl

lemma stamp_ne (h : Changed a es b) (ha : a.Sound) (hc : c ∈ a.cells) (hl : .left c ∈ es)
    (hn : releases c.slot es < UInt32.size) : b.stamp c.slot ≠ c.position.stamp := by
  rw [h.stamp_eq ha, ha.stamp_of_mem hc]
  intro he
  have hz : UInt32.ofNat (releases c.slot es) = 0 := by simpa using he
  have hm : releases c.slot es % UInt32.size = 0 := by simpa using congrArg UInt32.toNat hz
  rw [Nat.mod_eq_of_lt hn] at hm
  exact (Nat.ne_of_gt (releases_pos hl)) hm

lemma live?_of_left (h : Changed a es b) (ha : a.Sound) (hc : c ∈ a.cells) (hl : .left c ∈ es)
    (hn : releases c.slot es < UInt32.size) : b.live? c.position = none := by
  apply (h.sound ha).live?_eq_none
  intro id hm
  exact h.stamp_ne ha hc hl hn ((h.sound ha).stamp_of_mem hm :)

lemma room_ne (h : Changed a es b) (ha : a.Sound) (hc : c ∈ a.cells)
    (hn : releases c.slot es < UInt32.size) (hr : b.room = .ok p) : c.position ≠ p := by
  rintro rfl
  by_cases hl : .left c ∈ es
  · exact h.stamp_ne ha hc hl hn (stamp_of_room hr)
  · have hb := h.mem_of_not_left ha hc hl
    exact Holds.room_not_listed (h.sound ha) hr (List.mem_map_of_mem hb)

end Changed

def change? : Op → Outcome → Option Change
  | .insert id, _ => some (.entered id)
  | .erase p, .erased (some id) => some (.left ⟨p, id⟩)
  | .erase _, _ => none

def changes (ops : List Op) (outs : List Outcome) : List Change :=
  (ops.zip outs).filterMap fun e => change? e.1 e.2

def Outcome.position? : Outcome → Option Position
  | .inserted p => some p
  | .erased _ => none

variable {op : Op} {out : Outcome} {ops past since : List Op} {outs before later : List Outcome}

lemma changes_cons (op : Op) (out : Outcome) (ops : List Op) (outs : List Outcome) :
    changes (op :: ops) (out :: outs) = (change? op out).toList ++ changes ops outs := by
  cases h : change? op out <;> simp [changes, h]

lemma changes_append (h : past.length = before.length) :
    changes (past ++ since) (before ++ later) = changes past before ++ changes since later := by
  simp [changes, List.zip_append h]

lemma run_cons_eq_ok :
    run (op :: ops) a = .ok (outs, b) ↔ ∃ out d outs', a.step op = .ok (out, d) ∧
      run ops d = .ok (outs', b) ∧ outs = out :: outs' := by
  constructor
  · intro h
    obtain ⟨⟨out, d⟩, hs, h⟩ := bind_eq_ok.mp h
    obtain ⟨⟨outs', e⟩, hr, h⟩ := bind_eq_ok.mp h
    obtain ⟨rfl, rfl⟩ := Prod.mk.inj (Except.ok.inj h)
    exact ⟨out, d, outs', hs, hr, rfl⟩
  · rintro ⟨out, d, outs', hs, hr, rfl⟩
    simp [run, hs, hr]

lemma run_append_eq_ok :
    run (past ++ since) a = .ok (outs, b) ↔ ∃ before d later, run past a = .ok (before, d) ∧
      run since d = .ok (later, b) ∧ outs = before ++ later := by
  induction past generalizing a outs with
  | nil => simp [run]
  | cons op past ih =>
    simp only [List.cons_append, run_cons_eq_ok, ih]
    constructor
    · rintro ⟨out, d, _, hs, ⟨before, e, later, hp, hl, rfl⟩, rfl⟩
      exact ⟨out :: before, e, later, ⟨out, d, before, hs, hp, rfl⟩, hl, rfl⟩
    · rintro ⟨_, e, later, ⟨out, d, before, hs, hp, rfl⟩, hl, rfl⟩
      exact ⟨out, d, before ++ later, hs, ⟨before, e, later, hp, hl, rfl⟩, rfl⟩

lemma length_run (h : run ops a = .ok (outs, b)) : ops.length = outs.length := by
  induction ops generalizing a outs with
  | nil => simp [run] at h; simp [h.1]
  | cons op ops ih =>
    obtain ⟨out, d, outs', _, hr, rfl⟩ := run_cons_eq_ok.mp h
    simp [ih hr]

lemma insert_of_position (h : a.step op = .ok (out, b)) (hp : out.position? = some p) :
    ∃ id, op = .insert id ∧ a.room = .ok p ∧ b = a.pushFront id := by
  cases op with
  | insert id =>
    obtain ⟨q, hr, rfl, rfl⟩ := step_insert h
    obtain rfl : q = p := by simpa [Outcome.position?] using hp
    exact ⟨id, rfl, hr, rfl⟩
  | erase q =>
    cases hl : a.live? q <;> simp only [step, erase?, hl] at h <;> cases h <;> cases hp

lemma step_changed (h : a.step op = .ok (out, b)) : Changed a (change? op out).toList b := by
  cases op with
  | insert id =>
    obtain ⟨p, hr, rfl, rfl⟩ := step_insert h
    exact .entered hr .nil
  | erase p =>
    cases hl : a.live? p with
    | none =>
      obtain ⟨rfl, rfl⟩ : .erased none = out ∧ a = b := by simpa [step, erase?, hl] using h
      exact .nil
    | some node =>
      obtain ⟨rfl, rfl⟩ : .erased (some node.id) = out ∧ a.unlink p.slot node = b := by
        simpa [step, erase?, hl] using h
      exact .left (c := ⟨p, node.id⟩) hl rfl .nil

lemma run_changed (h : run ops a = .ok (outs, b)) : Changed a (changes ops outs) b := by
  induction ops generalizing a outs with
  | nil =>
    obtain ⟨rfl, rfl⟩ : [] = outs ∧ a = b := by simpa [run] using h
    exact .nil
  | cons op ops ih =>
    obtain ⟨out, d, outs, hs, hr, rfl⟩ := run_cons_eq_ok.mp h
    rw [changes_cons]
    exact (step_changed hs).append (ih hr)

lemma erase_mem (h : .left c ∈ changes ops outs) : .erase c.position ∈ ops := by
  obtain ⟨⟨op, out⟩, hm, hc⟩ := List.mem_filterMap.mp h
  have ho : op = .erase c.position := by
    rcases op with id | p
    · simp [change?] at hc
    · rcases out with q | _ | id
      · simp [change?] at hc
      · simp [change?] at hc
      · obtain rfl : ⟨p, id⟩ = c := by simpa [change?] using hc
        rfl
  exact ho ▸ (List.of_mem_zip hm).1

namespace Sound

lemma step_erase (h : a.Sound) (hc : c ∈ a.cells) (hs : a.step (.erase c.position) = .ok (out, b)) :
    out = .erased (some c.id) := by
  obtain ⟨xs, ys, hx⟩ := List.append_of_mem hc
  obtain ⟨node, hl, hi, _⟩ := h.unlink hx
  obtain ⟨rfl, -⟩ : .erased (some node.id) = out ∧ a.unlink c.slot node = b := by
    simpa [step, erase?, hl] using hs
  rw [hi]

lemma left_mem (h : a.Sound) (hc : c ∈ a.cells) (hr : run ops a = .ok (outs, b))
    (he : .erase c.position ∈ ops) : .left c ∈ changes ops outs := by
  induction ops generalizing a outs with
  | nil => simp at he
  | cons op ops ih =>
    obtain ⟨out, d, outs, hs, ht, rfl⟩ := run_cons_eq_ok.mp hr
    rw [changes_cons, List.mem_append]
    by_cases hop : op = .erase c.position
    · subst hop
      obtain rfl := h.step_erase hc hs
      exact Or.inl (by simp [change?])
    · right
      have hd := step_changed hs
      have hl : .left c ∉ (change? op out).toList := by
        intro hl
        have hm : .left c ∈ changes [op] [out] := by simpa [changes, List.mem_filterMap] using hl
        exact hop (by simpa [eq_comm] using erase_mem hm)
      refine ih (hd.sound h) (hd.mem_of_not_left h hc hl) ht ?_
      exact (List.mem_cons.mp he).resolve_left (Ne.symm hop)

lemma position_not_returned {d : Arena} (h : a.Sound) (hc : c ∈ a.cells) (hd : Changed a es d)
    (hr : run ops d = .ok (outs, b)) (hn : releases c.slot (es ++ changes ops outs) < UInt32.size) :
    c.position ∉ outs.filterMap Outcome.position? := by
  induction ops generalizing d es outs with
  | nil =>
    obtain ⟨rfl, rfl⟩ : [] = outs ∧ d = b := by simpa [run] using hr
    simp
  | cons op ops ih =>
    obtain ⟨out, e, outs, hs, ht, rfl⟩ := run_cons_eq_ok.mp hr
    rw [changes_cons, ← List.append_assoc] at hn
    have hm := ih (hd.append (step_changed hs)) ht hn
    cases hp : out.position? with
    | none => simpa [hp] using hm
    | some p =>
      obtain ⟨_, _, hroom, _⟩ := insert_of_position hs hp
      have hne : c.position ≠ p := by
        apply hd.room_ne h hc _ hroom
        simp only [releases_append] at hn
        omega
      simpa [hp, hne] using hm

lemma positions_nodup_run (h : a.Sound) (hr : run ops a = .ok (outs, b))
    (hn : ∀ slot, releases slot (changes ops outs) < UInt32.size) :
    (outs.filterMap Outcome.position?).Nodup := by
  induction ops generalizing a outs with
  | nil =>
    obtain ⟨rfl, rfl⟩ : [] = outs ∧ a = b := by simpa [run] using hr
    simp
  | cons op ops ih =>
    obtain ⟨out, d, outs, hs, ht, rfl⟩ := run_cons_eq_ok.mp hr
    simp only [changes_cons, releases_append] at hn
    have hl : ∀ slot, releases slot (changes ops outs) < UInt32.size :=
      fun slot => Nat.lt_of_le_of_lt (Nat.le_add_left _ _) (hn slot)
    have hm := ih ((step_changed hs).sound h) ht hl
    cases hp : out.position? with
    | none => simpa [hp] using hm
    | some p =>
      obtain ⟨id, rfl, hr, rfl⟩ := insert_of_position hs hp
      obtain ⟨hd, hcs⟩ := h.pushFront hr id
      have hf := hd.position_not_returned (c := ⟨p, id⟩) (by simp [hcs]) .nil ht (hl _)
      simpa [hp] using ⟨by simpa using hf, hm⟩

end Sound

/-- From its insertion on a position is live, with the frame that was inserted, until the call that
removes it, and after this call it is stale. No two insertions return the same position. -/
theorem position_names_one_stay (hr : run ops empty = .ok (outs, a))
    (hn : ∀ slot, releases slot (changes ops outs) < UInt32.size) :
    (outs.filterMap Outcome.position?).Nodup ∧
      ∀ past id since rest, ops = past ++ .insert id :: since ++ rest →
        ∃ before p later b, run (past ++ .insert id :: since) empty =
            .ok (before ++ .inserted p :: later, b) ∧
          before.length = past.length ∧ before ++ .inserted p :: later <+: outs ∧
          (.erase p ∉ since → b.contains p = true ∧ b.get? p = some id ∧
            ∃ b', b.step (.erase p) = .ok (.erased (some id), b')) ∧
          (.erase p ∈ since → b.contains p = false ∧ b.get? p = none ∧
            b.step (.erase p) = .ok (.erased none, b)) := by
  refine ⟨sound_empty.positions_nodup_run hr hn, ?_⟩
  rintro past id since rest rfl
  obtain ⟨_, b, after, hb, ha, rfl⟩ := run_append_eq_ok.mp hr
  obtain ⟨before, d, _, hd, hi, rfl⟩ := run_append_eq_ok.mp hb
  obtain ⟨_, e, later, hs, hl, rfl⟩ := run_cons_eq_ok.mp hi
  obtain ⟨p, hroom, rfl, rfl⟩ := step_insert hs
  have hsd := (run_changed hd).sound sound_empty
  obtain ⟨he, hcs⟩ := hsd.pushFront hroom id
  have hc : ⟨p, id⟩ ∈ (d.pushFront id).cells := by simp [hcs]
  have hch := run_changed hl
  have hrel : releases p.slot (changes since later) < UInt32.size := by
    have hslot := hn p.slot
    rw [changes_append (by simp [length_run hd, length_run hl]), changes_append (length_run hd),
      changes_cons] at hslot
    simp only [releases_append] at hslot
    omega
  refine ⟨before, p, later, b, hb, (length_run hd).symm, List.prefix_append _ _, ?_, ?_⟩
  · intro hne
    have hm := hch.mem_of_not_left he hc fun h => hne (erase_mem h)
    obtain ⟨xs, ys, hx⟩ := List.append_of_mem hm
    obtain ⟨node, hnode, hid, _⟩ := (hch.sound he).unlink hx
    simp only at hnode hid
    simp [contains, get?, Arena.step, erase?, hnode, hid]
  · intro hmem
    have hnone := hch.live?_of_left he hc (he.left_mem hc hl hmem) hrel
    simp only at hnone
    simp [contains, get?, Arena.step, erase?, hnone]

theorem position_stale_after_reuse :
    let since : List Op := [.erase ⟨0, 0⟩, .insert 8]
    let ops : List Op := .insert 7 :: since ++ [.erase ⟨0, 0⟩, .insert 9]
    ∃ outs a, run ops empty = .ok (outs, a) ∧
      (∀ slot, releases slot (changes ops outs) < UInt32.size) ∧
      (outs.filterMap Outcome.position?).Nodup ∧
      ∃ before p later b, run (.insert 7 :: since) empty =
          .ok (before ++ .inserted p :: later, b) ∧
        before = [] ∧ (.erase p ∈ since → b.contains p = false ∧ b.get? p = none ∧
          b.step (.erase p) = .ok (.erased none, b)) := by
  intro since ops
  have hsmall : StaysSmall empty [] ops := staysSmall_of_length_lt (by decide)
  obtain ⟨outs, a, cs, hr, -⟩ := holds_empty.run hsmall
  have hn : ∀ slot, releases slot (changes ops outs) < UInt32.size := by
    intro slot
    have hc := releases_le_length slot (changes ops outs)
    have hl : (changes ops outs).length ≤ (ops.zip outs).length := List.length_filterMap_le _ _
    have ho : (ops.zip outs).length ≤ 5 := by
      rw [List.length_zip]
      exact Nat.min_le_left _ _
    exact Nat.lt_of_le_of_lt (Nat.le_trans hc (Nat.le_trans hl ho)) (by decide)
  obtain ⟨hp, hstay⟩ := position_names_one_stay hr hn
  obtain ⟨before, p, later, b, hb, he, -, -, hs⟩ :=
    hstay [] 7 since [.erase ⟨0, 0⟩, .insert 9] rfl
  exact ⟨outs, a, hr, hn, hp, before, p, later, b, hb, List.eq_nil_of_length_eq_zero he, hs⟩

end Arena

end FramePool
