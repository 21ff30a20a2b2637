import FramePool.Proofs.Lru.Fresh
import FramePool.Proofs.Lru.Scan

/-! Histories of operations on an engine. Every operation that succeeds keeps the engine coherent. As
long as only new frames are inserted and not too many of them, none fails. -/

namespace FramePool

namespace Lru

inductive Op where
  | insert (id : FrameId)
  | touch (id : FrameId)
  | scan (budget : Nat)
  | age
  | remove (id : FrameId)
  | retire (e : Entry)
deriving DecidableEq

inductive Outcome where
  | done
  | scanned (s : Scan)
  | removed (known : Bool)

abbrev Turn := Op × Outcome

def evicted : Turn → List FrameId
  | (_, .scanned s) => s.evicted.toList
  | _ => []

def evictions (history : List Turn) : List FrameId := history.flatMap evicted

def step (l : Lru) : Op → Except Fault (Outcome × Lru)
  | .insert id => do return (.done, ← l.insert id)
  | .touch id => return (.done, l.touch id)
  | .scan budget => do
      let (s, l) ← l.scan budget
      return (.scanned s, l)
  | .age => do return (.done, ← l.age)
  | .remove id => do
      let (known, l) ← l.remove id
      return (.removed known, l)
  | .retire e => do return (.done, ← l.retire e)

def run : List Op → Lru → Except Fault (List Outcome × Lru)
  | [], l => .ok ([], l)
  | op :: ops, l => do
      let (out, l) ← l.step op
      let (outs, l) ← run ops l
      return (out :: outs, l)

/-- A frame that is inserted is not resident, and there is room for it. -/
def Allowed (l : Lru) : Op → Prop
  | .insert id => l.contains id = false ∧ l.resident + 1 < Arena.slotLimit
  | _ => True

def Legal : List Op → Lru → Prop
  | [], _ => True
  | op :: ops, l => l.Allowed op ∧
      match l.step op with
      | .ok (_, l) => Legal ops l
      | .error _ => True

instance (l : Lru) : (op : Op) → Decidable (l.Allowed op)
  | .insert id => inferInstanceAs (Decidable (l.contains id = false ∧ l.resident + 1 < Arena.slotLimit))
  | .touch _ | .scan _ | .age | .remove _ | .retire _ => .isTrue trivial

instance decidableLegal : (ops : List Op) → (l : Lru) → Decidable (Legal ops l)
  | [], _ => .isTrue trivial
  | op :: ops, l =>
      have : Decidable (match l.step op with
          | .ok (_, l) => Legal ops l
          | .error _ => True) :=
        match l.step op with
        | .ok (_, l) => decidableLegal ops l
        | .error _ => .isTrue trivial
      inferInstanceAs (Decidable (_ ∧ _))

variable {l l' : Lru} {op : Op} {out : Outcome} {ops : List Op} {outs : List Outcome}

structure Removed (l l' : Lru) (id : FrameId) : Prop where
  coherent : l'.Coherent
  table_eq : l'.table = l.table.erase id
  order_eq : l'.order = l.order.erase id
  moved : Moved l l'

structure Touched (l l' : Lru) (id : FrameId) : Prop where
  coherent : l'.Coherent
  table_eq : l'.table = l.table
  order_eq : l'.order = l.order
  size_eq : l'.generations.size = l.generations.size
  bitmap_eq : ∀ g, l'.bitmap g = if id ∈ l.ids g then (l.bitmap g).mark id else l.bitmap g

lemma Touched.entry_eq {id : FrameId} (ht : Touched l l' id) (k : FrameId) :
    l'.entry? k = l.entry? k := congrArg (·[k]?) ht.table_eq

lemma Touched.contains_eq {id : FrameId} (ht : Touched l l' id) (k : FrameId) :
    l'.contains k = l.contains k := congrArg (·.contains k) ht.table_eq

lemma Touched.mem_ids {id k : FrameId} (ht : Touched l l' id) (h : l.Coherent) {g : Nat} :
    k ∈ l'.ids g ↔ k ∈ l.ids g := by
  rw [h.mem_ids, ht.coherent.mem_ids, ht.entry_eq]

lemma Touched.resident_eq {id : FrameId} (ht : Touched l l' id) : l'.resident = l.resident :=
  congrArg Std.ExtTreeMap.size ht.table_eq

@[simp] lemma counters_touch (l : Lru) (id : FrameId) : (l.touch id).counters = l.counters := by
  rw [touch]
  split <;> rfl

lemma Touched.words_eq {id : FrameId} (ht : Touched l l' id) (g : Nat) :
    (l'.bitmap g).size = (l.bitmap g).size := by
  rw [ht.bitmap_eq]
  split_ifs
  · exact Bitmap.size_mark _ id
  · rfl

lemma Removed.contains_eq {id : FrameId} (hr : Removed l l' id) (k : FrameId) :
    l'.contains k = (l.contains k && decide (k ≠ id)) := by
  simp only [contains, hr.table_eq, Std.ExtTreeMap.contains_erase]
  by_cases hk : k = id
  · simp [hk]
  · simp [hk, Ne.symm hk]

lemma Removed.resident_eq {id : FrameId} (hr : Removed l l' id) (h : l.Coherent)
    (hid : l.contains id = true) : l'.resident + 1 = l.resident := by
  rw [hr.coherent.resident_eq, h.resident_eq, hr.order_eq]
  exact List.length_erase_add_one (h.mem_order.mpr hid)

lemma Removed.entry_of_ne {id k : FrameId} (hr : Removed l l' id) (hk : id ≠ k) :
    l'.entry? k = l.entry? k := by
  change l'.table[k]? = l.table[k]?
  rw [hr.table_eq, Std.ExtTreeMap.getElem?_erase, if_neg (by simpa using hk)]

namespace Coherent

lemma touch (h : l.Coherent) (id : FrameId) : Touched l (l.touch id) id := by
  have hin : ∀ g, id ∈ l.ids g ↔ ∃ p, l.entry? id = some ⟨id, g, p⟩ := fun g => h.mem_ids
  cases he : l.entry? id with
  | none =>
    simp only [he, reduceCtorEq, exists_false, iff_false] at hin
    simp only [Lru.touch, he]
    exact ⟨h, rfl, rfl, rfl, fun g => (if_neg (hin g)).symm⟩
  | some e =>
    have hf : ∀ gen : Generation, (gen.mark id).frames = gen.frames := fun _ => rfl
    obtain ⟨rfl, hm⟩ := (h.mapped id e).mp he
    obtain ⟨gen, hgen⟩ := exists_generation (lt_of_mem_cells hm)
    simp only [Lru.touch, he]
    refine ⟨h.modifyBits e.generation hf, rfl, h.order_modifyBits e.generation hf, by simp, ?_⟩
    intro g
    rw [bitmap_modifyGeneration hgen]
    by_cases hg : g = e.generation
    · subst hg
      rw [Function.update_self, if_pos ((hin _).mpr ⟨e.position, he⟩), bitmap_of_getElem? hgen]
      rfl
    · rw [Function.update_of_ne hg, if_neg]
      rintro hm
      obtain ⟨p, hp⟩ := (hin g).mp hm
      rw [he] at hp
      exact hg (congrArg Entry.generation (Option.some.inj hp)).symm

lemma retire (h : l.Coherent) {e : Entry} (he : l.entry? e.id = some e) :
    ∃ l', l.retire e = .ok l' ∧ Removed l l' e.id := by
  obtain ⟨_, hm⟩ := (h.mapped e.id e).mp he
  obtain ⟨xs, ys, hx⟩ := List.append_of_mem hm
  obtain ⟨l₁, hu, hexp⟩ := h.expel hx
  have hck := hexp.coherent.checkFrame e.id
  refine ⟨l₁.drop e.id, ?_, hexp.coherent, hexp.table_eq, hexp.order_eq h hx, hexp.moved⟩
  simp [Lru.retire, he, hu, hck]

lemma remove (h : l.Coherent) (id : FrameId) :
    ∃ l', l.remove id = .ok (l.contains id, l') ∧ Removed l l' id := by
  cases he : l.entry? id with
  | none =>
    have hno : l.contains id = false := by rw [contains_eq_isSome, he, Option.isSome_none]
    have hord : id ∉ l.order := by simp [h.mem_order, hno]
    refine ⟨l, by simp [Lru.remove, he, hno], h, ?_, (List.erase_of_not_mem hord).symm, .refl l⟩
    apply Std.ExtTreeMap.ext_getElem?
    intro k
    rw [Std.ExtTreeMap.getElem?_erase]
    split_ifs with hk
    · obtain rfl := compare_eq_iff_eq.mp hk
      exact he
    · rfl
  | some e =>
    obtain ⟨rfl, _⟩ := (h.mapped id e).mp he
    have hyes : l.contains e.id = true := by rw [contains_eq_isSome, he, Option.isSome_some]
    obtain ⟨l', hr, hrm⟩ := h.retire he
    exact ⟨l', by simp [Lru.remove, he, hr, hyes], hrm⟩

end Coherent

lemma retire_of_ne {e : Entry} (he : l.entry? e.id ≠ some e) : l.retire e = .ok l := by
  simp [Lru.retire, he]

inductive Stepped (l : Lru) : Op → Outcome → Lru → Prop
  | insert {l' : Lru} {id : FrameId} : l.contains id = false → Added l l' id →
      Stepped l (.insert id) .done l'
  | touch {l' : Lru} {id : FrameId} : Touched l l' id → Stepped l (.touch id) .done l'
  | scanEmpty {l' : Lru} {budget : Nat} : l.cells l.oldest = [] → l'.Coherent → Aged l l' →
      Stepped l (.scan budget) (.scanned { aged := true }) l'
  | scan {l₁ l' : Lru} {budget : Nat} {s : Scan} : l.cells l.oldest ≠ [] →
      Scanned l l₁ l' budget s → Stepped l (.scan budget) (.scanned s) l'
  | age {l' : Lru} : l'.Coherent → Aged l l' → Stepped l .age .done l'
  | remove {l' : Lru} {id : FrameId} : Removed l l' id →
      Stepped l (.remove id) (.removed (l.contains id)) l'
  | retire {l' : Lru} {e : Entry} : l.entry? e.id = some e → Removed l l' e.id →
      Stepped l (.retire e) .done l'
  | retireStale {e : Entry} : l.entry? e.id ≠ some e → Stepped l (.retire e) .done l

lemma Coherent.step (h : l.Coherent) (op : Op) :
    Meets (l.step op) (fun r => Stepped l op r.1 r.2) (¬l.Allowed op ∨ l.Overfull) := by
  cases op with
  | insert id =>
    have hex : l.contains id = true ∨ Arena.slotLimit ≤ l.resident →
        ¬l.Allowed (.insert id) ∨ l.Overfull := by
      intro he
      left
      rintro ⟨hid, hn⟩
      cases he with
      | inl he => rw [hid] at he; cases he
      | inr he => omega
    apply ((h.insert id).mono (fun _ ha => ha) hex).bind
    exact fun l' ha => .insert ha.1 ha.2
  | touch id => exact .touch (h.touch id)
  | scan budget =>
    by_cases he : l.cells l.oldest = []
    · apply ((h.scan_of_empty he budget).mono (fun _ hs => hs) Or.inr).bind
      rintro ⟨s, l'⟩ ⟨rfl, h', ha⟩
      exact .scanEmpty he h' ha
    · apply ((h.scan_of_ne_nil he budget).mono (fun _ hs => hs) Or.inr).bind
      rintro ⟨s, l'⟩ ⟨l₁, hs⟩
      exact .scan he hs
  | age =>
    apply (h.age.mono (fun _ ha => ha) Or.inr).bind
    exact fun l' ha => .age ha.1 ha.2
  | remove id =>
    obtain ⟨l', hr, hrm⟩ := h.remove id
    simp only [Lru.step, hr, ok_bind]
    exact .remove hrm
  | retire e =>
    by_cases he : l.entry? e.id = some e
    · obtain ⟨l', hr, hrm⟩ := h.retire he
      simp only [Lru.step, hr, ok_bind]
      exact .retire he hrm
    · simp only [Lru.step, retire_of_ne he, ok_bind]
      exact .retireStale he

structure Kept (l l' : Lru) (op : Op) : Prop where
  coherent : l'.Coherent
  size_eq : l'.generations.size = l.generations.size
  words_eq : ∀ g, (l'.bitmap g).size = (l.bitmap g).size
  resident_before : ∀ id, l'.contains id = true → l.contains id = true ∨ op = .insert id
  consistent : l.Allowed op → l.Consistent → l'.Consistent

lemma Kept.of_contains (h' : l'.Coherent) (hsz : l'.generations.size = l.generations.size)
    (hw : ∀ g, (l'.bitmap g).size = (l.bitmap g).size)
    (hsub : ∀ id, l'.contains id = true → l.contains id = true) : Kept l l' op :=
  ⟨h', hsz, hw, fun id hid => Or.inl (hsub id hid), fun _ h => h.of_coherent h' hsub⟩

lemma Removed.kept {id : FrameId} (hr : Removed l l' id) (op : Op) : Kept l l' op := by
  apply Kept.of_contains hr.coherent hr.moved.size_eq fun g => by rw [hr.moved.bitmap_eq]
  intro k hk
  rw [hr.contains_eq, Bool.and_eq_true] at hk
  exact hk.1

lemma Aged.kept (ha : Aged l l') (h' : l'.Coherent) (op : Op) : Kept l l' op :=
  Kept.of_contains h' ha.size_eq ha.words_eq fun id hid => (ha.contains_eq id).symm.trans hid

lemma Stepped.kept (hs : Stepped l op out l') (h : l.Coherent) : Kept l l' op := by
  cases hs with
  | @insert l' id hid ha =>
    refine ⟨ha.coherent, ha.moved.size_eq, fun g => by rw [ha.moved.bitmap_eq], ?_, ?_⟩
    · intro k hk
      rw [ha.contains_eq, Bool.or_eq_true, decide_eq_true_eq] at hk
      exact hk.imp_right fun he => congrArg Op.insert he.symm
    · intro hal _
      refine ⟨ha.coherent, ?_⟩
      rw [ha.resident_eq hid]
      exact hal.2.le
  | touch ht =>
    exact Kept.of_contains ht.coherent ht.size_eq ht.words_eq fun k hk =>
      (ht.contains_eq k).symm.trans hk
  | scanEmpty _ h' ha => exact ha.kept h' _
  | scan _ hsc =>
    exact Kept.of_contains hsc.coherent hsc.size_eq hsc.words_eq fun _ => hsc.contains_of_contains h
  | age h' ha => exact ha.kept h' _
  | remove hr => exact hr.kept _
  | retire _ hr => exact hr.kept _
  | retireStale => exact Kept.of_contains h rfl (fun _ => rfl) fun _ hid => hid

lemma run_cons_eq_ok (hr : run (op :: ops) l = .ok (outs, l')) :
    ∃ out l₁ outs', l.step op = .ok (out, l₁) ∧ run ops l₁ = .ok (outs', l') ∧
      outs = out :: outs' := by
  simp only [Lru.run, bind_eq_ok] at hr
  obtain ⟨⟨out, l₁⟩, hs, ⟨outs', l₂⟩, hr, he⟩ := hr
  obtain ⟨rfl, rfl⟩ := Prod.mk.inj (Except.ok.inj he)
  exact ⟨out, l₁, outs', hs, hr, rfl⟩

lemma run_concat_eq_ok (hr : run (ops ++ [op]) l = .ok (outs, l')) :
    ∃ outs' l₁ out, run ops l = .ok (outs', l₁) ∧ l₁.step op = .ok (out, l') ∧
      (ops ++ [op]).zip outs = ops.zip outs' ++ [(op, out)] := by
  induction ops generalizing l outs with
  | nil =>
    obtain ⟨out, l₁, outs', hs, hn, rfl⟩ := run_cons_eq_ok hr
    obtain ⟨rfl, rfl⟩ := Prod.mk.inj (Except.ok.inj hn)
    exact ⟨[], l, out, rfl, hs, rfl⟩
  | cons first ops ih =>
    obtain ⟨out₁, l₁, outs₁, hs₁, hr₁, rfl⟩ := run_cons_eq_ok hr
    obtain ⟨outs', l₂, out, hr', hs, hz⟩ := ih hr₁
    exact ⟨out₁ :: outs', l₂, out, by simp [Lru.run, hs₁, hr'], hs, by simpa using hz⟩

lemma Coherent.run (h : l.Coherent) (hr : Lru.run ops l = .ok (outs, l')) :
    l'.Coherent ∧ l'.generations.size = l.generations.size ∧
      (∀ g, (l'.bitmap g).size = (l.bitmap g).size) ∧
      ∀ id, l'.contains id = true → l.contains id = true ∨ .insert id ∈ ops := by
  induction ops generalizing l outs with
  | nil =>
    obtain ⟨_, rfl⟩ := Prod.mk.inj (Except.ok.inj hr)
    exact ⟨h, rfl, fun _ => rfl, fun _ => Or.inl⟩
  | cons op ops ih =>
    obtain ⟨out, l₁, outs', hs, hr, _⟩ := run_cons_eq_ok hr
    have hst := ((h.step op).of_eq_ok hs).kept h
    obtain ⟨h', hsz, hw, hin⟩ := ih hst.coherent hr
    refine ⟨h', hsz.trans hst.size_eq, fun g => (hw g).trans (hst.words_eq g), fun id hid => ?_⟩
    cases hin id hid with
    | inl hid =>
      cases hst.resident_before id hid with
      | inl hid => exact Or.inl hid
      | inr hop => exact Or.inr (by simp [hop])
    | inr hop => exact Or.inr (List.mem_cons_of_mem _ hop)

namespace Consistent

lemma touch (h : l.Consistent) (id : FrameId) :
    (l.touch id).Consistent ∧ (l.touch id).order = l.order := by
  have ht := h.toCoherent.touch id
  exact ⟨h.of_coherent ht.coherent fun k hk => (ht.contains_eq k).symm.trans hk, ht.order_eq⟩

lemma remove (h : l.Consistent) (id : FrameId) :
    ∃ l', l.remove id = .ok (l.contains id, l') ∧ l'.Consistent ∧ Removed l l' id := by
  obtain ⟨l', hr, hrm⟩ := h.toCoherent.remove id
  exact ⟨l', hr, (hrm.kept (.remove id)).consistent trivial h, hrm⟩

lemma step (h : l.Consistent) (ha : l.Allowed op) :
    ∃ out l', l.step op = .ok (out, l') ∧ l'.Consistent ∧
      l'.generations.size = l.generations.size := by
  have hno : ¬(¬l.Allowed op ∨ l.Overfull) := by
    rintro (hna | hn)
    · exact hna ha
    · exact h.not_overfull hn
  obtain ⟨⟨out, l'⟩, hs, hst⟩ := (h.toCoherent.step op).exists_ok hno
  have hk := hst.kept h.toCoherent
  exact ⟨out, l', hs, hk.consistent ha h, hk.size_eq⟩

lemma run (h : l.Consistent) {ops : List Op} (hl : Legal ops l) :
    ∃ outs l', run ops l = .ok (outs, l') ∧ l'.Consistent ∧
      l'.generations.size = l.generations.size := by
  induction ops generalizing l with
  | nil => exact ⟨[], l, rfl, h, rfl⟩
  | cons op ops ih =>
    obtain ⟨ha, hl⟩ := hl
    obtain ⟨out, l₁, hs, h₁, hsz₁⟩ := h.step ha
    rw [hs] at hl
    obtain ⟨outs, l', hr, h', hsz'⟩ := ih h₁ hl
    exact ⟨out :: outs, l', by simp [Lru.run, hs, hr], h', hsz'.trans hsz₁⟩

end Consistent

lemma Legal.of_append {ops more : List Op} (h : Legal (ops ++ more) l) : Legal ops l := by
  induction ops generalizing l with
  | nil => trivial
  | cons op ops ih =>
    obtain ⟨ha, hl⟩ := h
    refine ⟨ha, ?_⟩
    split at hl
    · exact ih hl
    · trivial

end Lru

end FramePool
