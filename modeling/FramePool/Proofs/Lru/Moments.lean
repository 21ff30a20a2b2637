import FramePool.Proofs.Lru.Edits

/-! The operations once more, with a note of the engine after every single change of a list. The notes
show what lies inside an aging or a scan, also inside one that fails. -/

namespace FramePool

namespace Lru

structure Traced (α : Type) where
  result : Except Fault α
  moments : List Lru

namespace Traced

variable {α β : Type}

instance : Monad Traced where
  pure a := ⟨.ok a, []⟩
  bind x f :=
    match x.result with
    | .ok a => ⟨(f a).result, x.moments ++ (f a).moments⟩
    | .error e => ⟨.error e, x.moments⟩

instance : MonadLift (Except Fault) Traced where
  monadLift x := ⟨x, []⟩

def fail (f : Fault) : Traced α := ⟨.error f, []⟩

def note (x : Except Fault Lru) : Traced Lru := ⟨x, x.toOption.toList⟩

def moveOlder (index : Nat) (l : Lru) (id : FrameId) : Traced Lru := do
  match l.entry? id with
  | none => fail (.untracked id)
  | some e =>
      let l ← note (l.unlink index e.position)
      note (l.place id (index + 1))

def shift (l : Lru) (index : Nat) : Traced Lru := do
  let moving := (← l.generation index).frames
  let l ← (moving.lastIds moving.size).foldlM (moveOlder index) l
  return l.modifyGeneration index Generation.wipe

def shiftBelow : Nat → Lru → Traced Lru
  | 0, l => pure l
  | n + 1, l => do shiftBelow n (← shift l n)

def age (l : Lru) : Traced Lru := do
  let oldest := l.oldest
  let l ← shiftBelow oldest l
  let l := l.modifyGeneration oldest Generation.wipe
  let l := { l with counters := { l.counters with agings := l.counters.agings + 1 } }
  l.checkSizes
  return l

def promote (l : Lru) (e : Entry) : Traced Lru := do
  if e.generation = 0 then return l
  let l ← note (l.unlink e.generation e.position)
  let l ← note (l.place e.id (e.generation - 1))
  l.checkFrame e.id
  return l

def examine (oldest : Nat) : Lru × Scan → FrameId → Traced (Lru × Scan)
  | (l, s), id => do
      let some e := l.entry? id | fail (.untracked id)
      if e.generation ≠ oldest then fail (.unequal e.generation oldest)
      let s := { s with scanned := s.scanned + 1 }
      if (← l.generation oldest).accessed.marked id then
        let l ← promote (l.modifyGeneration oldest (·.unmark id)) e
        return (l, { s with promoted := s.promoted + 1 })
      else
        let l ← note (l.unlink oldest e.position)
        return (l.drop id, { s with evicted := s.evicted.push id })

def sweep (l : Lru) (budget : Nat) : Traced (Scan × Lru) := do
  let oldest := l.oldest
  let frames := (← l.generation oldest).frames
  let (l, found) ← (frames.lastIds budget).foldlM (examine oldest) (l, {})
  return (found, l.count found)

def refill (l : Lru) (budget : Nat) : Traced (Bool × Lru) := do
  if (← l.generation l.oldest).size < budget / 4 then return (true, ← age l)
  else return (false, l)

def scan (l : Lru) (budget : Nat) : Traced (Scan × Lru) := do
  if (← l.generation l.oldest).frames.isEmpty then return ({ aged := true }, ← age l)
  let (found, l) ← sweep l budget
  let (aged, l) ← refill l budget
  l.checkSizes
  return ({ found with aged }, l)

def insert (l : Lru) (id : FrameId) : Traced Lru := do
  if l.contains id then fail (.alreadyResident id)
  let l ← note (l.place id 0)
  l.checkFrame id
  return l

def retire (l : Lru) (e : Entry) : Traced Lru := do
  if l.entry? e.id = some e then
    let l ← note (l.unlink e.generation e.position)
    let l := l.drop e.id
    l.checkFrame e.id
    return l
  else return l

def remove (l : Lru) (id : FrameId) : Traced (Bool × Lru) := do
  match l.entry? id with
  | some e => return (true, ← retire l e)
  | none => return (false, l)

def step (l : Lru) : Op → Traced (Outcome × Lru)
  | .insert id => do return (.done, ← insert l id)
  | .touch id => return (.done, l.touch id)
  | .scan budget => do
      let (s, l) ← scan l budget
      return (.scanned s, l)
  | .age => do return (.done, ← age l)
  | .remove id => do
      let (known, l) ← remove l id
      return (.removed known, l)
  | .retire e => do return (.done, ← retire l e)

def run : List Op → Lru → Traced (List Outcome × Lru)
  | [], l => pure ([], l)
  | op :: ops, l => do
      let (out, l) ← step l op
      let (outs, l) ← run ops l
      return (out :: outs, l)

end Traced

structure Rests (l l' : Lru) : Prop where
  arena_eq : l'.arena = l.arena
  size_eq : l'.generations.size = l.generations.size
  entry_of : ∀ id e, l'.entry? id = some e → l.entry? id = some e

/-- The engines noted on the way from `l` to `l'`. The numbers bound the frames in flight at both ends:
those that are in no list and have yet to be placed. -/
inductive Path : Nat → Lru → List Lru → Nat → Lru → Prop
  | nil {n : Nat} {l : Lru} : Path n l [] n l
  | rest {m n k : Nat} {l l₁ l' : Lru} {ms : List Lru} : Rests l l₁ → m ≤ n → Path m l₁ ms k l' →
      Path n l ms k l'
  | unlink {n k g : Nat} {p : Position} {l l₁ l' : Lru} {ms : List Lru} :
      l.unlink g p = .ok l₁ → Path (n + 1) l₁ ms k l' → Path n l (l₁ :: ms) k l'
  | place {n k g : Nat} {id : FrameId} {l l₁ l' : Lru} {ms : List Lru} :
      l.place id g = .ok l₁ → Path n l₁ ms k l' → Path (n + 1) l (l₁ :: ms) k l'

/-- The traced computation has the result of the plain one, and its notes are those on the way from `l` to
the engine in the result. -/
structure Traced.Follows {α : Type} (x : Traced α) (y : Except Fault α) (n : Nat) (l : Lru)
    (k : Nat) (engine : α → Lru) : Prop where
  result_eq : x.result = y
  path : ∃ i l', Path n l x.moments i l' ∧ ∀ a, y = .ok a → i = k ∧ l' = engine a

variable {l l₁ l' : Lru} {m n k i g : Nat} {ms ns : List Lru}

lemma Rests.refl (l : Lru) : Rests l l := ⟨rfl, rfl, fun _ _ he => he⟩

lemma rests_modifyGeneration (g : Nat) {f : Generation → Generation}
    (hf : ∀ gen, (f gen).frames = gen.frames) : Rests l (l.modifyGeneration g f) :=
  ⟨arena_modifyGeneration_of_frames_eq g hf, size_modifyGeneration g f, fun _ _ he => he⟩

lemma rests_drop (id : FrameId) : Rests l (l.drop id) := by
  refine ⟨rfl, rfl, fun k e he => ?_⟩
  change (l.table.erase id)[k]? = some e at he
  rw [Std.ExtTreeMap.getElem?_erase] at he
  split_ifs at he
  exact he

lemma rests_touch (id : FrameId) : Rests l (l.touch id) := by
  rw [touch]
  split
  · exact rests_modifyGeneration _ fun _ => rfl
  · exact .refl l

namespace Path

lemma trans (h : Path n l ms k l₁) (h' : Path k l₁ ns i l') : Path n l (ms ++ ns) i l' := by
  induction h with
  | nil => exact h'
  | rest hr hm _ ih => exact .rest hr hm (ih h')
  | unlink hu _ ih => exact .unlink hu (ih h')
  | place hp _ ih => exact .place hp (ih h')

lemma add (h : Path n l ms k l') (j : Nat) : Path (n + j) l ms (k + j) l' := by
  induction h with
  | nil => exact .nil
  | rest hr hm _ ih => exact .rest hr (Nat.add_le_add_right hm j) ih
  | unlink hu _ ih => exact .unlink hu (Nat.add_right_comm _ _ j ▸ ih)
  | place hp _ ih => exact Nat.add_right_comm _ _ j ▸ .place hp ih

end Path

namespace Traced

variable {α β : Type} {x : Traced α} {y : Except Fault α} {engine : α → Lru}

namespace Follows

lemma of_rests {a : α} (hr : Rests l (engine a)) (hk : k ≤ n) :
    Follows (pure a) (.ok a) n l k engine :=
  ⟨rfl, k, engine a, .rest hr hk .nil, fun _ he => ⟨rfl, congrArg engine (Except.ok.inj he)⟩⟩

lemma fail (f : Fault) : Follows (fail f) (.error f) n l k engine :=
  ⟨rfl, n, l, .nil, fun _ he => by cases he⟩

lemma lift (y : Except Fault α) : Follows (liftM y) y n l n fun _ => l :=
  ⟨rfl, n, l, .nil, fun _ _ => ⟨rfl, rfl⟩⟩

lemma rest (hr : Rests l l₁) (h : Follows x y n l₁ k engine) : Follows x y n l k engine := by
  obtain ⟨he, i, l', hp, hend⟩ := h
  exact ⟨he, i, l', .rest hr le_rfl hp, hend⟩

lemma unlink (g : Nat) (p : Position) :
    Follows (note (l.unlink g p)) (l.unlink g p) n l (n + 1) fun l => l := by
  refine ⟨rfl, ?_⟩
  cases hu : l.unlink g p with
  | ok l' => exact ⟨n + 1, l', .unlink hu .nil, fun _ he => ⟨rfl, Except.ok.inj he⟩⟩
  | error f => exact ⟨n, l, .nil, fun _ he => by cases he⟩

lemma place (id' : FrameId) (g : Nat) :
    Follows (note (l.place id' g)) (l.place id' g) (n + 1) l n fun l => l := by
  refine ⟨rfl, ?_⟩
  cases hp : l.place id' g with
  | ok l' => exact ⟨n, l', .place hp .nil, fun _ he => ⟨rfl, Except.ok.inj he⟩⟩
  | error f => exact ⟨n + 1, l, .nil, fun _ he => by cases he⟩

lemma bind {f : α → Traced β} {f' : α → Except Fault β} {engine' : β → Lru}
    (hx : Follows x y n l k engine)
    (hf : ∀ a, y = .ok a → Follows (f a) (f' a) k (engine a) i engine') :
    Follows (x >>= f) (y >>= f') n l i engine' := by
  rcases x with ⟨result, ms⟩
  obtain ⟨rfl : result = y, j, l₁, hp, hend⟩ := hx
  cases result with
  | error e => exact ⟨rfl, j, l₁, hp, fun _ he => by cases he⟩
  | ok a =>
    obtain ⟨rfl, rfl⟩ := hend a rfl
    obtain ⟨hr, i', l', hp', hend'⟩ := hf a rfl
    exact ⟨hr, i', l', hp.trans hp', hend'⟩

lemma add (h : Follows x y n l k engine) (j : Nat) : Follows x y (n + j) l (k + j) engine := by
  obtain ⟨hr, i, l', hp, hend⟩ := h
  refine ⟨hr, i + j, l', hp.add j, fun a ha => ?_⟩
  obtain ⟨rfl, hl⟩ := hend a ha
  exact ⟨rfl, hl⟩

lemma foldlM {γ : Type} {f : β → γ → Traced β} {f' : β → γ → Except Fault β} {engine : β → Lru}
    (hf : ∀ b c, Follows (f b c) (f' b c) n (engine b) n engine) (cs : List γ) (b : β) :
    Follows (cs.foldlM f b) (cs.foldlM f' b) n (engine b) n engine := by
  induction cs generalizing b with
  | nil => exact .of_rests (.refl _) le_rfl
  | cons c cs ih =>
    rw [List.foldlM_cons, List.foldlM_cons]
    exact (hf b c).bind fun b _ => ih b

end Follows

lemma follows_moveOlder (index : Nat) (l : Lru) (id : FrameId) :
    Follows (moveOlder index l id) (l.moveOlder index id) 0 l 0 fun l => l := by
  rw [moveOlder, Lru.moveOlder]
  cases l.entry? id with
  | none => exact .fail _
  | some e => exact (Follows.unlink index e.position).bind fun _ _ => .place id (index + 1)

lemma follows_shift (l : Lru) (index : Nat) :
    Follows (shift l index) (l.shift index) 0 l 0 fun l => l := by
  apply (Follows.lift _).bind
  intro gen _
  apply (Follows.foldlM (follows_moveOlder index) _ l).bind
  exact fun _ _ => .of_rests (rests_modifyGeneration index fun _ => rfl) le_rfl

lemma follows_shiftBelow (n : Nat) (l : Lru) :
    Follows (shiftBelow n l) (Lru.shiftBelow n l) 0 l 0 fun l => l := by
  induction n generalizing l with
  | zero => exact .of_rests (.refl l) le_rfl
  | succ n ih => exact (follows_shift l n).bind fun l _ => ih l

lemma follows_age (l : Lru) : Follows (age l) l.age 0 l 0 fun l => l := by
  apply (follows_shiftBelow l.oldest l).bind
  intro l₁ _
  apply (Follows.lift _).bind
  intro _ _
  have hw : Rests l₁ (l₁.modifyGeneration l.oldest Generation.wipe) :=
    rests_modifyGeneration l.oldest fun _ => rfl
  exact .of_rests ⟨hw.arena_eq, hw.size_eq, hw.entry_of⟩ le_rfl

lemma follows_promote (l : Lru) (e : Entry) :
    Follows (promote l e) (l.promote e) 0 l 0 fun l => l := by
  rw [promote, Lru.promote]
  split_ifs
  · exact .of_rests (.refl l) le_rfl
  · apply (Follows.unlink e.generation e.position).bind
    intro l₁ _
    apply (Follows.place e.id (e.generation - 1)).bind
    intro l₂ _
    apply (Follows.lift _).bind
    exact fun _ _ => .of_rests (.refl l₂) le_rfl

lemma follows_examine (oldest : Nat) (r : Lru × Scan) (id : FrameId) :
    Follows (examine oldest r id) (Lru.examine oldest r id) 0 r.1 0 Prod.fst := by
  obtain ⟨l, s⟩ := r
  rw [examine, Lru.examine]
  cases l.entry? id with
  | none => exact .fail _
  | some e =>
    simp only
    split_ifs
    · exact .fail _
    · apply (Follows.lift _).bind
      intro gen _
      split_ifs
      · have hu : Rests l (l.modifyGeneration oldest (·.unmark id)) :=
          rests_modifyGeneration oldest fun _ => rfl
        exact ((follows_promote _ e).rest hu).bind fun l₁ _ => .of_rests (.refl l₁) le_rfl
      · apply (Follows.unlink oldest e.position).bind
        exact fun l₁ _ => .of_rests (rests_drop id) (Nat.zero_le _)

lemma follows_sweep (l : Lru) (budget : Nat) :
    Follows (sweep l budget) (l.sweep budget) 0 l 0 Prod.snd := by
  apply (Follows.lift _).bind
  intro gen _
  apply (Follows.foldlM (follows_examine l.oldest) _ (l, {})).bind
  exact fun r _ => .of_rests ⟨rfl, rfl, fun _ _ he => he⟩ le_rfl

lemma follows_refill (l : Lru) (budget : Nat) :
    Follows (refill l budget) (l.refill budget) 0 l 0 Prod.snd := by
  apply (Follows.lift _).bind
  intro gen _
  split_ifs
  · exact (follows_age l).bind fun l₁ _ => .of_rests (.refl l₁) le_rfl
  · exact .of_rests (.refl l) le_rfl

lemma follows_scan (l : Lru) (budget : Nat) :
    Follows (scan l budget) (l.scan budget) 0 l 0 Prod.snd := by
  apply (Follows.lift _).bind
  intro gen _
  split_ifs
  · exact (follows_age l).bind fun l₁ _ => .of_rests (.refl l₁) le_rfl
  · apply (follows_sweep l budget).bind
    intro r _
    apply (follows_refill r.2 budget).bind
    intro r' _
    apply (Follows.lift _).bind
    exact fun _ _ => .of_rests (.refl r'.2) le_rfl

lemma follows_insert (l : Lru) (id : FrameId) :
    Follows (insert l id) (l.insert id) 1 l 0 fun l => l := by
  rw [insert, Lru.insert]
  split_ifs
  · exact .fail _
  · apply (Follows.place id 0).bind
    intro l₁ _
    apply (Follows.lift _).bind
    exact fun _ _ => .of_rests (.refl l₁) le_rfl

lemma follows_retire (l : Lru) (e : Entry) :
    Follows (retire l e) (l.retire e) 0 l 0 fun l => l := by
  rw [retire, Lru.retire]
  split_ifs
  · apply (Follows.unlink e.generation e.position).bind
    intro l₁ _
    apply ((Follows.lift _).rest (rests_drop e.id)).bind
    exact fun _ _ => .of_rests (.refl _) (Nat.zero_le _)
  · exact .of_rests (.refl l) le_rfl

lemma follows_remove (l : Lru) (id : FrameId) :
    Follows (remove l id) (l.remove id) 0 l 0 Prod.snd := by
  rw [remove, Lru.remove]
  cases l.entry? id with
  | none => exact .of_rests (.refl l) le_rfl
  | some e => exact (follows_retire l e).bind fun l₁ _ => .of_rests (.refl l₁) le_rfl

def arrivals : Op → Nat
  | .insert _ => 1
  | _ => 0

lemma follows_step (l : Lru) (op : Op) :
    Follows (step l op) (l.step op) (arrivals op) l 0 Prod.snd := by
  cases op with
  | insert id => exact (follows_insert l id).bind fun l₁ _ => .of_rests (.refl l₁) le_rfl
  | touch id => exact .of_rests (rests_touch id) le_rfl
  | scan budget => exact (follows_scan l budget).bind fun r _ => .of_rests (.refl r.2) le_rfl
  | age => exact (follows_age l).bind fun l₁ _ => .of_rests (.refl l₁) le_rfl
  | remove id => exact (follows_remove l id).bind fun r _ => .of_rests (.refl r.2) le_rfl
  | retire e => exact (follows_retire l e).bind fun l₁ _ => .of_rests (.refl l₁) le_rfl

lemma moments_bind {f : α → Traced β} {a : α} (hx : x.result = .ok a) :
    (x >>= f).moments = x.moments ++ (f a).moments := by
  rcases x with ⟨_, ms⟩
  obtain rfl := hx
  rfl

lemma moments_bind_pure (x : Traced α) (f : α → β) :
    (x >>= fun a => pure (f a)).moments = x.moments := by
  rcases x with ⟨_ | a, ms⟩
  · rfl
  · exact List.append_nil ms

lemma moments_run_cons {op : Op} {ops : List Op} {out : Outcome} (hs : l.step op = .ok (out, l₁)) :
    (run (op :: ops) l).moments = (step l op).moments ++ (run ops l₁).moments := by
  rw [run, moments_bind ((follows_step l op).result_eq.trans hs)]
  exact congrArg _ (moments_bind_pure (run ops l₁) _)

lemma follows_run (ops : List Op) (l : Lru) :
    Follows (run ops l) (Lru.run ops l) (ops.map arrivals).sum l 0 Prod.snd := by
  induction ops generalizing l with
  | nil => exact .of_rests (.refl l) le_rfl
  | cons op ops ih =>
    have hs := (follows_step l op).add (ops.map arrivals).sum
    rw [Nat.zero_add] at hs
    rw [List.map_cons, List.sum_cons]
    apply hs.bind
    intro r _
    exact (ih r.2).bind fun r' _ => .of_rests (.refl r'.2) le_rfl

end Traced

end Lru

end FramePool
