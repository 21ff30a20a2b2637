import FramePool.Bench.HotCold
import FramePool.Proofs.Bench.Warmup
import FramePool.Random.Xoshiro128

/-! The hot set keeps its size under every load, and the cold frames fit beside it. Hence the loop that
lets go of cold frames ends. -/

namespace FramePool

open Pool

namespace HotCold

inductive Act where
  | draw
  | hot
  | cold
  | reclaim
deriving DecidableEq

structure Kept {σ ρ : Type} (capacity hotFrames iterations : Nat) (b : HotCold σ ρ) : Prop where
  whole : b.pool.Whole
  pool_capacity : b.pool.settings.capacity = capacity
  capacity_eq : b.capacity = capacity
  iterations_eq : b.iterations = iterations
  hot_size : b.hot.size = hotFrames
  hot_lt : ∀ id ∈ b.hot, id < capacity
  cold_lt : ∀ id ∈ b.cold.toList, id < capacity
  size_le : b.hot.size + b.cold.size ≤ capacity

def touches (as : List Act) : Nat := as.count .hot + as.count .cold

lemma touches_append (as later : List Act) : touches (as ++ later) = touches as + touches later := by
  simp only [touches, List.count_append]
  omega

variable {σ ρ : Type} {b b' : HotCold σ ρ} {p q : Pool σ} {capacity hot hotFrames iterations : Nat}
  {as later : List Act}

lemma letGo_ends (h : p.Whole) (hc : hot ≤ capacity) (cold : Queue FrameId) :
    ∃ cold' q, (∀ n, cold.size ≤ n → letGo capacity hot n cold p = .ok (cold', q)) ∧ q.Whole ∧
      q.settings = p.settings ∧ cold'.toList <:+ cold.toList ∧ hot + cold'.size ≤ capacity := by
  generalize hk : cold.size = k
  induction k generalizing cold p with
  | zero =>
    refine ⟨cold, p, fun n _ => ?_, h, rfl, List.suffix_rfl, by omega⟩
    cases n <;> simp [letGo, hk, hc]
  | succ k ih =>
    by_cases hlt : capacity < hot + cold.size
    · cases hp : cold.pop? with
      | none =>
        have hnil := congrArg List.length (Queue.pop?_eq_none hp)
        simp [hk] at hnil
      | some popped =>
        obtain ⟨id, rest⟩ := popped
        have hrest := Queue.toList_of_pop? hp
        have hsize : rest.size = k := by simpa [hk, eq_comm] using congrArg List.length hrest
        obtain ⟨p₁, hr, h₁, hs⟩ := h.release id
        obtain ⟨cold', q, hq, hw, hs', hsuf, hle⟩ := ih h₁ rest hsize
        refine ⟨cold', q, fun n hn => ?_, hw, hs'.trans hs, ?_, hle⟩
        · obtain ⟨m, rfl⟩ := Nat.exists_eq_succ_of_ne_zero (Nat.ne_of_gt (by omega : 0 < n))
          simp [letGo, hlt, hp, hr, hq m (by omega)]
        · rw [hrest]
          exact hsuf.trans (List.suffix_cons id _)
    · refine ⟨cold, p, fun n hn => ?_, h, rfl, List.suffix_rfl, by omega⟩
      cases n <;> simp [letGo, hlt]

namespace Kept

lemma of_pool (h : Kept capacity hotFrames iterations b) (hq : q.Whole)
    (hs : q.settings = b.pool.settings) (source : ρ) :
    Kept capacity hotFrames iterations { b with pool := q, source } :=
  ⟨hq, hs ▸ h.pool_capacity, h.capacity_eq, h.iterations_eq, h.hot_size, h.hot_lt, h.cold_lt, h.size_le⟩

lemma replace (h : Kept capacity hotFrames iterations b) {id : FrameId} (hid : id < capacity) (i : Nat) :
    Kept capacity hotFrames iterations { b with hot := b.hot.modify i fun _ => id } := by
  refine ⟨h.whole, h.pool_capacity, h.capacity_eq, h.iterations_eq, ?_, fun k hk => ?_, h.cold_lt, ?_⟩
  · simpa using h.hot_size
  · obtain ⟨j, hj⟩ := Array.getElem?_of_mem hk
    rw [Array.getElem?_modify] at hj
    split_ifs at hj
    · obtain ⟨_, _, rfl⟩ := Option.map_eq_some_iff.mp hj
      exact hid
    · exact h.hot_lt k (Array.mem_of_getElem? hj)
  · simpa using h.size_le

end Kept

variable [Pacer σ] [RandomSource ρ]

def act (b : HotCold σ ρ) : Act → Except Fault (HotCold σ ρ)
  | .draw => .ok { b with source := (RandomSource.next b.source).2 }
  | .hot => b.touchHot
  | .cold => b.touchCold
  | .reclaim => do
      let (_, pool) ← b.pool.proactive
      return { b with pool }

def acts (b : HotCold σ ρ) (as : List Act) : Except Fault (HotCold σ ρ) := as.foldlM act b

@[simp] lemma acts_nil : b.acts [] = .ok b := rfl

lemma acts_cons (a : Act) : b.acts (a :: as) = (b.act a >>= fun b => b.acts as) := List.foldlM_cons ..

lemma acts_append (h : b.acts as = .ok b') : b.acts (as ++ later) = b'.acts later := by
  rw [acts, List.foldlM_append]
  change (b.acts as >>= _) = _
  rw [h]
  rfl

namespace Kept

lemma touchHot (h : Kept capacity hotFrames iterations b) (hpos : 0 < hotFrames) :
    ∃ b', b.touchHot = .ok b' ∧ Kept capacity hotFrames iterations b' := by
  obtain ⟨⟨r, source⟩, hr⟩ : ∃ drawn, RandomSource.next b.source = drawn := ⟨_, rfl⟩
  have hsize : 0 < b.hot.size := h.hot_size ▸ hpos
  have hempty : b.hot.isEmpty = false := by simpa [← Array.size_eq_zero_iff] using hsize.ne'
  obtain ⟨id, hid⟩ : ∃ id, b.hot[r.toNat % b.hot.size]? = some id :=
    ⟨_, Array.getElem?_eq_getElem (Nat.mod_lt _ hsize)⟩
  obtain ⟨hw, hs⟩ := h.whole.access id
  obtain ⟨new, p, hp, hw', hs'⟩ := hw.allocate
  simp only [HotCold.touchHot, hr, hempty, Bool.false_eq_true, if_false, hid, hp, pure_eq_ok, ok_bind]
  split_ifs
  · exact ⟨_, rfl, h.of_pool hw hs source⟩
  · have hk := h.of_pool hw' (hs'.trans hs) source
    cases new with
    | none => exact ⟨_, rfl, hk⟩
    | some new =>
      refine ⟨_, rfl, hk.replace ?_ _⟩
      rw [← h.pool_capacity, ← hs]
      exact hw.lt_of_allocate hp

omit [RandomSource ρ] in
lemma addCold (h : Kept capacity hotFrames iterations b) :
    ∃ p cold, b.addCold = .ok { b with pool := p, cold } ∧ p.Whole ∧ p.settings = b.pool.settings ∧
      ∀ id ∈ cold.toList, id < capacity := by
  obtain ⟨id, p, hp, hw, hs⟩ := h.whole.allocate
  cases id with
  | none => exact ⟨p, b.cold, by simp [HotCold.addCold, hp], hw, hs, h.cold_lt⟩
  | some id =>
    obtain ⟨hw', hs'⟩ := hw.access id
    refine ⟨p.access id, b.cold.push id, by simp [HotCold.addCold, hp], hw', hs'.trans hs, ?_⟩
    intro k hk
    rw [Queue.toList_push, List.mem_append, List.mem_singleton] at hk
    obtain hk | rfl := hk
    · exact h.cold_lt k hk
    · exact h.pool_capacity ▸ h.whole.lt_of_allocate hp

omit [RandomSource ρ] in
lemma touchCold (h : Kept capacity hotFrames iterations b) :
    ∃ b', b.touchCold = .ok b' ∧ Kept capacity hotFrames iterations b' := by
  obtain ⟨p, cold, hp, hw, hs, hlt⟩ := h.addCold
  have hc : b.hot.size ≤ b.capacity := by
    have := h.size_le
    have := h.capacity_eq
    omega
  obtain ⟨cold', q, hgo, hw', hs', hsuf, hle⟩ := letGo_ends hw hc cold
  refine ⟨{ b with pool := q, cold := cold' }, by simp [HotCold.touchCold, hp, hgo], ?_⟩
  exact ⟨hw', by rw [hs', hs, h.pool_capacity], h.capacity_eq, h.iterations_eq, h.hot_size, h.hot_lt,
    fun id hid => hlt id (hsuf.subset hid), h.capacity_eq ▸ hle⟩

lemma act (h : Kept capacity hotFrames iterations b) (hpos : 0 < hotFrames) (a : Act) :
    ∃ b', b.act a = .ok b' ∧ Kept capacity hotFrames iterations b' := by
  cases a with
  | draw => exact ⟨_, rfl, h.of_pool h.whole rfl _⟩
  | hot => exact h.touchHot hpos
  | cold => exact h.touchCold
  | reclaim =>
    obtain ⟨s, q, hq, hw, hpq⟩ := h.whole.pass (Pacer.pace b.pool.pacer) .requested
    refine ⟨{ b with pool := q }, ?_, h.of_pool hw hpq.settings_eq b.source⟩
    simp [HotCold.act, proactive, reclaim, hq]

lemma acts (h : Kept capacity hotFrames iterations b) (hpos : 0 < hotFrames) (as : List Act) :
    ∃ b', b.acts as = .ok b' ∧ Kept capacity hotFrames iterations b' := by
  induction as generalizing b with
  | nil => exact ⟨b, rfl, h⟩
  | cons a as ih =>
    obtain ⟨b₁, h₁, hk₁⟩ := h.act hpos a
    obtain ⟨b', h', hk'⟩ := ih hk₁
    exact ⟨b', by rw [acts_cons, h₁, ok_bind, h'], hk'⟩

end Kept

lemma round_eq_acts (b : HotCold σ ρ) (i : Nat) :
    ∃ as, b.round i = b.acts as ∧ touches as = 1 := by
  let touch : Act :=
    if (RandomSource.next b.source).1.toNat % 100 < hotPercent then .hot else .cold
  refine ⟨.draw :: touch :: if i % proactiveInterval = 0 then [.reclaim] else [], ?_, ?_⟩
  · simp only [round, acts_cons, act, ok_bind, touch]
    split_ifs <;> simp [acts_cons, act]
  · simp only [touch]
    split_ifs <;> rfl

lemma Kept.rounds (h : Kept capacity hotFrames iterations b) (hpos : 0 < hotFrames) (is : List Nat) :
    ∃ as b', is.foldlM round b = .ok b' ∧ b.acts as = .ok b' ∧ touches as = is.length ∧
      Kept capacity hotFrames iterations b' := by
  induction is generalizing b with
  | nil => exact ⟨[], b, rfl, rfl, rfl, h⟩
  | cons i is ih =>
    obtain ⟨as, hr, ht⟩ := b.round_eq_acts i
    obtain ⟨b₁, h₁, hk₁⟩ := h.acts hpos as
    obtain ⟨later, b', hr', h', ht', hk'⟩ := ih hk₁
    refine ⟨as ++ later, b', ?_, by rw [acts_append h₁, h'], ?_, hk'⟩
    · rw [List.foldlM_cons, hr, h₁, ok_bind, hr']
    · rw [touches_append, ht, ht', List.length_cons, Nat.add_comm]

lemma Kept.executions [PacerLabel σ] (h : Kept capacity hotFrames iterations b) (hpos : 0 < hotFrames)
    (n : Nat) (timer : Timer) (readings : Array UInt32) :
    ∃ readings' b' timer' as, Benchmark.executions n b timer readings = .ok (readings', b', timer') ∧
      b.acts as = .ok b' ∧ touches as = n * iterations := by
  induction n generalizing b timer readings with
  | zero => exact ⟨readings, b, timer, [], rfl, rfl, by simp [touches]⟩
  | succ n ih =>
    obtain ⟨as, b₁, hr, h₁, ht, hk₁⟩ := h.rounds hpos (List.range b.iterations)
    obtain ⟨readings', b', timer', later, he, h', ht'⟩ := ih hk₁ timer.stop.2 (readings.push timer.stop.1)
    refine ⟨readings', b', timer', as ++ later, ?_, by rw [acts_append h₁, h'], ?_⟩
    · have hb : b.execute timer = .ok (timer.stop.1, b₁, timer.stop.2) := by simp [execute, hr]
      rw [Benchmark.executions]
      change (b.execute timer >>= _) = _
      rw [hb, ok_bind]
      exact he
    · rw [touches_append, ht, ht', List.length_range, h.iterations_eq, Nat.succ_mul, Nat.add_comm]

omit [RandomSource ρ] in
lemma create_kept (pacer : σ) (source : ρ) {capacity : UInt64} (hpos : 0 < hotFrames)
    (hlt : hotFrames < capacity.toNat) (hn : capacity.toNat < Arena.slotLimit) (iterations : Nat) :
    ∃ start, create capacity hotFrames iterations pacer source = .ok start ∧
      Kept capacity.toNat hotFrames iterations start := by
  have hgen : 0 < generations.toNat := by decide
  have hquiet := Benchmark.quietPool_eq pacer (by omega) hgen hn (by decide)
  let c : Config := { capacity, generations, background := false }
  have hw : (fresh c pacer c.window).Whole := fresh_whole hgen hn
  have hsize : hotFrames ≤ (fresh c pacer c.window).free.size := by
    have hfree : (fresh c pacer c.window).free.size = capacity.toNat := List.length_range
    omega
  obtain ⟨all, p, hp, hw', hs, hall, hids⟩ := hw.collect hsize #[] (by simp)
  refine ⟨⟨p, capacity.toNat, all, Queue.empty, iterations, source⟩, ?_, ?_⟩
  · have hset : ¬(hotFrames = 0 ∨ capacity.toNat ≤ hotFrames) := by omega
    simp only [create, hset, if_false, hquiet, ok_bind, pure_eq_ok, c] at hp ⊢
    rw [hp]
    rfl
  · have hhot : all.size = hotFrames := by simpa using hall
    refine ⟨hw', congrArg Settings.capacity hs, rfl, rfl, hhot, hids, by simp, ?_⟩
    change all.size + 0 ≤ capacity.toNat
    omega

theorem load_keeps_hot_set [PacerLabel σ] (pacer : σ) (source : ρ) {capacity : UInt64}
    (hpos : 0 < hotFrames) (hlt : hotFrames < capacity.toNat) (hn : capacity.toNat < Arena.slotLimit)
    (iterations : Nat) :
    ∃ start, create capacity hotFrames iterations pacer source = .ok start ∧
      (∀ as, ∃ b, start.acts as = .ok b ∧ Kept capacity.toNat hotFrames iterations b ∧
        ∃ b' rest, b.addCold = .ok b' ∧ ∀ n, b'.cold.size ≤ n →
          letGo b'.capacity b'.hot.size n b'.cold b'.pool = .ok rest) ∧
      ∀ n timer readings, ∃ readings' b timer' as,
        Benchmark.executions n start timer readings = .ok (readings', b, timer') ∧
        start.acts as = .ok b ∧ touches as = n * iterations := by
  obtain ⟨start, hc, hk⟩ := create_kept pacer source hpos hlt hn iterations
  refine ⟨start, hc, fun as => ?_, hk.executions hpos⟩
  obtain ⟨b, hb, h⟩ := hk.acts hpos as
  obtain ⟨p, cold, hp, hw, _⟩ := h.addCold
  have hfit : b.hot.size ≤ b.capacity := by
    have := h.size_le
    have := h.capacity_eq
    omega
  obtain ⟨cold', q, hgo, _⟩ := letGo_ends hw hfit cold
  exact ⟨b, hb, h, _, _, hp, hgo⟩

theorem load_keeps_two_hot_frames :
    0 < 2 ∧ 2 < (3 : UInt64).toNat ∧ (3 : UInt64).toNat < Arena.slotLimit ∧
      ∃ start, create 3 2 100 (Steady.ofNat 1) (Xoshiro128.ofSeed [7, 1, 8]) = .ok start ∧
        ∃ b, start.acts [.cold, .cold, .hot, .reclaim, .cold] = .ok b ∧ b.hot.size = 2 ∧ b.cold.size ≤ 1 := by
  have hpos : 0 < 2 := by decide
  have hlt : 2 < (3 : UInt64).toNat := by decide
  have hn : (3 : UInt64).toNat < Arena.slotLimit := by decide
  obtain ⟨start, hc, hacts, _⟩ :=
    load_keeps_hot_set (Steady.ofNat 1) (Xoshiro128.ofSeed [7, 1, 8]) hpos hlt hn 100
  obtain ⟨b, hb, hk, _⟩ := hacts [.cold, .cold, .hot, .reclaim, .cold]
  have hsum : b.hot.size + b.cold.size ≤ 3 := hk.size_le
  have hsize := hk.hot_size
  exact ⟨hpos, hlt, hn, start, hc, b, hb, hsize, by omega⟩

end HotCold

end FramePool
