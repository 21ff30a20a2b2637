/-! First in, first out queues on two lists. -/

namespace FramePool

structure Queue (α : Type) where
  front : List α
  back : List α
  size : Nat
  size_eq : size = front.length + back.length

namespace Queue

variable {α : Type}

def toList (q : Queue α) : List α := q.front ++ q.back.reverse

def ofList (xs : List α) : Queue α := ⟨xs, [], xs.length, rfl⟩

def empty : Queue α := ofList []

def isEmpty (q : Queue α) : Bool := q.size == 0

def push (q : Queue α) (a : α) : Queue α :=
  match q with
  | ⟨front, back, size, h⟩ => ⟨front, a :: back, size + 1, by simp [h]; omega⟩

def pop? (q : Queue α) : Option (α × Queue α) :=
  match q with
  | ⟨a :: front, back, size, h⟩ => some (a, ⟨front, back, size - 1, by simp at h; omega⟩)
  | ⟨[], back, size, h⟩ =>
      match hr : back.reverse with
      | [] => none
      | a :: front =>
          some (a, ⟨front, [], size - 1, by
            have hl := congrArg List.length hr
            simp at h hl ⊢
            omega⟩)

def filter (p : α → Bool) (q : Queue α) : Queue α := ofList (q.toList.filter p)

@[simp] theorem toList_ofList (xs : List α) : (ofList xs).toList = xs := by
  simp [ofList, toList]

@[simp] theorem toList_empty : (empty : Queue α).toList = [] := toList_ofList []

@[simp] theorem length_toList (q : Queue α) : q.toList.length = q.size := by
  simp [toList, q.size_eq]

@[simp] theorem toList_push (q : Queue α) (a : α) : (q.push a).toList = q.toList ++ [a] := by
  simp [push, toList]

@[simp] theorem toList_filter (p : α → Bool) (q : Queue α) :
    (q.filter p).toList = q.toList.filter p := toList_ofList _

theorem pop?_eq_none {q : Queue α} (h : q.pop? = none) : q.toList = [] := by
  obtain ⟨front, back, size, hs⟩ := q
  cases front with
  | cons a front => simp [pop?] at h
  | nil =>
    simp only [pop?] at h
    split at h
    · rename_i hr
      simp [toList, hr]
    · simp at h

theorem toList_of_pop? {q r : Queue α} {a : α} (h : q.pop? = some (a, r)) :
    q.toList = a :: r.toList := by
  obtain ⟨front, back, size, hs⟩ := q
  cases front with
  | cons b front =>
    simp only [pop?, Option.some.injEq, Prod.mk.injEq] at h
    obtain ⟨rfl, rfl⟩ := h
    simp [toList]
  | nil =>
    simp only [pop?] at h
    split at h
    · simp at h
    · rename_i b rest hr
      simp only [Option.some.injEq, Prod.mk.injEq] at h
      obtain ⟨rfl, rfl⟩ := h
      simp [toList, hr]

end Queue

end FramePool
