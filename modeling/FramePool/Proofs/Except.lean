import Mathlib.Tactic.Common

/-! Operations that may fail: when a sequence of them succeeds, and what holds of the result. -/

namespace FramePool

variable {ε α β : Type}

@[simp] lemma ok_bind (a : α) (f : α → Except ε β) : (.ok a >>= f) = f a := rfl

@[simp] lemma error_bind (e : ε) (f : α → Except ε β) : (.error e >>= f) = .error e := rfl

@[simp] lemma pure_eq_ok (a : α) : (pure a : Except ε α) = .ok a := rfl

@[simp] lemma throw_bind (e : ε) (f : α → Except ε β) : (throw e >>= f) = .error e := rfl

lemma bind_eq_ok {x : Except ε α} {f : α → Except ε β} {b : β} :
    (x >>= f) = .ok b ↔ ∃ a, x = .ok a ∧ f a = .ok b := by
  cases x with
  | error e => simp [bind, Except.bind]
  | ok a => simp

lemma mapM_eq_ok {f : α → Except ε β} {g : α → β} (xs : List α) (h : ∀ x, f x = .ok (g x)) :
    xs.mapM f = .ok (xs.map g) := by
  induction xs with
  | nil => rfl
  | cons x xs ih => simp [List.mapM_cons, h, ih]

/-- What holds of the result, and what a failure shows. -/
def Meets (x : Except ε α) (good : α → Prop) (excuse : Prop) : Prop :=
  match x with
  | .ok a => good a
  | .error _ => excuse

namespace Meets

variable {x : Except ε α} {f : α → Except ε β} {good good' : α → Prop} {next : β → Prop}
  {excuse excuse' : Prop} {a : α}

lemma bind (hx : Meets x good excuse) (hf : ∀ a, good a → Meets (f a) next excuse) :
    Meets (x >>= f) next excuse := by
  cases x with
  | error e => exact hx
  | ok a => exact hf a hx

lemma mono (hx : Meets x good excuse) (hg : ∀ a, good a → good' a) (he : excuse → excuse') :
    Meets x good' excuse' := by
  cases x with
  | error e => exact he hx
  | ok a => exact hg a hx

lemma of_eq_ok (hx : Meets x good excuse) (ha : x = .ok a) : good a := by
  rw [ha] at hx
  exact hx

lemma exists_ok (hx : Meets x good excuse) (he : ¬excuse) : ∃ a, x = .ok a ∧ good a := by
  cases x with
  | error e => exact (he hx).elim
  | ok a => exact ⟨a, rfl, hx⟩

end Meets

end FramePool
