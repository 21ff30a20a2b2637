import FramePool.Lru.Basic
import FramePool.Proofs.Arena.Reading
import Mathlib.Data.List.Nodup
import Mathlib.Logic.Function.Basic

/-! A table of places that agrees with the cells of the generations, and how it follows them. -/

namespace FramePool

abbrev PlaceTable := Std.ExtTreeMap FrameId Entry

def Mapped (t : PlaceTable) (cells : Nat → List Cell) : Prop :=
  ∀ id e, t[id]? = some e ↔ e.id = id ∧ ⟨e.position, id⟩ ∈ cells e.generation

namespace Mapped

variable {t : PlaceTable} {cells : Nat → List Cell}

lemma getElem?_of_mem (h : Mapped t cells) {g : Nat} {c : Cell} (hc : c ∈ cells g) :
    t[c.id]? = some ⟨c.id, g, c.position⟩ :=
  (h c.id ⟨c.id, g, c.position⟩).mpr ⟨rfl, hc⟩

lemma generation_eq (h : Mapped t cells) {g k : Nat} {c d : Cell} (hc : c ∈ cells g)
    (hd : d ∈ cells k) (he : c.id = d.id) : g = k ∧ c = d := by
  have hm := h.getElem?_of_mem hc
  rw [he, h.getElem?_of_mem hd] at hm
  obtain ⟨_, hg, hp⟩ : d.id = c.id ∧ k = g ∧ d.position = c.position := by simpa [he] using hm
  rcases c with ⟨p, id⟩
  rcases d with ⟨q, id'⟩
  simp_all

lemma erase (h : Mapped t cells) {g : Nat} {xs ys : List Cell} {c : Cell}
    (hn : ((cells g).map Cell.position).Nodup) (hx : cells g = xs ++ c :: ys) :
    Mapped (t.erase c.id) (Function.update cells g (xs ++ ys)) := by
  have hc : c ∈ cells g := by simp [hx]
  have hp : c.position ∉ (xs ++ ys).map Cell.position := by
    rw [hx] at hn
    exact (List.nodup_cons.mp ((List.perm_middle.map Cell.position).nodup_iff.mp hn)).1
  have hsub : ∀ d ∈ xs ++ ys, d ∈ cells g := by
    intro d hd
    rw [hx]
    rcases List.mem_append.mp hd with hd | hd <;> simp [hd]
  intro id e
  by_cases hid : id = c.id
  · subst hid
    simp only [Std.ExtTreeMap.getElem?_erase_self, reduceCtorEq, false_iff, not_and]
    rintro he hm
    by_cases hg : e.generation = g
    · rw [hg, Function.update_self] at hm
      obtain ⟨_, hd⟩ := h.generation_eq hc (hsub _ hm) rfl
      exact hp (List.mem_map.mpr ⟨_, hm, by rw [hd]⟩)
    · rw [Function.update_of_ne hg] at hm
      exact hg (h.generation_eq hc hm rfl).1.symm
  · have hne : c.id ≠ id := Ne.symm hid
    rw [Std.ExtTreeMap.getElem?_erase, if_neg (by simpa using hne), h id e]
    by_cases hg : e.generation = g
    · rw [hg, Function.update_self, hx]
      have hd : (⟨e.position, id⟩ : Cell) ≠ c := fun he => hid (by rw [← he])
      simp [hd]
    · rw [Function.update_of_ne hg]

lemma insert (h : Mapped t cells) {id : FrameId} (hid : t[id]? = none) (g : Nat) (p : Position) :
    Mapped (t.insert id ⟨id, g, p⟩) (Function.update cells g (⟨p, id⟩ :: cells g)) := by
  have hno : ∀ k q, (⟨q, id⟩ : Cell) ∉ cells k := by
    intro k q hm
    simp [h.getElem?_of_mem hm] at hid
  intro id' e
  by_cases hne : id = id'
  · subst hne
    simp only [Std.ExtTreeMap.getElem?_insert_self, Option.some.injEq]
    constructor
    · rintro rfl
      simp
    · rintro ⟨he, hm⟩
      rcases e with ⟨id', k, q⟩
      by_cases hg : k = g
      · subst hg
        simp only [Function.update_self, List.mem_cons] at hm
        rcases hm with hm | hm
        · simp_all
        · exact (hno _ _ hm).elim
      · rw [Function.update_of_ne hg] at hm
        exact (hno _ _ hm).elim
  · rw [Std.ExtTreeMap.getElem?_insert, if_neg (by simpa using hne), h id' e]
    by_cases hg : e.generation = g
    · rw [hg, Function.update_self]
      simp [Ne.symm hne]
    · rw [Function.update_of_ne hg]

lemma insert_erase (t : PlaceTable) (id : FrameId) (e : Entry) :
    (t.erase id).insert id e = t.insert id e := by
  apply Std.ExtTreeMap.ext_getElem?
  intro k
  simp only [Std.ExtTreeMap.getElem?_insert, Std.ExtTreeMap.getElem?_erase]
  split_ifs <;> rfl

lemma move (h : Mapped t cells) {g k : Nat} {xs ys : List Cell} {c : Cell}
    (hn : ((cells g).map Cell.position).Nodup) (hx : cells g = xs ++ c :: ys) (hk : k ≠ g)
    (p : Position) :
    Mapped (t.insert c.id ⟨c.id, k, p⟩)
      (Function.update (Function.update cells g (xs ++ ys)) k (⟨p, c.id⟩ :: cells k)) := by
  have he : (t.erase c.id)[c.id]? = none := by simp
  have hm := (h.erase hn hx).insert he k p
  rwa [insert_erase, Function.update_of_ne hk] at hm

end Mapped

end FramePool
