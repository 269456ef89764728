/-
# Objects numbered in the order of their creation

A routine goes through a list and creates one object for each element that it accepts,
numbering them from `lo` on.  `MadeFor lo made n x` says that object `n` was created for
`x`, when `made` are the elements accepted so far.
-/
import Mathlib.Data.List.Forall2

namespace Creation

variable {α : Type} {lo : ℕ} {made : List α}

/-- Object `n` was created for `x`. -/
def MadeFor (lo : ℕ) (made : List α) (n : ℕ) (x : α) : Prop :=
  lo ≤ n ∧ made[n - lo]? = some x

theorem MadeFor.mem {n : ℕ} {x : α} (h : MadeFor lo made n x) : x ∈ made :=
  List.mem_of_getElem? h.2

theorem MadeFor.lt {n : ℕ} {x : α} (h : MadeFor lo made n x) : n < lo + made.length := by
  have hlt := (List.getElem?_eq_some_iff.mp h.2).1
  have hle := h.1
  omega

theorem MadeFor.unique {n : ℕ} {x y : α} (h : MadeFor lo made n x) (h' : MadeFor lo made n y) :
    x = y :=
  Option.some.inj (h.2.symm.trans h'.2)

theorem MadeFor.map {β : Type} (f : α → β) {n : ℕ} {x : α} (h : MadeFor lo made n x) :
    MadeFor lo (made.map f) n (f x) :=
  ⟨h.1, by rw [List.getElem?_map, h.2]; rfl⟩

theorem MadeFor.of_mem (lo : ℕ) {x : α} (h : x ∈ made) : ∃ n, MadeFor lo made n x := by
  obtain ⟨i, hi, rfl⟩ := List.mem_iff_getElem.mp h
  refine ⟨lo + i, Nat.le_add_right _ _, ?_⟩
  rw [Nat.add_sub_cancel_left]
  exact List.getElem?_eq_getElem hi

theorem not_madeFor_nil {n : ℕ} {x : α} : ¬ MadeFor lo [] n x :=
  fun h => by cases h.mem

theorem exists_madeFor {n : ℕ} (hlo : lo ≤ n) (hlt : n < lo + made.length) :
    ∃ x, MadeFor lo made n x := by
  have hi : n - lo < made.length := by omega
  exact ⟨made[n - lo], hlo, List.getElem?_eq_getElem hi⟩

/-- One more element is accepted. -/
theorem madeFor_concat {n : ℕ} {x y : α} :
    MadeFor lo (made ++ [y]) n x ↔ MadeFor lo made n x ∨ n = lo + made.length ∧ x = y := by
  constructor
  · rintro ⟨hlo, hget⟩
    rcases Nat.lt_or_ge (n - lo) made.length with hi | hi
    · rw [List.getElem?_append_left hi] at hget
      exact Or.inl ⟨hlo, hget⟩
    · rw [List.getElem?_append_right hi] at hget
      have hlt := (List.getElem?_eq_some_iff.mp hget).1
      have hzero : n - lo - made.length = 0 := by
        rw [List.length_singleton] at hlt
        omega
      rw [hzero] at hget
      exact Or.inr ⟨by omega, (Option.some.inj hget).symm⟩
  · rintro (h | ⟨rfl, rfl⟩)
    · have hlt := (List.getElem?_eq_some_iff.mp h.2).1
      exact ⟨h.1, by rw [List.getElem?_append_left hlt]; exact h.2⟩
    · refine ⟨Nat.le_add_right _ _, ?_⟩
      rw [Nat.add_sub_cancel_left, List.getElem?_append_right (Nat.le_refl _), Nat.sub_self]
      rfl

theorem mem_zipIdx_iff_madeFor {n : ℕ} {x : α} : (x, n) ∈ made.zipIdx lo ↔ MadeFor lo made n x :=
  List.mk_mem_zipIdx_iff_le_and_getElem?_sub

/-- What holds of every object and the element it was created for, in order. -/
theorem forall₂_range'_iff {R : α → ℕ → Prop} :
    List.Forall₂ R made (List.range' lo made.length) ↔ ∀ n x, MadeFor lo made n x → R x n := by
  rw [List.forall₂_iff_get]
  simp only [List.length_range', List.get_eq_getElem, List.getElem_range', true_and]
  constructor
  · rintro h n x ⟨hlo, hget⟩
    obtain ⟨hi, rfl⟩ := List.getElem?_eq_some_iff.mp hget
    have hn := h (n - lo) hi hi
    rwa [show lo + 1 * (n - lo) = n by omega] at hn
  · intro h i hi _
    rw [Nat.one_mul]
    refine h (lo + i) _ ⟨Nat.le_add_right _ _, ?_⟩
    rw [Nat.add_sub_cancel_left]
    exact List.getElem?_eq_getElem hi

end Creation
