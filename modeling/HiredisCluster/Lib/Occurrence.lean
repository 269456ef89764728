/-
# First and last occurrences

The elements of a list with a property, at the indices of a range: the one at the largest
index, and the one at the smallest.  What `find?` finds in the end of a list is the first
occurrence in it, and what it finds in the reverse of a beginning is the last one.
-/
import Mathlib.Data.List.Basic
import Mathlib.Data.Nat.Notation

namespace Occurrence

variable {α : Type*}

/-- An element with `p` stands at an index with `I`. -/
def Occurs (p : α → Prop) (I : ℕ → Prop) (l : List α) : Prop :=
  ∃ i a, I i ∧ l[i]? = some a ∧ p a

/-- Of the elements with `p` at an index with `I`, `a` has the largest index. -/
def LastIn (p : α → Prop) (I : ℕ → Prop) (l : List α) (a : α) : Prop :=
  ∃ i, I i ∧ l[i]? = some a ∧ p a ∧ ∀ j b, I j → l[j]? = some b → p b → j ≤ i

/-- Of the elements with `p` at an index with `I`, `a` has the smallest index. -/
def FirstIn (p : α → Prop) (I : ℕ → Prop) (l : List α) (a : α) : Prop :=
  ∃ i, I i ∧ l[i]? = some a ∧ p a ∧ ∀ j b, I j → l[j]? = some b → p b → i ≤ j

variable {p : α → Bool} {l : List α} {a : α} {k : ℕ}

theorem firstIn_of_find? (h : (l.drop k).find? p = some a) :
    FirstIn (fun x => p x = true) (k ≤ ·) l a := by
  obtain ⟨hp, i, hi, rfl, hbefore⟩ := List.find?_eq_some_iff_getElem.mp h
  have hlen : k + i < l.length := by
    rw [List.length_drop] at hi
    omega
  refine ⟨k + i, Nat.le_add_right k i, ?_, hp, fun j b hj hb hpb => ?_⟩
  · rw [List.getElem_drop]
    exact List.getElem?_eq_getElem hlen
  · by_contra hlt
    obtain ⟨hjl, rfl⟩ := List.getElem?_eq_some_iff.mp hb
    have hnot := hbefore (j - k) (by omega)
    have hidx : k + (j - k) = j := by omega
    simp only [List.getElem_drop, hidx, hpb] at hnot
    cases hnot

theorem not_occurs_of_find? (h : (l.drop k).find? p = none) :
    ¬ Occurs (fun x => p x = true) (k ≤ ·) l := by
  rintro ⟨j, b, hj, hb, hp⟩
  have hmem : b ∈ l.drop k := List.mem_iff_getElem?.mpr ⟨j - k, by
    rw [List.getElem?_drop, show k + (j - k) = j by omega]
    exact hb⟩
  exact List.find?_eq_none.mp h b hmem hp

theorem lastIn_of_find? (h : (l.take k).reverse.find? p = some a) :
    LastIn (fun x => p x = true) (· < k) l a := by
  obtain ⟨hp, i, hi, rfl, hbefore⟩ := List.find?_eq_some_iff_getElem.mp h
  rw [List.length_reverse, List.length_take] at hi
  refine ⟨(l.take k).length - 1 - i, ?_, ?_, hp, fun j b hj hb hpb => ?_⟩
  · rw [List.length_take]
    omega
  · rw [List.getElem_reverse, List.getElem_take]
    exact List.getElem?_eq_getElem _
  · by_contra hlt
    obtain ⟨hjl, rfl⟩ := List.getElem?_eq_some_iff.mp hb
    rw [List.length_take] at hlt
    have hnot := hbefore ((l.take k).length - 1 - j) (by rw [List.length_take]; omega)
    have hidx : (l.take k).length - 1 - ((l.take k).length - 1 - j) = j := by
      rw [List.length_take]
      omega
    simp only [List.getElem_reverse, List.getElem_take, hidx, hpb] at hnot
    cases hnot

theorem not_occurs_of_find?_reverse (h : (l.take k).reverse.find? p = none) :
    ¬ Occurs (fun x => p x = true) (· < k) l := by
  rintro ⟨j, b, hj, hb, hp⟩
  have hmem : b ∈ (l.take k).reverse := List.mem_reverse.mpr (List.mem_iff_getElem?.mpr ⟨j, by
    rw [List.getElem?_take_of_lt hj]
    exact hb⟩)
  exact List.find?_eq_none.mp h b hmem hp

theorem Occurs.exists_mem {p : α → Prop} {I : ℕ → Prop} (h : Occurs p I l) : ∃ b ∈ l, p b := by
  obtain ⟨i, b, -, hl, hp⟩ := h
  exact ⟨b, List.mem_of_getElem? hl, hp⟩

/-- Two ranges that cover all indices cover all elements. -/
theorem occurs_or_occurs {p : α → Prop} {I J : ℕ → Prop} (hcover : ∀ i, I i ∨ J i) {b : α}
    (hb : b ∈ l) (hp : p b) : Occurs p I l ∨ Occurs p J l := by
  obtain ⟨i, hi⟩ := List.getElem?_of_mem hb
  rcases hcover i with h | h
  · exact Or.inl ⟨i, b, h, hi, hp⟩
  · exact Or.inr ⟨i, b, h, hi, hp⟩

theorem LastIn.occurs {p : α → Prop} {I : ℕ → Prop} (h : LastIn p I l a) : Occurs p I l := by
  obtain ⟨i, hi, hl, hp, -⟩ := h
  exact ⟨i, a, hi, hl, hp⟩

theorem FirstIn.occurs {p : α → Prop} {I : ℕ → Prop} (h : FirstIn p I l a) : Occurs p I l := by
  obtain ⟨i, hi, hl, hp, -⟩ := h
  exact ⟨i, a, hi, hl, hp⟩

end Occurrence
