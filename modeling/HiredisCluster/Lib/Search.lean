/-
# Binary search by a comparison

What is sought is given by a comparison: `cmp c` says where the row `c` stands relative to
it.  The search is right for every table along which the comparison ascends: first the rows
before what is sought, then the rows equal to it, then the rows after it.

`searchLoop_found` and `searchLoop_missed` are the two directions of the specification.
-/
import Mathlib.Data.Nat.Notation
import Mathlib.Order.Defs.LinearOrder

namespace Search

variable {ρ : Type*}

/-- The rows of `table` between `left` and `right` (excluded) are searched. -/
def searchLoop (cmp : ρ → Ordering) (table : List ρ) : ℕ → ℕ → ℕ → Option ρ
  | 0, _, _ => none
  | fuel + 1, left, right =>
    if left < right then
      let i := (left + (right - 1)) / 2
      match table[i]? with
      | none => none
      | some c =>
        match cmp c with
        | .lt => searchLoop cmp table fuel (i + 1) right
        | .gt => searchLoop cmp table fuel left i
        | .eq => some c
    else none

/-- Along the table the comparison goes from `lt` over `eq` to `gt`. -/
def Ascends (cmp : ρ → Ordering) (table : List ρ) : Prop :=
  table.Pairwise fun x y => (cmp y = .lt → cmp x = .lt) ∧ (cmp x = .gt → cmp y = .gt)

/-- The row in the middle of a search lies in its range. -/
theorem middle_bounds {left right : ℕ} (h : left < right) :
    left ≤ (left + (right - 1)) / 2 ∧ (left + (right - 1)) / 2 < right := by
  omega

/-- What is found is a row of the table that compares equal. -/
theorem searchLoop_found {cmp : ρ → Ordering} {table : List ρ} {c : ρ} (fuel : ℕ) :
    ∀ left right, searchLoop cmp table fuel left right = some c → c ∈ table ∧ cmp c = .eq := by
  induction fuel with
  | zero =>
    intro left right h
    cases h
  | succ fuel ih =>
    intro left right h
    unfold searchLoop at h
    by_cases hlr : left < right
    · rw [if_pos hlr] at h
      generalize (left + (right - 1)) / 2 = i at h
      dsimp only at h
      cases hx : table[i]? with
      | none =>
        rw [hx] at h
        cases h
      | some x =>
        rw [hx] at h
        dsimp only at h
        cases ho : cmp x with
        | lt =>
          rw [ho] at h
          exact ih _ _ h
        | gt =>
          rw [ho] at h
          exact ih _ _ h
        | eq =>
          rw [ho] at h
          obtain rfl := Option.some.inj h
          exact ⟨List.mem_of_getElem? hx, ho⟩
    · rw [if_neg hlr] at h
      cases h

section Ascending

variable {cmp : ρ → Ordering} {table : List ρ} (hasc : Ascends cmp table)
include hasc

theorem Ascends.lt {i j : ℕ} {x y : ρ} (hij : i ≤ j) (hx : table[i]? = some x)
    (hy : table[j]? = some y) (h : cmp y = .lt) : cmp x = .lt := by
  rcases Nat.eq_or_lt_of_le hij with rfl | hij
  · obtain rfl := Option.some.inj (hx.symm.trans hy)
    exact h
  · obtain ⟨hi, rfl⟩ := List.getElem?_eq_some_iff.mp hx
    obtain ⟨hj, rfl⟩ := List.getElem?_eq_some_iff.mp hy
    exact (List.pairwise_iff_getElem.mp hasc i j hi hj hij).1 h

theorem Ascends.gt {i j : ℕ} {x y : ρ} (hij : i ≤ j) (hx : table[i]? = some x)
    (hy : table[j]? = some y) (h : cmp x = .gt) : cmp y = .gt := by
  rcases Nat.eq_or_lt_of_le hij with rfl | hij
  · obtain rfl := Option.some.inj (hx.symm.trans hy)
    exact h
  · obtain ⟨hi, rfl⟩ := List.getElem?_eq_some_iff.mp hx
    obtain ⟨hj, rfl⟩ := List.getElem?_eq_some_iff.mp hy
    exact (List.pairwise_iff_getElem.mp hasc i j hi hj hij).2 h

/-- If nothing is found, no row outside of the range being equal, no row is equal. -/
theorem searchLoop_missed (fuel : ℕ) : ∀ left right, right ≤ table.length →
    right - left ≤ fuel → (∀ i x, i < left → table[i]? = some x → cmp x = .lt) →
    (∀ i x, right ≤ i → table[i]? = some x → cmp x = .gt) →
    searchLoop cmp table fuel left right = none → ∀ x ∈ table, cmp x ≠ .eq := by
  -- Every row is on one side of an empty range.
  have hsides : ∀ left right : ℕ, right ≤ left →
      (∀ i x, i < left → table[i]? = some x → cmp x = .lt) →
      (∀ i x, right ≤ i → table[i]? = some x → cmp x = .gt) → ∀ x ∈ table, cmp x ≠ .eq := by
    intro left right hrl hbelow habove x hx
    obtain ⟨i, hi⟩ := List.getElem?_of_mem hx
    by_cases hil : i < left
    · rw [hbelow i x hil hi]
      decide
    · rw [habove i x (by omega) hi]
      decide
  induction fuel with
  | zero =>
    intro left right hlen hfuel hbelow habove _
    exact hsides left right (by omega) hbelow habove
  | succ fuel ih =>
    intro left right hlen hfuel hbelow habove h
    unfold searchLoop at h
    by_cases hlr : left < right
    · rw [if_pos hlr] at h
      have hmid := middle_bounds hlr
      generalize (left + (right - 1)) / 2 = i at h hmid
      obtain ⟨x, hx⟩ : ∃ x, table[i]? = some x := ⟨_, List.getElem?_eq_getElem (by omega)⟩
      dsimp only at h
      rw [hx] at h
      dsimp only at h
      cases ho : cmp x with
      | lt =>
        rw [ho] at h
        refine ih (i + 1) right hlen (by omega) (fun j y hj hy => ?_) habove h
        exact hasc.lt (Nat.le_of_lt_succ hj) hy hx ho
      | gt =>
        rw [ho] at h
        refine ih left i (by omega) (by omega) hbelow (fun j y hj hy => ?_) h
        exact hasc.gt hj hx hy ho
      | eq =>
        rw [ho] at h
        cases h
    · exact hsides left right (by omega) hbelow habove

/-- **The search is exhaustive**: over the whole table it finds nothing only if no row
compares equal. -/
theorem searchLoop_none_iff :
    searchLoop cmp table table.length 0 table.length = none ↔ ∀ x ∈ table, cmp x ≠ .eq := by
  constructor
  · refine searchLoop_missed hasc _ 0 table.length (Nat.le_refl _) (Nat.le_refl _)
      (fun i _ hi => absurd hi (Nat.not_lt_zero i)) (fun i x hi hx => ?_)
    have := (List.getElem?_eq_some_iff.mp hx).1
    omega
  · intro h
    cases hs : searchLoop cmp table table.length 0 table.length with
    | none => rfl
    | some c =>
      obtain ⟨hc, ho⟩ := searchLoop_found _ _ _ hs
      exact absurd ho (h c hc)

end Ascending

end Search
