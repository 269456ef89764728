/-
# Claims on the keys of a partial map

Pairs of a key and a value are entered one after the other, and entering stops at a key that
is taken.  It comes to its end exactly if no key is claimed twice and none was taken before;
the map then holds what it held and the pairs (`claim_eq_some_iff`).
-/
import Mathlib.Data.List.Nodup
import Mathlib.Logic.Function.Basic

namespace Claims

variable {κ ν : Type*} [DecidableEq κ]

/-- Enter the pairs, as long as each key is free. -/
def claim (t : κ → Option ν) : List (κ × ν) → Option (κ → Option ν)
  | [] => some t
  | (k, v) :: ps => if (t k).isSome then none else claim (Function.update t k (some v)) ps

theorem claim_append (ps qs : List (κ × ν)) : ∀ t : κ → Option ν,
    claim t (ps ++ qs) = (claim t ps).bind (claim · qs) := by
  induction ps with
  | nil => exact fun t => rfl
  | cons p ps ih =>
    intro t
    obtain ⟨k, v⟩ := p
    rw [List.cons_append, claim, claim]
    split
    · rfl
    · exact ih _

/-- **Entering succeeds** exactly if no key is claimed twice and none was taken. -/
theorem claim_eq_some_iff {ps : List (κ × ν)} : ∀ {t t' : κ → Option ν}, claim t ps = some t' ↔
    (ps.map Prod.fst).Nodup ∧ (∀ k ∈ ps.map Prod.fst, t k = none) ∧
      ∀ k v, t' k = some v ↔ (k, v) ∈ ps ∨ t k = some v := by
  induction ps with
  | nil =>
    intro t t'
    constructor
    · intro h
      obtain rfl := Option.some.inj h
      exact ⟨List.nodup_nil, by simp, by simp⟩
    · rintro ⟨-, -, hsame⟩
      refine congrArg some (funext fun k => Option.ext fun v => ?_)
      simp [hsame]
  | cons p ps ih =>
    intro t t'
    obtain ⟨k, v⟩ := p
    rw [claim]
    by_cases hfree : t k = none
    · have hstart : ¬ (t k).isSome = true := by simp [hfree]
      rw [if_neg hstart, ih, List.map_cons, List.nodup_cons, List.forall_mem_cons]
      -- the keys that follow are free of `k` exactly if they are free after it is entered
      have hkeys : (∀ k' ∈ ps.map Prod.fst, Function.update t k (some v) k' = none) ↔
          k ∉ ps.map Prod.fst ∧ ∀ k' ∈ ps.map Prod.fst, t k' = none := by
        constructor
        · intro h
          have hk : k ∉ ps.map Prod.fst := fun hmem => by simpa using h k hmem
          refine ⟨hk, fun k' hk' => ?_⟩
          have hne : k' ≠ k := fun heq => hk (heq ▸ hk')
          rw [← Function.update_of_ne hne (some v) t]
          exact h k' hk'
        · rintro ⟨hk, h⟩ k' hk'
          have hne : k' ≠ k := fun heq => hk (heq ▸ hk')
          rw [Function.update_of_ne hne]
          exact h k' hk'
      have hpairs : ∀ k' v', (k', v') ∈ ps ∨ Function.update t k (some v) k' = some v' ↔
          (k', v') ∈ (k, v) :: ps ∨ t k' = some v' := by
        intro k' v'
        rw [List.mem_cons]
        rcases eq_or_ne k' k with rfl | hne
        · simp [hfree, eq_comm, or_comm]
        · simp [hne]
      simp only [hkeys, hpairs, hfree, true_and]
      tauto
    · rw [if_pos (Option.isSome_iff_ne_none.mpr hfree)]
      constructor
      · intro h
        cases h
      · rintro ⟨-, hnone, -⟩
        exact absurd (hnone k List.mem_cons_self) hfree

theorem exists_claim {ps : List (κ × ν)} : ∀ {t : κ → Option ν}, (ps.map Prod.fst).Nodup →
    (∀ k ∈ ps.map Prod.fst, t k = none) → ∃ t', claim t ps = some t' := by
  induction ps with
  | nil => exact fun {t} _ _ => ⟨t, rfl⟩
  | cons p ps ih =>
    obtain ⟨k, v⟩ := p
    intro t hnodup hfree
    rw [List.map_cons, List.nodup_cons] at hnodup
    rw [List.map_cons, List.forall_mem_cons] at hfree
    have hstart : ¬ (t k).isSome = true := by simp [hfree.1]
    rw [claim, if_neg hstart]
    refine ih hnodup.2 fun k' hk' => ?_
    have hne : k' ≠ k := fun heq => hnodup.1 (heq ▸ hk')
    rw [Function.update_of_ne hne]
    exact hfree.2 k' hk'

end Claims
