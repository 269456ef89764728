/-
# Operations that act on one key each

A batch of operations runs one after the other on a store, and each operation reads and
writes the value of one key only.  Such a batch may be taken apart by any classification
of the keys: the operations of one class, run by themselves on a store that has the right
values for this class, give the same answers and the same values as in the whole batch
(`run_part`), whatever the other classes do and whenever they do it.
-/
import HiredisCluster.Lib.Interleave
import Mathlib.Algebra.BigOperators.Group.List.Basic

namespace Pointwise

variable {ι κ υ ο γ : Type*} [DecidableEq κ] [DecidableEq γ]
  (key : ι → κ) (op : ι → υ → ο × υ)

/-- Run a batch: the answers, and the store that is left. -/
def run : List ι → (κ → υ) → List ο × (κ → υ)
  | [], s => ([], s)
  | i :: is, s =>
    let r := run is (Function.update s (key i) (op i (s (key i))).2)
    ((op i (s (key i))).1 :: r.1, r.2)

theorem length_run (is : List ι) : ∀ s, (run key op is s).1.length = is.length := by
  induction is with
  | nil => exact fun _ => rfl
  | cons i is ih =>
    intro s
    rw [run, List.length_cons, List.length_cons, ih]

/-- Keys that no operation is about keep their values. -/
theorem run_other {k : κ} (is : List ι) (hk : ∀ i ∈ is, key i ≠ k) :
    ∀ s, (run key op is s).2 k = s k := by
  induction is with
  | nil => exact fun _ => rfl
  | cons i is ih =>
    intro s
    obtain ⟨hi, his⟩ := List.forall_mem_cons.mp hk
    rw [run]
    exact (ih his _).trans (Function.update_of_ne (Ne.symm hi) _ _)

/-- **A class by itself.**  The operations on the keys of class `c` have the answers and
the effect that they have in the whole batch. -/
theorem run_part (cls : κ → γ) (c : γ) (is : List ι) : ∀ {s s' : κ → υ},
    (∀ k, cls k = c → s k = s' k) →
      (run key op (is.filter fun i => cls (key i) = c) s).1 =
        partOf (is.map fun i => cls (key i)) (run key op is s').1 c ∧
      ∀ k, cls k = c → (run key op (is.filter fun i => cls (key i) = c) s).2 k =
        (run key op is s').2 k := by
  induction is with
  | nil => exact fun h => ⟨rfl, h⟩
  | cons i is ih =>
    intro s s' h
    by_cases hi : cls (key i) = c
    · have heq := h (key i) hi
      have hagree : ∀ k, cls k = c → Function.update s (key i) (op i (s (key i))).2 k =
          Function.update s' (key i) (op i (s' (key i))).2 k := by
        intro k hk
        rcases eq_or_ne k (key i) with rfl | hne
        · rw [Function.update_self, Function.update_self, heq]
        · rw [Function.update_of_ne hne, Function.update_of_ne hne, h k hk]
      obtain ⟨hout, hend⟩ := ih hagree
      rw [List.filter_cons_of_pos (by simpa using hi), run, run, List.map_cons]
      refine ⟨?_, hend⟩
      subst hi
      rw [partOf_cons_self, hout, heq]
    · have hagree : ∀ k, cls k = c → s k = Function.update s' (key i) (op i (s' (key i))).2 k := by
        intro k hk
        have hne : k ≠ key i := by
          rintro rfl
          exact hi hk
        rw [Function.update_of_ne hne, h k hk]
      obtain ⟨hout, hend⟩ := ih hagree
      rw [List.filter_cons_of_neg (by simpa using hi), run, List.map_cons]
      exact ⟨by rw [partOf_cons_of_ne hi, hout], hend⟩

end Pointwise

/-! ## Sums -/

variable {κ M : Type*} [DecidableEq κ] [AddCommMonoid M]

theorem sum_map_ite_of_nodup {cs : List κ} (hcs : cs.Nodup) {k : κ} (hk : k ∈ cs) (x : M) :
    (cs.map fun c => if k = c then x else 0).sum = x := by
  induction cs with
  | nil => cases hk
  | cons c cs ih =>
    obtain ⟨hc, hcs⟩ := List.nodup_cons.mp hcs
    rw [List.map_cons, List.sum_cons]
    rcases List.mem_cons.mp hk with rfl | hmem
    · have hzero : (cs.map fun c => if k = c then x else 0) = cs.map fun _ => (0 : M) := by
        refine List.map_congr_left fun c' hc' => if_neg ?_
        rintro rfl
        exact hc hc'
      rw [if_pos rfl, hzero, List.sum_map_zero, add_zero]
    · have hne : k ≠ c := by
        rintro rfl
        exact hc hmem
      rw [if_neg hne, zero_add, ih hcs hmem]

/-- The sum over the parts is the sum over the whole. -/
theorem sum_partOf {cs : List κ} (hcs : cs.Nodup) : ∀ {ks : List κ} {xs : List M},
    ks.length = xs.length → (∀ k ∈ ks, k ∈ cs) →
      (cs.map fun c => (partOf ks xs c).sum).sum = xs.sum
  | [], [], _, _ => by
    have hzero : (cs.map fun c => (partOf [] ([] : List M) c).sum) = cs.map fun _ => (0 : M) := rfl
    rw [hzero, List.sum_map_zero, List.sum_nil]
  | k :: ks, x :: xs, hlen, hk => by
    obtain ⟨hk, hks⟩ := List.forall_mem_cons.mp hk
    have hcons : ∀ c, (partOf (k :: ks) (x :: xs) c).sum =
        (if k = c then x else 0) + (partOf ks xs c).sum := by
      intro c
      by_cases h : k = c
      · subst h
        rw [partOf_cons_self, List.sum_cons, if_pos rfl]
      · rw [partOf_cons_of_ne h, if_neg h, zero_add]
    rw [List.map_congr_left fun c _ => hcons c, List.sum_map_add, sum_map_ite_of_nodup hcs hk,
      sum_partOf hcs (Nat.succ.inj hlen) hks, List.sum_cons]
