/-
# Interleaving lists by class

A list whose places are sorted into classes falls into one part per class; the
parts and the classes of the places determine the list (`Interleaves.unique`).
-/
import Mathlib.Logic.Function.Basic
import Mathlib.Data.List.Basic

variable {κ α ι : Type*} [DecidableEq κ]

/-- The elements of `xs` at the places of class `k`. -/
def partOf (classes : List κ) (xs : List α) (k : κ) : List α :=
  ((classes.zip xs).filter fun p => p.1 = k).map Prod.snd

/-- The list `xs`, whose places have the given classes, falls into the given parts. -/
structure Interleaves (parts : κ → List α) (classes : List κ) (xs : List α) : Prop where
  length : classes.length = xs.length
  part : ∀ k, partOf classes xs k = parts k

theorem partOf_cons_self (k : κ) (ks : List κ) (x : α) (xs : List α) :
    partOf (k :: ks) (x :: xs) k = x :: partOf ks xs k := by
  simp [partOf]

theorem partOf_cons_of_ne {k k' : κ} (h : k ≠ k') (ks : List κ) (x : α) (xs : List α) :
    partOf (k :: ks) (x :: xs) k' = partOf ks xs k' := by
  simp [partOf, h]

theorem partOf_concat {ks : List κ} {xs : List α} (h : ks.length = xs.length) (k : κ) (x : α)
    (k' : κ) : partOf (ks ++ [k]) (xs ++ [x]) k' = partOf ks xs k' ++ if k = k' then [x] else [] := by
  rw [partOf, List.zip_append h, List.filter_append, List.map_append, ← partOf]
  congr 1
  by_cases hk : k = k'
  · simp [hk]
  · simp [hk]

/-- An element stands in its part behind the earlier ones of its class. -/
theorem partOf_getElem? {ks : List κ} : ∀ {xs : List α} {i : ℕ} {k : κ}, ks.length = xs.length →
    ks[i]? = some k → (partOf ks xs k)[(ks.take i).count k]? = xs[i]? := by
  induction ks with
  | nil => exact fun _ hi => by cases hi
  | cons k' ks ih =>
    intro xs i k hlen hi
    match xs, hlen with
    | x :: xs, hlen =>
      cases i with
      | zero =>
        obtain rfl := Option.some.inj hi
        rw [partOf_cons_self]
        rfl
      | succ i =>
        have hrest := ih (Nat.succ.inj hlen) hi
        rw [List.take_succ_cons, List.getElem?_cons_succ]
        by_cases hk : k' = k
        · rw [hk, partOf_cons_self, List.count_cons_self, List.getElem?_cons_succ, hrest]
        · rw [partOf_cons_of_ne hk, List.count_cons_of_ne hk, hrest]

theorem eq_of_partOf_eq {ks : List κ} : ∀ {xs ys : List α}, ks.length = xs.length →
    ks.length = ys.length → (∀ k, partOf ks xs k = partOf ks ys k) → xs = ys := by
  induction ks with
  | nil =>
    intro xs ys hx hy _
    rw [List.eq_nil_of_length_eq_zero hx.symm, List.eq_nil_of_length_eq_zero hy.symm]
  | cons k ks ih =>
    intro xs ys hx hy h
    match xs, ys, hx, hy with
    | x :: xs, y :: ys, hx, hy =>
      have hk := h k
      rw [partOf_cons_self, partOf_cons_self] at hk
      obtain ⟨rfl, htail⟩ := List.cons_eq_cons.mp hk
      congr 1
      refine ih (Nat.succ.inj hx) (Nat.succ.inj hy) fun k' => ?_
      by_cases hne : k = k'
      · rw [← hne]
        exact htail
      · have := h k'
        rwa [partOf_cons_of_ne hne, partOf_cons_of_ne hne] at this

/-- **Parts and classes determine the list.** -/
theorem Interleaves.unique {parts : κ → List α} {ks : List κ} {xs ys : List α}
    (h : Interleaves parts ks xs) (h' : Interleaves parts ks ys) : xs = ys :=
  eq_of_partOf_eq h.length h'.length fun k => (h.part k).trans (h'.part k).symm

theorem interleaves_nil {parts : κ → List α} (h : ∀ k, parts k = []) : Interleaves parts [] [] :=
  ⟨rfl, fun k => (h k).symm⟩

/-- One more place at the end takes the last element of the part of its class. -/
theorem Interleaves.concat {parts : κ → List α} {ks : List κ} {xs init : List α} {k : κ} {x : α}
    (h : Interleaves (Function.update parts k init) ks xs) (hk : parts k = init ++ [x]) :
    Interleaves parts (ks ++ [k]) (xs ++ [x]) := by
  refine ⟨by simp [h.length], fun k' => ?_⟩
  rw [partOf_concat h.length, h.part]
  by_cases hne : k = k'
  · subst hne
    rw [Function.update_self, if_pos rfl, hk]
  · rw [Function.update_of_ne (Ne.symm hne), if_neg hne, List.append_nil]
