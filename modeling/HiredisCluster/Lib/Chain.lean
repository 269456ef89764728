/-
# Chains in memory

A chain is a list of objects of which each holds the name of the next, and the last one `NULL`.
`addr` says where an element is, and `cell` what its object looks like in front of a given next
one; the elements know their own addresses, so that `Chain` says all about the memory.
-/
import HiredisCluster.Lib.Memory
import Mathlib.Data.List.Forall2

variable {ν β : Type} {addr : β → ℕ} {cell : β → Option ℕ → ν}

/-- The chain that begins at `p` is `l`. -/
def Chain (addr : β → ℕ) (cell : β → Option ℕ → ν) (μ : Memory ν) : Option ℕ → List β → Prop
  | p, [] => p = none
  | p, b :: l => p = some (addr b) ∧
      ∃ q, μ.cells (addr b) = some (cell b q) ∧ Chain addr cell μ q l

namespace Chain

variable {μ μ' : Memory ν}

theorem nil_iff {p : Option ℕ} : Chain addr cell μ p [] ↔ p = none := Iff.rfl

/-- The first element is where the chain begins. -/
theorem head_eq {p : Option ℕ} {l : List β} (h : Chain addr cell μ p l) : p = l.head?.map addr := by
  cases l with
  | nil => exact h
  | cons b l => exact h.1

/-- Every element has an object of its own kind. -/
theorem cell_of_mem {l : List β} : ∀ {p : Option ℕ}, Chain addr cell μ p l → ∀ b ∈ l,
    ∃ q, μ.cells (addr b) = some (cell b q) := by
  induction l with
  | nil => exact fun _ b hb => absurd hb List.not_mem_nil
  | cons b l ih =>
    rintro p ⟨-, q, hcell, hrest⟩ b' hb'
    rcases List.mem_cons.mp hb' with rfl | hb'
    · exact ⟨q, hcell⟩
    · exact ih hrest b' hb'

/-- A chain of different objects is not longer than names have been given. -/
theorem length_le_next {p : Option ℕ} {l : List β} (h : Chain addr cell μ p l)
    (hnodup : (l.map addr).Nodup) : l.length ≤ μ.next := by
  rw [← List.length_map (f := addr)]
  apply Memory.length_le_next hnodup
  intro q hq
  obtain ⟨b, hb, rfl⟩ := List.mem_map.mp hq
  obtain ⟨q, hcell⟩ := h.cell_of_mem b hb
  simp [hcell]

/-- **Frame**: a chain stays as long as its objects do. -/
theorem frame {l : List β} : ∀ {p : Option ℕ}, Chain addr cell μ p l →
    (∀ b ∈ l, μ'.cells (addr b) = μ.cells (addr b)) → Chain addr cell μ' p l := by
  induction l with
  | nil => exact fun h _ => h
  | cons b l ih =>
    rintro p ⟨hp, q, hcell, hrest⟩ hsame
    refine ⟨hp, q, ?_, ih hrest fun b' hb' => hsame b' (List.mem_cons_of_mem _ hb')⟩
    rw [hsame b List.mem_cons_self, hcell]

theorem suffix {l l' : List β} : ∀ {p : Option ℕ}, Chain addr cell μ p (l ++ l') →
    ∃ q, Chain addr cell μ q l' := by
  induction l with
  | nil => exact fun h => ⟨_, h⟩
  | cons b l ih =>
    rintro p ⟨-, q, -, hrest⟩
    exact ih hrest

/-- The elements are changed in place. -/
theorem map {g : β → β} {l : List β} (hg : ∀ b, addr (g b) = addr b) : ∀ {p : Option ℕ},
    Chain addr cell μ p l → (∀ b ∈ l, ∀ q, μ.cells (addr b) = some (cell b q) →
      μ'.cells (addr b) = some (cell (g b) q)) → Chain addr cell μ' p (l.map g) := by
  induction l with
  | nil => exact fun h _ => h
  | cons b l ih =>
    rintro p ⟨hp, q, hcell, hrest⟩ hnew
    refine ⟨by rw [hg, hp], q, ?_, ih hrest fun b' hb' => hnew b' (List.mem_cons_of_mem _ hb')⟩
    rw [hg]
    exact hnew b List.mem_cons_self q hcell

/-- Only the addresses of its own elements matter. -/
theorem congr_addr {addr' : β → ℕ} {l : List β} : ∀ {p : Option ℕ}, Chain addr cell μ p l →
    (∀ b ∈ l, addr' b = addr b) → Chain addr' cell μ p l := by
  induction l with
  | nil => exact fun h _ => h
  | cons b l ih =>
    rintro p ⟨hp, q, hcell, hrest⟩ hsame
    have hb := hsame b List.mem_cons_self
    refine ⟨by rw [hb, hp], q, by rw [hb, hcell], ?_⟩
    exact ih hrest fun b' hb' => hsame b' (List.mem_cons_of_mem _ hb')

end Chain

/-! ## Several chains -/

/-- The chains that begin at `heads` are `bs`. -/
abbrev Chains (addr : β → ℕ) (cell : β → Option ℕ → ν) (μ : Memory ν) (heads : List (Option ℕ))
    (bs : List (List β)) : Prop :=
  List.Forall₂ (Chain addr cell μ) heads bs

namespace Chains

variable {μ μ' : Memory ν} {heads : List (Option ℕ)} {bs : List (List β)}

theorem frame (h : Chains addr cell μ heads bs)
    (hsame : ∀ b ∈ bs.flatten, μ'.cells (addr b) = μ.cells (addr b)) :
    Chains addr cell μ' heads bs := by
  induction h with
  | nil => exact .nil
  | cons hchain _ ih =>
    rw [List.flatten_cons] at hsame
    exact .cons (hchain.frame fun b hb => hsame b (List.mem_append_left _ hb))
      (ih fun b hb => hsame b (List.mem_append_right _ hb))

theorem map {g : β → β} (hg : ∀ b, addr (g b) = addr b) (h : Chains addr cell μ heads bs)
    (hnew : ∀ b ∈ bs.flatten, ∀ q, μ.cells (addr b) = some (cell b q) →
      μ'.cells (addr b) = some (cell (g b) q)) :
    Chains addr cell μ' heads (bs.map (List.map g)) := by
  induction h with
  | nil => exact .nil
  | cons hchain _ ih =>
    rw [List.flatten_cons] at hnew
    exact .cons (hchain.map hg fun b hb => hnew b (List.mem_append_left _ hb))
      (ih fun b hb => hnew b (List.mem_append_right _ hb))

theorem congr_addr {addr' : β → ℕ} (h : Chains addr cell μ heads bs)
    (hsame : ∀ b ∈ bs.flatten, addr' b = addr b) : Chains addr' cell μ heads bs := by
  induction h with
  | nil => exact .nil
  | cons hchain _ ih =>
    rw [List.flatten_cons] at hsame
    exact .cons (hchain.congr_addr fun b hb => hsame b (List.mem_append_left _ hb))
      (ih fun b hb => hsame b (List.mem_append_right _ hb))

theorem cell_of_mem (h : Chains addr cell μ heads bs) {b : β} (hb : b ∈ bs.flatten) :
    ∃ q, μ.cells (addr b) = some (cell b q) := by
  induction h with
  | nil => exact absurd hb List.not_mem_nil
  | cons hchain _ ih =>
    rw [List.flatten_cons] at hb
    rcases List.mem_append.mp hb with hb | hb
    · exact hchain.cell_of_mem b hb
    · exact ih hb

/-- The chain with a given number. -/
theorem get {i : ℕ} (h : Chains addr cell μ heads bs) (hi : i < bs.length) :
    ∃ p, heads[i]? = some p ∧ Chain addr cell μ p (bs.getD i []) := by
  induction h generalizing i with
  | nil => exact absurd hi (Nat.not_lt_zero _)
  | cons hchain hrest ih =>
    cases i with
    | zero => exact ⟨_, rfl, hchain⟩
    | succ i => exact ih (Nat.lt_of_succ_lt_succ hi)

/-- The first chain from number `i` on. -/
theorem next {i : ℕ} {b : List β} (h : Chains addr cell μ (heads.drop i) (b :: bs)) :
    ∃ p, heads[i]? = some p ∧ Chain addr cell μ p b ∧ Chains addr cell μ (heads.drop (i + 1)) bs := by
  generalize hdrop : heads.drop i = hs at h
  cases h with
  | @cons p _ hs _ hchain hrest =>
    refine ⟨p, ?_, hchain, ?_⟩
    · rw [← List.head?_drop, hdrop]
      rfl
    · rw [← List.tail_drop, hdrop]
      exact hrest

/-- A chain is replaced. -/
theorem set {i : ℕ} {p : Option ℕ} {f : List β → List β} (h : Chains addr cell μ heads bs)
    (hp : Chain addr cell μ p (f (bs.getD i []))) :
    Chains addr cell μ (heads.set i p) (bs.modify i f) := by
  induction h generalizing i with
  | nil =>
    cases i <;> exact .nil
  | cons hchain hrest ih =>
    cases i with
    | zero => exact .cons hp hrest
    | succ i =>
      rw [List.set_cons_succ, List.modify_succ_cons]
      exact .cons hchain (ih hp)

/-- Without elements. -/
theorem replicate (n : ℕ) :
    Chains addr cell μ (List.replicate n none) (List.replicate n ([] : List β)) := by
  induction n with
  | zero => exact .nil
  | succ n ih => exact .cons rfl ih

end Chains
