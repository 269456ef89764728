/-
# A memory of objects

Objects are named by the order of their allocation, so that a name is never used again.  A
`Procedure` reads, writes, allocates and frees objects; an access to an object that does not exist,
or that has been freed, ends it (`none`), and so does a loop that runs out of fuel.

`Meets m μ Q` says that `m` runs from `μ` without such an end and that its result and the memory
then satisfy `Q`; the rules below execute a routine step by step.  `Swaps F F'` is the frame: of
the objects that existed only those of the footprint `F` have changed, those that are not in `F'`
any more have been freed, and what is new in `F'` has been allocated.
-/
import Mathlib.Data.List.Basic
import Mathlib.Data.List.Nodup
import Mathlib.Data.List.Range
import Mathlib.Data.List.Perm.Subperm
import Mathlib.Logic.Function.Basic

variable {ν α β : Type}

/-- The objects that exist, by their names, and the next name. -/
structure Memory (ν : Type) where
  cells : ℕ → Option ν
  next : ℕ
  /-- No object has a name that has not been given. -/
  unborn : ∀ p, next ≤ p → cells p = none

namespace Memory

/-- There is nothing yet. -/
def empty : Memory ν := ⟨fun _ => none, 0, fun _ _ => rfl⟩

/-- The next name is not that of an object. -/
theorem ne_next {μ : Memory ν} {p : ℕ} (h : μ.cells p ≠ none) : p ≠ μ.next := by
  rintro rfl
  exact h (μ.unborn _ le_rfl)

/-- The object `p` is overwritten. -/
def set (μ : Memory ν) (p : ℕ) (v : ν) (hp : μ.cells p ≠ none) : Memory ν where
  cells := Function.update μ.cells p (some v)
  next := μ.next
  unborn := by
    intro q hq
    rw [Function.update_of_ne]
    · exact μ.unborn q hq
    · rintro rfl
      exact hp (μ.unborn q hq)

/-- The object `p` is gone. -/
def drop (μ : Memory ν) (p : ℕ) : Memory ν where
  cells := Function.update μ.cells p none
  next := μ.next
  unborn := by
    intro q hq
    rcases eq_or_ne q p with rfl | hne
    · rw [Function.update_self]
    · rw [Function.update_of_ne hne, μ.unborn q hq]

/-- A new object. -/
def push (μ : Memory ν) (v : ν) : Memory ν where
  cells := Function.update μ.cells μ.next (some v)
  next := μ.next + 1
  unborn := by
    intro q hq
    rw [Function.update_of_ne (by omega), μ.unborn q (by omega)]

/-- A name is used up. -/
def skip (μ : Memory ν) : Memory ν := ⟨μ.cells, μ.next + 1, fun p hp => μ.unborn p (by omega)⟩

section Cells

variable (μ : Memory ν) {p q : ℕ} {v : ν}

@[simp] theorem cells_set_self (hp : μ.cells p ≠ none) : (μ.set p v hp).cells p = some v :=
  Function.update_self _ _ _

theorem cells_set_of_ne (hp : μ.cells p ≠ none) (h : q ≠ p) :
    (μ.set p v hp).cells q = μ.cells q := Function.update_of_ne h _ _

@[simp] theorem next_set (hp : μ.cells p ≠ none) : (μ.set p v hp).next = μ.next := rfl

@[simp] theorem cells_drop_self : (μ.drop p).cells p = none := Function.update_self _ _ _

theorem cells_drop_of_ne (h : q ≠ p) : (μ.drop p).cells q = μ.cells q := Function.update_of_ne h _ _

@[simp] theorem next_drop : (μ.drop p).next = μ.next := rfl

@[simp] theorem cells_push_self : (μ.push v).cells μ.next = some v := Function.update_self _ _ _

theorem cells_push_of_ne (h : q ≠ μ.next) : (μ.push v).cells q = μ.cells q :=
  Function.update_of_ne h _ _

@[simp] theorem next_push : (μ.push v).next = μ.next + 1 := rfl

@[simp] theorem cells_skip : μ.skip.cells = μ.cells := rfl

@[simp] theorem next_skip : μ.skip.next = μ.next + 1 := rfl

end Cells

/-- Objects that exist and are all different are no more than names have been given. -/
theorem length_le_next {μ : Memory ν} {ps : List ℕ} (hnodup : ps.Nodup)
    (hlive : ∀ p ∈ ps, μ.cells p ≠ none) : ps.length ≤ μ.next := by
  have hsub : ps ⊆ List.range μ.next := by
    intro p hp
    rw [List.mem_range]
    by_contra hge
    exact hlive p hp (μ.unborn p (Nat.not_lt.mp hge))
  have hle := (List.subperm_of_subset hnodup hsub).length_le
  rwa [List.length_range] at hle

end Memory

/-! ## Routines -/

/-- A routine on a memory; `none` is an invalid access, or no end. -/
abbrev Procedure (ν : Type) := StateT (Memory ν) Option

namespace Procedure

/-- An invalid access. -/
def fault : Procedure ν α := fun _ => none

/-- Names that have been given: more steps than a loop over different objects takes. -/
def fuel : Procedure ν ℕ := fun μ => some (μ.next, μ)

def load (p : ℕ) : Procedure ν ν := fun μ => (μ.cells p).map fun v => (v, μ)

def store (p : ℕ) (v : ν) : Procedure ν Unit := fun μ =>
  if hp : μ.cells p ≠ none then some ((), μ.set p v hp) else none

/-- `grant` says which requests the allocator fulfils; `NULL` is the answer to the others. -/
def alloc (grant : ℕ → Bool) (v : ν) : Procedure ν (Option ℕ) := fun μ =>
  if grant μ.next then some (some μ.next, μ.push v) else some (none, μ.skip)

def free (p : ℕ) : Procedure ν Unit := fun μ =>
  if μ.cells p ≠ none then some ((), μ.drop p) else none

/-- `free(NULL)` does nothing. -/
def freeOpt : Option ℕ → Procedure ν Unit
  | none => pure ()
  | some p => free p

/-- **The routine comes to an end**, without an invalid access, and then `Q` holds. -/
def Meets (m : Procedure ν α) (μ : Memory ν) (Q : α → Memory ν → Prop) : Prop :=
  ∃ a μ', m μ = some (a, μ') ∧ Q a μ'

section Rules

variable {μ : Memory ν} {Q : α → Memory ν → Prop}

theorem meets_pure {a : α} (h : Q a μ) : Meets (pure a) μ Q := ⟨a, μ, rfl, h⟩

theorem Meets.bind {m : Procedure ν β} {f : β → Procedure ν α} {P : β → Memory ν → Prop}
    (hm : Meets m μ P) (hf : ∀ b μ', P b μ' → Meets (f b) μ' Q) : Meets (m >>= f) μ Q := by
  obtain ⟨b, μ₁, hb, hp⟩ := hm
  obtain ⟨a, μ₂, ha, hq⟩ := hf b μ₁ hp
  refine ⟨a, μ₂, ?_, hq⟩
  show (m μ).bind (fun r => f r.1 r.2) = _
  rw [hb]
  exact ha

theorem Meets.mono {m : Procedure ν α} {P : α → Memory ν → Prop} (hm : Meets m μ P)
    (h : ∀ a μ', P a μ' → Q a μ') : Meets m μ Q := by
  obtain ⟨a, μ', ha, hp⟩ := hm
  exact ⟨a, μ', ha, h a μ' hp⟩

theorem meets_load_bind {p : ℕ} {v : ν} {f : ν → Procedure ν α} (hp : μ.cells p = some v)
    (h : Meets (f v) μ Q) : Meets (load p >>= f) μ Q := by
  refine Meets.bind (P := fun b μ' => b = v ∧ μ' = μ) ⟨v, μ, ?_, rfl, rfl⟩ ?_
  · rw [load, hp]
    rfl
  · rintro b μ' ⟨rfl, rfl⟩
    exact h

theorem meets_store_bind {p : ℕ} {v : ν} {f : Unit → Procedure ν α} (hp : μ.cells p ≠ none)
    (h : Meets (f ()) (μ.set p v hp) Q) : Meets (store p v >>= f) μ Q := by
  refine Meets.bind (P := fun _ μ' => μ' = μ.set p v hp) ⟨(), _, dif_pos hp, rfl⟩ ?_
  rintro _ μ' rfl
  exact h

theorem meets_alloc_bind {grant : ℕ → Bool} {v : ν} {f : Option ℕ → Procedure ν α}
    (hno : grant μ.next = false → Meets (f none) μ.skip Q)
    (hyes : grant μ.next = true → Meets (f (some μ.next)) (μ.push v) Q) :
    Meets (alloc grant v >>= f) μ Q := by
  cases hg : grant μ.next with
  | false =>
    refine Meets.bind (P := fun b μ' => b = none ∧ μ' = μ.skip) ⟨none, _, ?_, rfl, rfl⟩ ?_
    · rw [alloc, if_neg (by simp [hg])]
    · rintro b μ' ⟨rfl, rfl⟩
      exact hno hg
  | true =>
    refine Meets.bind (P := fun b μ' => b = some μ.next ∧ μ' = μ.push v) ⟨_, _, ?_, rfl, rfl⟩ ?_
    · rw [alloc, if_pos hg]
    · rintro b μ' ⟨rfl, rfl⟩
      exact hyes hg

theorem meets_free_bind {p : ℕ} {f : Unit → Procedure ν α} (hp : μ.cells p ≠ none)
    (h : Meets (f ()) (μ.drop p) Q) : Meets (free p >>= f) μ Q := by
  refine Meets.bind (P := fun _ μ' => μ' = μ.drop p) ⟨(), _, if_pos hp, rfl⟩ ?_
  rintro _ μ' rfl
  exact h

theorem meets_fuel_bind {f : ℕ → Procedure ν α} (h : Meets (f μ.next) μ Q) : Meets (fuel >>= f) μ Q := by
  refine Meets.bind (P := fun b μ' => b = μ.next ∧ μ' = μ) ⟨_, _, rfl, rfl, rfl⟩ ?_
  rintro b μ' ⟨rfl, rfl⟩
  exact h

end Rules

end Procedure

/-- Between two memories a request was not fulfilled. -/
def Refused (grant : ℕ → Bool) (μ μ' : Memory ν) : Prop :=
  ∃ n, μ.next ≤ n ∧ n < μ'.next ∧ grant n = false

theorem refused_skip {grant : ℕ → Bool} {μ : Memory ν} (h : grant μ.next = false) :
    Refused grant μ μ.skip := ⟨μ.next, le_rfl, Nat.lt_succ_self _, h⟩

theorem Refused.mono {grant : ℕ → Bool} {μ μ' ν₀ ν₁ : Memory ν} (h : Refused grant μ μ')
    (hle : ν₀.next ≤ μ.next) (hle' : μ'.next ≤ ν₁.next) : Refused grant ν₀ ν₁ := by
  obtain ⟨n, hn, hn', hno⟩ := h
  exact ⟨n, hle.trans hn, hn'.trans_le hle', hno⟩

/-! ## Footprints -/

/-- From the footprint `F` to the footprint `F'`, and nothing else changes. -/
structure Swaps (F F' : List ℕ) (μ μ' : Memory ν) : Prop where
  next : μ.next ≤ μ'.next
  same : ∀ p, p ∉ F → p ∉ F' → μ'.cells p = μ.cells p
  freed : ∀ p ∈ F, p ∉ F' → μ'.cells p = none
  born : ∀ p ∈ F', p ∈ F ∨ μ.cells p = none

theorem Swaps.refl (F : List ℕ) (μ : Memory ν) : Swaps F F μ μ :=
  ⟨le_rfl, fun _ _ _ => rfl, fun _ h h' => absurd h h', fun _ h => Or.inl h⟩

theorem Swaps.trans {F F' F'' : List ℕ} {μ μ' μ'' : Memory ν} (h : Swaps F F' μ μ')
    (h' : Swaps F' F'' μ' μ'') : Swaps F F'' μ μ'' where
  next := h.next.trans h'.next
  same p hp hp'' := by
    by_cases hp' : p ∈ F'
    · rw [h'.freed p hp' hp'']
      exact ((h.born p hp').resolve_left hp).symm
    · rw [h'.same p hp' hp'', h.same p hp hp']
  freed p hp hp'' := by
    by_cases hp' : p ∈ F'
    · exact h'.freed p hp' hp''
    · rw [h'.same p hp' hp'', h.freed p hp hp']
  born p hp'' := by
    by_cases hp : p ∈ F
    · exact Or.inl hp
    · right
      rcases h'.born p hp'' with hp' | hnone
      · exact (h.born p hp').resolve_left hp
      · by_cases hp' : p ∈ F'
        · exact (h.born p hp').resolve_left hp
        · rw [← h.same p hp hp', hnone]

/-- Only which objects a footprint has matters. -/
theorem Swaps.congr {F F' G G' : List ℕ} {μ μ' : Memory ν} (h : Swaps F F' μ μ')
    (hF : ∀ p, p ∈ F ↔ p ∈ G) (hF' : ∀ p, p ∈ F' ↔ p ∈ G') : Swaps G G' μ μ' where
  next := h.next
  same p hp hp' := h.same p (fun hin => hp ((hF p).mp hin)) fun hin => hp' ((hF' p).mp hin)
  freed p hp hp' := h.freed p ((hF p).mpr hp) fun hin => hp' ((hF' p).mp hin)
  born p hp := (h.born p ((hF' p).mpr hp)).imp_left (hF p).mp

/-- What had no footprint at first and has none at last has left no trace. -/
theorem Swaps.cells_eq {μ μ' : Memory ν} (h : Swaps [] [] μ μ') : μ'.cells = μ.cells := by
  funext p
  exact h.same p List.not_mem_nil List.not_mem_nil

theorem swaps_set {F : List ℕ} {μ : Memory ν} {p : ℕ} {v : ν} (hp : μ.cells p ≠ none)
    (hF : p ∈ F) : Swaps F F μ (μ.set p v hp) where
  next := le_rfl
  same _ hq _ := μ.cells_set_of_ne hp fun heq => hq (heq ▸ hF)
  freed _ hq hq' := absurd hq hq'
  born _ hq := Or.inl hq

theorem swaps_push {F : List ℕ} {μ : Memory ν} (v : ν) : Swaps F (μ.next :: F) μ (μ.push v) where
  next := Nat.le_succ _
  same q _ hq' := μ.cells_push_of_ne fun heq => hq' (heq ▸ List.mem_cons_self)
  freed q hq hq' := absurd (List.mem_cons_of_mem _ hq) hq'
  born q hq' := by
    rcases List.mem_cons.mp hq' with rfl | hq
    · exact Or.inr (μ.unborn _ le_rfl)
    · exact Or.inl hq

theorem swaps_skip (F : List ℕ) (μ : Memory ν) : Swaps F F μ μ.skip :=
  ⟨Nat.le_succ _, fun _ _ _ => rfl, fun _ h h' => absurd h h', fun _ h => Or.inl h⟩

theorem swaps_drop {F : List ℕ} {μ : Memory ν} {p : ℕ} (hp : p ∉ F) :
    Swaps (p :: F) F μ (μ.drop p) where
  next := le_rfl
  same q hq _ := μ.cells_drop_of_ne fun heq => hq (heq ▸ List.mem_cons_self)
  freed q hq hq' := by
    rcases List.mem_cons.mp hq with rfl | hq
    · exact μ.cells_drop_self
    · exact absurd hq hq'
  born _ hq := Or.inl (List.mem_cons_of_mem _ hq)

section Composition

variable {F F' : List ℕ} {μ μ' : Memory ν}

/-- **Frame rule**: a larger footprint, of which the rest stays. -/
theorem Swaps.append (h : Swaps F F' μ μ') (R : List ℕ) : Swaps (F ++ R) (F' ++ R) μ μ' where
  next := h.next
  same p hp hp' := by
    rw [List.mem_append, not_or] at hp hp'
    exact h.same p hp.1 hp'.1
  freed p hp hp' := by
    rw [List.mem_append, not_or] at hp'
    exact h.freed p ((List.mem_append.mp hp).resolve_right hp'.2) hp'.1
  born p hp' := by
    rcases List.mem_append.mp hp' with hp' | hR
    · exact (h.born p hp').imp_left (List.mem_append_left _)
    · exact Or.inl (List.mem_append_right _ hR)

/-- Changes within a footprint are changes within a larger one. -/
theorem Swaps.widen {G : List ℕ} (h : Swaps F F μ μ') (hFG : F ⊆ G) : Swaps G G μ μ' where
  next := h.next
  same p hp _ := h.same p (fun hin => hp (hFG hin)) fun hin => hp (hFG hin)
  freed _ hp hp' := absurd hp hp'
  born _ hp := Or.inl hp

end Composition

/-- Objects of different contents are different. -/
theorem Memory.ne_of_cells {μ : Memory ν} {p q : ℕ} {u v : ν} (hp : μ.cells p = some u)
    (hq : μ.cells q = some v) (hne : u ≠ v) : p ≠ q := by
  rintro rfl
  exact hne (Option.some.inj (hp.symm.trans hq))

/-- An object is freed if there is one: it was in the footprint, and is not any more. -/
theorem Procedure.meets_freeOpt_bind {μ : Memory ν} {Q : α → Memory ν → Prop} {F : List ℕ}
    {q : Option ℕ} {f : Unit → Procedure ν α} (hlive : ∀ p, q = some p → μ.cells p ≠ none)
    (hnot : ∀ p, q = some p → p ∉ F)
    (h : ∀ μ', (∀ p, q ≠ some p → μ'.cells p = μ.cells p) → Swaps (q.toList ++ F) F μ μ' →
      Meets (f ()) μ' Q) :
    Meets (freeOpt q >>= f) μ Q := by
  cases q with
  | none => exact h μ (fun _ _ => rfl) (Swaps.refl F μ)
  | some p =>
    apply meets_free_bind (hlive p rfl)
    apply h
    · intro p' hp'
      exact μ.cells_drop_of_ne fun heq => hp' (congrArg some heq.symm)
    · exact swaps_drop (hnot p rfl)
