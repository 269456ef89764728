/-
# Programs over a state: weakest preconditions and step relations

A stateful routine is a `StateM σ α`.  Two ways of reasoning about it are used
throughout the development:

* `wp m Q s` — running `m` from `s` ends with a result and a state satisfying
  `Q`; the rules below push `wp` through the constructors of a program, so that
  a routine is executed symbolically and a call is replaced by its spec
  (`wp_mono`); `alongside` does the same for two programs with a common start;
* `Within R m` — every run of `m` moves the state along the relation `R`.  For a
  reflexive and transitive `R` this composes (`within_bind`), which makes it the
  right notion for frame conditions ("these fields are untouched"); an invariant
  is the special case `Keeps`.

Nothing here mentions a particular program.
-/
import Mathlib.Data.List.Basic
import Mathlib.Order.Defs.Unbundled

namespace Program

variable {σ α β : Type}

/-! ## Weakest preconditions -/

/-- The weakest precondition of a run: result and final state satisfy `Q`. -/
def wp (m : StateM σ α) (Q : α → σ → Prop) (s : σ) : Prop :=
  Q (m s).1 (m s).2

@[simp] theorem wp_pure (a : α) (Q : α → σ → Prop) (s : σ) :
    wp (pure a) Q s = Q a s := rfl

@[simp] theorem wp_bind (m : StateM σ α) (f : α → StateM σ β) (Q : β → σ → Prop) (s : σ) :
    wp (m >>= f) Q s = wp m (fun a => wp (f a) Q) s := rfl

@[simp] theorem wp_get (Q : σ → σ → Prop) (s : σ) :
    wp (get : StateM σ σ) Q s = Q s s := rfl

@[simp] theorem wp_modify (f : σ → σ) (Q : PUnit → σ → Prop) (s : σ) :
    wp (modify f : StateM σ PUnit) Q s = Q ⟨⟩ (f s) := rfl

/-- A weaker postcondition: this is how the spec of a callee is used. -/
theorem wp_mono {m : StateM σ α} {P Q : α → σ → Prop} {s : σ}
    (h : wp m P s) (hPQ : ∀ a t, P a t → Q a t) : wp m Q s :=
  hPQ _ _ h

/-- Two facts about the same run hold together. -/
theorem wp_and {m : StateM σ α} {P Q : α → σ → Prop} {s : σ}
    (hP : wp m P s) (hQ : wp m Q s) : wp m (fun a t => P a t ∧ Q a t) s :=
  ⟨hP, hQ⟩

/-- Only what a program does from `s` matters. -/
theorem wp_congr {m m' : StateM σ α} {s : σ} (h : m s = m' s) (Q : α → σ → Prop) :
    wp m Q s = wp m' Q s := by
  rw [wp, wp, h]

/-! ## Two programs from one state -/

/-- A second program is run from the same state as the first, for its result. -/
def alongside (m : StateM σ α) (m' : StateM σ β) (Q : α → σ → β → Prop) (s : σ) : Prop :=
  Q (m s).1 (m s).2 (m' s).1

variable {γ : Type}

/-- As long as they do the same, they are run together. -/
theorem alongside_bind (m : StateM σ γ) (f : γ → StateM σ α) (g : γ → StateM σ β)
    (Q : α → σ → β → Prop) (s : σ) : alongside (m >>= f) (m >>= g) Q s =
      wp m (fun a t => alongside (f a) (g a) Q t) s := rfl

/-- The first program is done when the second goes on. -/
theorem alongside_bind_right (m : StateM σ α) (g : α → StateM σ β)
    (Q : α → σ → β → Prop) (s : σ) : alongside m (m >>= g) Q s =
      wp m (fun a t => Q a t (g a t).1) s := rfl

/-- What is known about both, used for the rest of the first. -/
theorem alongside_bind_left {m : StateM σ γ} {m' : StateM σ β} {f : γ → StateM σ α}
    {P : γ → σ → β → Prop} {Q : α → σ → β → Prop} {s : σ} (h : alongside m m' P s)
    (hf : ∀ a t b, P a t b → wp (f a) (fun a' u => Q a' u b) t) :
    alongside (m >>= f) m' Q s :=
  hf _ _ _ h

/-! ## Programs that move within a relation -/

/-- Every run of `m` moves the state along `R`. -/
def Within (R : σ → σ → Prop) (m : StateM σ α) : Prop :=
  ∀ s, R s (m s).2

variable {R : σ → σ → Prop}

theorem Within.wp {m : StateM σ α} (hm : Within R m) (s : σ) :
    Program.wp m (fun _ t => R s t) s :=
  hm s

theorem within_pure [Std.Refl R] (a : α) : Within R (pure a : StateM σ α) :=
  fun s => Std.Refl.refl s

theorem within_get [Std.Refl R] : Within R (get : StateM σ σ) :=
  fun s => Std.Refl.refl s

theorem within_bind [IsTrans σ R] {m : StateM σ α} {f : α → StateM σ β}
    (hm : Within R m) (hf : ∀ a, Within R (f a)) : Within R (m >>= f) :=
  fun s => IsTrans.trans _ _ _ (hm s) (hf _ _)

/-- A program that first reads the state may use what it read. -/
theorem within_get_bind {f : σ → StateM σ α}
    (h : ∀ s, R s (f s s).2) : Within R (get >>= f) := h

theorem within_ite {p : Prop} [Decidable p] {m m' : StateM σ α}
    (hm : Within R m) (hm' : Within R m') : Within R (if p then m else m') := by
  split
  · exact hm
  · exact hm'

theorem Within.mono {R' : σ → σ → Prop} {m : StateM σ α} (hm : Within R m)
    (h : ∀ s t, R s t → R' s t) : Within R' m :=
  fun s => h _ _ (hm s)

/-- The step relation of an invariant: if it held before, it holds after. -/
def Keeping (I : σ → Prop) (s t : σ) : Prop := I s → I t

instance (I : σ → Prop) : Std.Refl (Keeping I) := ⟨fun _ h => h⟩

instance (I : σ → Prop) : IsTrans σ (Keeping I) := ⟨fun _ _ _ h h' hs => h' (h hs)⟩

/-- `m` keeps the invariant `I`. -/
abbrev Keeps (I : σ → Prop) (m : StateM σ α) : Prop := Within (Keeping I) m

theorem Keeps.wp {I : σ → Prop} {m : StateM σ α} (hm : Keeps I m) {s : σ} (hs : I s) :
    Program.wp m (fun _ t => I t) s :=
  hm s hs

end Program
