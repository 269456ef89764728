/-
# Machines that step until they halt

A machine is a step function `f : σ → σ`; a halted state is one on which `f`
makes no further difference.  The rules here turn a statement about one step
into a statement about every state of a run:

* `iterate_guarded` — an invariant that one step preserves wherever a guard
  holds is true all along a run that satisfies the guard;
* `halted_of_measure` — a measure that every step from a state that has not
  halted decreases bounds the length of the run.
-/
import Mathlib.Logic.Function.Iterate
import Mathlib.Data.Nat.Notation

namespace Machine

variable {σ : Type*} {f : σ → σ}

/-- **Guarded invariants.**  If every step from a guarded state preserves `I`,
and every state of the run is guarded, then `I` holds all along the run. -/
theorem iterate_guarded {I G : σ → Prop} (hstep : ∀ s, G s → I s → I (f s)) {s : σ}
    (hG : ∀ n, G (f^[n] s)) (hI : I s) (n : ℕ) : I (f^[n] s) := by
  induction n with
  | zero => exact hI
  | succ n ih =>
    rw [Function.iterate_succ_apply']
    exact hstep _ (hG n) ih

/-- A halted state stays halted. -/
theorem iterate_halted {halted : σ → Prop} (hstop : ∀ s, halted s → f s = s) {s : σ}
    (hs : halted s) (n : ℕ) : f^[n] s = s := by
  induction n with
  | zero => rfl
  | succ n ih => rw [Function.iterate_succ_apply, hstop s hs, ih]

/-- **Halting.**  If every step from a state that has not halted decreases the
measure, a run as long as the measure of its first state has halted. -/
theorem halted_of_measure {halted : σ → Prop} {I : σ → Prop} {μ : σ → ℕ}
    (hstop : ∀ s, halted s → f s = s) (hI : ∀ s, I s → I (f s))
    (hdec : ∀ s, I s → halted s ∨ μ (f s) < μ s) :
    ∀ n s, I s → μ s ≤ n → halted (f^[n] s) := by
  intro n
  induction n with
  | zero =>
    intro s hs hμ
    rcases hdec s hs with h | h
    · exact h
    · omega
  | succ n ih =>
    intro s hs hμ
    rw [Function.iterate_succ_apply]
    rcases hdec s hs with h | h
    · rw [hstop s h, iterate_halted hstop h]
      exact h
    · exact ih _ (hI s hs) (by omega)

end Machine
