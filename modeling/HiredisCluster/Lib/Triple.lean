/-
# Hoare triples on the condition that nothing bad happened

A `History` orders the states by how much has happened, and says of which states what has
happened is good: later states have no better history than earlier ones.  A triple of a
history promises its postcondition of the runs whose history is good at their end, so that
what is assumed of the environment is assumed once, at the end of a whole run, and is there
at each state on the way.
-/
import HiredisCluster.Lib.Program

namespace Program

structure History (σ : Type) where
  le : σ → σ → Prop
  refl : ∀ s, le s s
  trans : ∀ {s t u}, le s t → le t u → le s u
  good : σ → Prop
  mono : ∀ {s t}, le s t → good t → good s

namespace History

variable {σ α β : Type} (G : History σ)

/-- Runs of `m` from `I` that end with a good history end in `J`. -/
def Triple (I : σ → Prop) (m : StateM σ α) (J : α → σ → Prop) : Prop :=
  ∀ s, G.le s (m s).2 ∧ (G.good (m s).2 → I s → J (m s).1 (m s).2)

/-- The step relation of an invariant of the runs with a good history. -/
def Guards (I : σ → Prop) (s t : σ) : Prop := G.le s t ∧ (G.good t → I s → I t)

variable {G} {I I' : σ → Prop} {J K : α → σ → Prop} {L : β → σ → Prop}

instance : Std.Refl (G.Guards I) := ⟨fun s => ⟨G.refl s, fun _ h => h⟩⟩

instance : IsTrans σ (G.Guards I) :=
  ⟨fun _ _ _ h h' => ⟨G.trans h.1 h'.1, fun hg hi => h'.2 hg (h.2 (G.mono h'.1 hg) hi)⟩⟩

theorem triple_pure {a : α} (h : ∀ s, I s → J a s) : G.Triple I (pure a) J :=
  fun s => ⟨G.refl s, fun _ => h s⟩

theorem Triple.bind {m : StateM σ α} {f : α → StateM σ β} (hm : G.Triple I m J)
    (hf : ∀ a, G.Triple (J a) (f a) L) : G.Triple I (m >>= f) L := by
  intro s
  have h := hm s
  have h' := hf (m s).1 (m s).2
  exact ⟨G.trans h.1 h'.1, fun hg hi => h'.2 hg (h.2 (G.mono h'.1 hg) hi)⟩

/-- What was read may be used, and what is known of the state with it. -/
theorem triple_get_bind {f : σ → StateM σ β} (h : ∀ s, G.Triple (fun t => t = s ∧ I t) (f s) L) :
    G.Triple I (get >>= f) L :=
  fun s => ⟨(h s s).1, fun hg hi => (h s s).2 hg ⟨rfl, hi⟩⟩

theorem triple_ite {p : Prop} [Decidable p] {m m' : StateM σ α} (hm : p → G.Triple I m J)
    (hm' : ¬ p → G.Triple I m' J) : G.Triple I (if p then m else m') J := by
  by_cases hp : p
  · rw [if_pos hp]
    exact hm hp
  · rw [if_neg hp]
    exact hm' hp

theorem Triple.mono {m : StateM σ α} (hm : G.Triple I m J) (hI : ∀ s, I' s → I s)
    (hJ : ∀ a s, J a s → K a s) : G.Triple I' m K :=
  fun s => ⟨(hm s).1, fun hg hi => hJ _ _ ((hm s).2 hg (hI s hi))⟩

theorem Triple.pre {m : StateM σ α} (hm : G.Triple I m J) (hI : ∀ s, I' s → I s) :
    G.Triple I' m J := hm.mono hI fun _ _ h => h

theorem Triple.post {m : StateM σ α} (hm : G.Triple I m J) (hJ : ∀ a s, J a s → K a s) :
    G.Triple I m K := hm.mono (fun _ h => h) hJ

end History

end Program
