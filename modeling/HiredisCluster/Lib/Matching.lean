/-
# Lists that match element by element

`List.Forall₂ R as bs` says that the elements of two lists are related one by one.  What one
list has, the other one then has as well.
-/
import Mathlib.Data.List.Forall2
import Mathlib.Data.List.Perm.Basic

namespace Matching

variable {α β : Type*} {R : α → β → Prop} {as : List α} {bs : List β}

theorem exists_left (h : List.Forall₂ R as bs) {b : β} (hb : b ∈ bs) : ∃ a ∈ as, R a b := by
  induction h with
  | nil => cases hb
  | cons hab _ ih =>
    rcases List.mem_cons.mp hb with rfl | hb
    · exact ⟨_, List.mem_cons_self, hab⟩
    · obtain ⟨a, ha, hr⟩ := ih hb
      exact ⟨a, List.mem_cons_of_mem _ ha, hr⟩

theorem exists_right (h : List.Forall₂ R as bs) {a : α} (ha : a ∈ as) : ∃ b ∈ bs, R a b :=
  exists_left h.flip ha

/-- What holds pairwise of one list holds of the other. -/
theorem pairwise {S : α → α → Prop} {T : β → β → Prop} (h : List.Forall₂ R as bs)
    (hST : ∀ {a a' b b'}, R a b → R a' b' → S a a' → T b b') (hs : as.Pairwise S) :
    bs.Pairwise T := by
  induction h with
  | nil => exact List.Pairwise.nil
  | cons hab hrest ih =>
    obtain ⟨ha, hs⟩ := List.pairwise_cons.mp hs
    refine List.pairwise_cons.mpr ⟨fun b' hb' => ?_, ih hs⟩
    obtain ⟨a', ha', hr⟩ := exists_left hrest hb'
    exact hST hab hr (ha a' ha')

/-- One list may be reordered with the other. -/
theorem exists_perm {bs' : List β} (h : List.Forall₂ R as bs) (hp : bs'.Perm bs) :
    ∃ as', as'.Perm as ∧ List.Forall₂ R as' bs' := by
  obtain ⟨as', hr, hp'⟩ := List.perm_comp_forall₂ hp h.flip
  exact ⟨as', hp', hr.flip⟩

end Matching
