/-
# Rings

A doubly linked list as two functions.  Its head and its tail are kept apart from the elements,
like the links of one more element, `none`, that stands before the first and behind the last:
`next none` is the head, `prev none` the tail, and the list is a ring.

Linking an element in and unlinking one change the two functions at the neighbours only
(`LinkRing.insert`, `LinkRing.erase`), at either end of the list as well as in the middle.
-/
import Mathlib.Data.List.Basic
import Mathlib.Data.List.Nodup
import Mathlib.Logic.Function.Basic

variable {ι : Type} {next prev next' prev' : Option ι → Option ι}

/-- From `a` over the elements of `l` to `z`, linked both ways. -/
def LinkPath (next prev : Option ι → Option ι) : Option ι → List ι → Option ι → Prop
  | a, [], z => next a = z ∧ prev z = a
  | a, p :: l, z => next a = some p ∧ prev (some p) = a ∧ LinkPath next prev (some p) l z

/-- The ring with the elements `l`. -/
def LinkRing (next prev : Option ι → Option ι) (l : List ι) : Prop := LinkPath next prev none l none

namespace LinkPath

variable {a z : Option ι} {l l₁ l₂ : List ι} {p : ι}

theorem append_cons : LinkPath next prev a (l₁ ++ p :: l₂) z ↔
    LinkPath next prev a l₁ (some p) ∧ LinkPath next prev (some p) l₂ z := by
  induction l₁ generalizing a with
  | nil => exact ⟨fun ⟨h, h', h''⟩ => ⟨⟨h, h'⟩, h''⟩, fun ⟨⟨h, h'⟩, h''⟩ => ⟨h, h', h''⟩⟩
  | cons q l₁ ih =>
    constructor
    · rintro ⟨h, h', hrest⟩
      exact ⟨⟨h, h', (ih.mp hrest).1⟩, (ih.mp hrest).2⟩
    · rintro ⟨⟨h, h', hrest⟩, hlast⟩
      exact ⟨h, h', ih.mpr ⟨hrest, hlast⟩⟩

/-- The first step. -/
theorem next_first (h : LinkPath next prev a l z) : next a = l.head?.or z := by
  cases l with
  | nil => exact h.1
  | cons p l => exact h.1

/-- The last step. -/
theorem prev_last (h : LinkPath next prev a l z) : prev z = l.getLast?.or a := by
  induction l generalizing a with
  | nil => exact h.2
  | cons p l ih =>
    rw [ih h.2.2, List.getLast?_cons]
    cases l.getLast? <;> rfl

/-- A path the other way. -/
theorem reverse (h : LinkPath next prev a l z) : LinkPath prev next z l.reverse a := by
  induction l generalizing a with
  | nil => exact ⟨h.2, h.1⟩
  | cons p l ih =>
    rw [List.reverse_cons]
    exact append_cons.mpr ⟨ih h.2.2, h.2.1, h.1⟩

/-- **Frame**: a path stays as long as its links do. -/
theorem congr (h : LinkPath next prev a l z) (hnext : next' a = next a)
    (hnexts : ∀ p ∈ l, next' (some p) = next (some p)) (hprev : prev' z = prev z)
    (hprevs : ∀ p ∈ l, prev' (some p) = prev (some p)) : LinkPath next' prev' a l z := by
  induction l generalizing a with
  | nil => exact ⟨hnext.trans h.1, hprev.trans h.2⟩
  | cons p l ih =>
    obtain ⟨h₁, h₂, hrest⟩ := h
    refine ⟨hnext.trans h₁, (hprevs p List.mem_cons_self).trans h₂, ?_⟩
    apply ih hrest (hnexts p List.mem_cons_self)
    · exact fun q hq => hnexts q (List.mem_cons_of_mem p hq)
    · exact fun q hq => hprevs q (List.mem_cons_of_mem p hq)

theorem append_iff : LinkPath next prev a (l₁ ++ l₂) z ↔
    LinkPath next prev a l₁ (l₂.head?.or z) ∧ LinkPath next prev (l₁.getLast?.or a) l₂ z := by
  induction l₁ generalizing a with
  | nil =>
    refine ⟨fun h => ⟨⟨h.next_first, ?_⟩, h⟩, fun h => h.2⟩
    cases l₂ with
    | nil => exact h.2
    | cons p l₂ => exact h.2.1
  | cons p l₁ ih =>
    have hlast : (p :: l₁).getLast?.or a = l₁.getLast?.or (some p) := by
      rw [List.getLast?_cons]
      cases l₁.getLast? <;> rfl
    rw [hlast]
    constructor
    · rintro ⟨h, h', hrest⟩
      exact ⟨⟨h, h', (ih.mp hrest).1⟩, (ih.mp hrest).2⟩
    · rintro ⟨⟨h, h', hrest⟩, hlast⟩
      exact ⟨h, h', ih.mpr ⟨hrest, hlast⟩⟩

/-- The last link of a path leads elsewhere. -/
theorem redirect_last (h : LinkPath next prev a l z) {z' : Option ι} (hnodup : (a :: l.map some).Nodup)
    (hlast : next' (l.getLast?.or a) = z')
    (hnexts : ∀ x ∈ a :: l.map some, x ≠ l.getLast?.or a → next' x = next x)
    (hprev : prev' z' = l.getLast?.or a) (hprevs : ∀ p ∈ l, prev' (some p) = prev (some p)) :
    LinkPath next' prev' a l z' := by
  induction l generalizing a with
  | nil => exact ⟨hlast, hprev⟩
  | cons p l ih =>
    obtain ⟨h₁, h₂, hrest⟩ := h
    have heq : (p :: l).getLast?.or a = l.getLast?.or (some p) := by
      rw [List.getLast?_cons]
      cases l.getLast? <;> rfl
    rw [heq] at hlast hnexts hprev
    rw [List.map_cons, List.nodup_cons] at hnodup
    refine ⟨?_, (hprevs p List.mem_cons_self).trans h₂, ?_⟩
    · rw [hnexts a List.mem_cons_self, h₁]
      -- the last element is not what stands before the first
      intro hcon
      apply hnodup.1
      rw [hcon]
      cases hl : l.getLast? with
      | none => exact List.mem_cons_self
      | some q => exact List.mem_cons_of_mem _ (List.mem_map_of_mem (List.mem_of_getLast? hl))
    · apply ih hrest hnodup.2 hlast
      · exact fun x hx => hnexts x (List.mem_cons_of_mem a hx)
      · exact hprev
      · exact fun q hq => hprevs q (List.mem_cons_of_mem p hq)

/-- The first link of a path comes from elsewhere. -/
theorem redirect_first (h : LinkPath next prev a l z) {a' : Option ι} (hnodup : (z :: l.map some).Nodup)
    (hnext : next' a' = l.head?.or z) (hnexts : ∀ p ∈ l, next' (some p) = next (some p))
    (hfirst : prev' (l.head?.or z) = a')
    (hprevs : ∀ x ∈ z :: l.map some, x ≠ l.head?.or z → prev' x = prev x) :
    LinkPath next' prev' a' l z := by
  cases l with
  | nil => exact ⟨hnext, hfirst⟩
  | cons p l =>
    rw [List.map_cons, List.nodup_cons, List.nodup_cons] at hnodup
    refine ⟨hnext, hfirst, h.2.2.congr (hnexts p List.mem_cons_self)
      (fun q hq => hnexts q (List.mem_cons_of_mem p hq)) ?_ fun q hq => ?_⟩
    · apply hprevs z List.mem_cons_self
      intro hcon
      apply hnodup.1
      rw [hcon]
      exact List.mem_cons_self
    · have hmem := List.mem_map_of_mem (f := some) hq
      apply hprevs (some q) (List.mem_cons_of_mem z (List.mem_cons_of_mem _ hmem))
      intro hcon
      apply hnodup.2.1
      rwa [hcon] at hmem

end LinkPath

namespace LinkRing

variable {l l₁ l₂ : List ι} {p : ι}

theorem head_eq (h : LinkRing next prev l) : next none = l.head? := by
  rw [LinkPath.next_first h, Option.or_none]

theorem tail_eq (h : LinkRing next prev l) : prev none = l.getLast? := by
  rw [LinkPath.prev_last h, Option.or_none]

/-- The neighbours of an element. -/
theorem next_eq (h : LinkRing next prev (l₁ ++ p :: l₂)) : next (some p) = l₂.head? := by
  rw [LinkPath.next_first (LinkPath.append_cons.mp h).2, Option.or_none]

theorem prev_eq (h : LinkRing next prev (l₁ ++ p :: l₂)) : prev (some p) = l₁.getLast? := by
  rw [LinkPath.prev_last (LinkPath.append_cons.mp h).1, Option.or_none]

omit next prev next' prev' in
theorem nodup_ring (h : l.Nodup) : (none :: l.map some).Nodup := by
  rw [List.nodup_cons]
  constructor
  · intro hmem
    obtain ⟨p, -, hp⟩ := List.mem_map.mp hmem
    cases hp
  · exact h.map fun _ _ => Option.some.inj

variable [DecidableEq ι]

/-- **An element is linked in.** -/
theorem insert (p : ι) (l₁ l₂ : List ι) (h : LinkRing next prev (l₁ ++ l₂)) (hnodup : (l₁ ++ p :: l₂).Nodup) :
    LinkRing (Function.update (Function.update next l₁.getLast? (some p)) (some p) l₂.head?)
      (Function.update (Function.update prev l₂.head? (some p)) (some p) l₁.getLast?)
      (l₁ ++ p :: l₂) := by
  obtain ⟨h₁, h₂⟩ := LinkPath.append_iff.mp h
  simp only [Option.or_none] at h₁ h₂
  obtain ⟨hn₁, hn₂, hdisjoint⟩ := List.nodup_append.mp hnodup
  obtain ⟨hp₂, hn₂⟩ := List.nodup_cons.mp hn₂
  have hp₁ : p ∉ l₁ := fun hp => hdisjoint p hp p List.mem_cons_self rfl
  have hlast : l₁.getLast? ≠ some p := fun hcon => hp₁ (List.mem_of_getLast? hcon)
  have hfirst : l₂.head? ≠ some p := fun hcon => hp₂ (List.mem_of_head? hcon)
  apply LinkPath.append_cons.mpr
  constructor
  · apply h₁.redirect_last (nodup_ring hn₁)
    · rw [Option.or_none, Function.update_of_ne hlast, Function.update_self]
    · intro x hx hne
      rw [Option.or_none] at hne
      rw [Function.update_of_ne, Function.update_of_ne hne]
      rintro rfl
      rcases List.mem_cons.mp hx with hx | hx
      · cases hx
      · obtain ⟨q, hq, heq⟩ := List.mem_map.mp hx
        exact hp₁ (Option.some.inj heq ▸ hq)
    · rw [Option.or_none, Function.update_self]
    · intro q hq
      rw [Function.update_of_ne, Function.update_of_ne]
      · intro hcon
        exact hdisjoint q hq q (List.mem_cons_of_mem p (List.mem_of_head? hcon.symm)) rfl
      · rintro hcon
        exact hp₁ (Option.some.inj hcon ▸ hq)
  · apply h₂.redirect_first (nodup_ring hn₂)
    · rw [Option.or_none, Function.update_self]
    · intro q hq
      rw [Function.update_of_ne, Function.update_of_ne]
      · intro hcon
        exact hdisjoint q (List.mem_of_getLast? hcon.symm) q (List.mem_cons_of_mem p hq) rfl
      · intro hcon
        exact hp₂ (Option.some.inj hcon ▸ hq)
    · rw [Option.or_none, Function.update_of_ne hfirst, Function.update_self]
    · intro x hx hne
      rw [Option.or_none] at hne
      rw [Function.update_of_ne, Function.update_of_ne hne]
      rintro rfl
      rcases List.mem_cons.mp hx with hx | hx
      · cases hx
      · obtain ⟨q, hq, heq⟩ := List.mem_map.mp hx
        exact hp₂ (Option.some.inj heq ▸ hq)

/-- **An element is unlinked.** -/
theorem erase (h : LinkRing next prev (l₁ ++ p :: l₂)) (hnodup : (l₁ ++ p :: l₂).Nodup) :
    LinkRing (Function.update next l₁.getLast? l₂.head?) (Function.update prev l₂.head? l₁.getLast?)
      (l₁ ++ l₂) := by
  obtain ⟨h₁, h₂⟩ := LinkPath.append_cons.mp h
  obtain ⟨hn₁, hn₂, hdisjoint⟩ := List.nodup_append.mp hnodup
  obtain ⟨-, hn₂⟩ := List.nodup_cons.mp hn₂
  apply LinkPath.append_iff.mpr
  simp only [Option.or_none]
  constructor
  · apply h₁.redirect_last (nodup_ring hn₁)
    · rw [Option.or_none, Function.update_self]
    · intro x _ hne
      rw [Option.or_none] at hne
      exact Function.update_of_ne hne _ _
    · rw [Option.or_none, Function.update_self]
    · intro q hq
      apply Function.update_of_ne
      intro hcon
      exact hdisjoint q hq q (List.mem_cons_of_mem p (List.mem_of_head? hcon.symm)) rfl
  · apply h₂.redirect_first (nodup_ring hn₂)
    · rw [Option.or_none, Function.update_self]
    · intro q hq
      apply Function.update_of_ne
      intro hcon
      exact hdisjoint q (List.mem_of_getLast? hcon.symm) q (List.mem_cons_of_mem p hq) rfl
    · rw [Option.or_none, Function.update_self]
    · intro x _ hne
      rw [Option.or_none] at hne
      exact Function.update_of_ne hne _ _

end LinkRing
