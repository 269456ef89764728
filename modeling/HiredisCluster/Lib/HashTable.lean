/-
# Chained hash tables

A hash table with separate chaining: an array of buckets, each a list of
entries, a new entry going to the front of its bucket; the table is created with
four buckets on the first insertion and doubled when it holds as many entries as
buckets, re-inserting the old entries in iteration order.

`HashTable κ α hash` carries its own well-formedness: every entry lies in the
bucket of its hash (`placed`) and no key occurs twice (`nodup`), so that a table
is a finite map by construction.  The two facts the clients need are
`find_eq_some_iff` (a lookup finds exactly the entries) and `mem_entries_add`
(an insertion adds exactly one entry).
-/
import Mathlib.Data.List.Basic
import Mathlib.Data.List.Nodup
import Mathlib.Data.List.Perm.Basic
import Mathlib.Data.Int.Notation

variable {κ α : Type}

/-! ## Raw bucket lists -/

namespace Buckets

variable (hash : κ → ℕ)

/-- Every entry lies in the bucket of its hash. -/
def Placed (bs : List (List (κ × α))) : Prop :=
  ∀ i b, bs[i]? = some b → ∀ e ∈ b, hash e.1 % bs.length = i

/-- Put an entry at the front of its bucket. -/
def push (bs : List (List (κ × α))) (e : κ × α) : List (List (κ × α)) :=
  bs.modify (hash e.1 % bs.length) (e :: ·)

/-- Re-insert the entries `es` into `n` fresh buckets. -/
def rehash (n : ℕ) (es : List (κ × α)) : List (List (κ × α)) :=
  es.foldl (push hash) (List.replicate n [])

@[simp] theorem length_push (bs : List (List (κ × α))) (e : κ × α) :
    (push hash bs e).length = bs.length := by
  simp [push]

theorem length_foldl_push (es : List (κ × α)) (bs : List (List (κ × α))) :
    (es.foldl (push hash) bs).length = bs.length := by
  induction es generalizing bs with
  | nil => rfl
  | cons e es ih => rw [List.foldl_cons, ih, length_push]

theorem length_rehash (n : ℕ) (es : List (κ × α)) : (rehash hash n es).length = n := by
  rw [rehash, length_foldl_push, List.length_replicate]

variable {hash}

theorem placed_push {bs : List (List (κ × α))} (h : Placed hash bs) (e : κ × α) :
    Placed hash (push hash bs e) := by
  intro i b hb x hx
  rw [length_push]
  simp only [push, List.getElem?_modify] at hb
  split_ifs at hb with hi
  · obtain ⟨b', hb', rfl⟩ := Option.map_eq_some_iff.mp hb
    rcases List.mem_cons.mp hx with rfl | hx
    · exact hi
    · exact h i b' hb' x hx
  · obtain ⟨b', hb', rfl⟩ := Option.map_eq_some_iff.mp hb
    exact h i b' hb' x hx

theorem placed_rehash (n : ℕ) (es : List (κ × α)) : Placed hash (rehash hash n es) := by
  have key : ∀ bs : List (List (κ × α)), Placed hash bs →
      Placed hash (es.foldl (push hash) bs) := by
    induction es with
    | nil => exact fun bs h => h
    | cons e es ih => exact fun bs h => ih _ (placed_push h e)
  refine key _ fun i b hb x hx => ?_
  rw [List.getElem?_replicate] at hb
  split_ifs at hb
  obtain rfl := Option.some.inj hb
  simp at hx

/-- Pushing to the front of one bucket adds one entry. -/
theorem flatten_modify_perm (bs : List (List (κ × α))) (e : κ × α) :
    ∀ i, i < bs.length → (bs.modify i (e :: ·)).flatten.Perm (e :: bs.flatten) := by
  induction bs with
  | nil => intro i hi; simp at hi
  | cons b bs ih =>
    intro i hi
    cases i with
    | zero => simp
    | succ i =>
      simp only [List.modify_succ_cons, List.flatten_cons]
      have h := ih i (by simpa using hi)
      exact (h.append_left b).trans (List.perm_middle)

theorem flatten_push_perm (hash : κ → ℕ) {bs : List (List (κ × α))} (h : 0 < bs.length)
    (e : κ × α) :
    (push hash bs e).flatten.Perm (e :: bs.flatten) :=
  flatten_modify_perm bs e _ (Nat.mod_lt _ h)

theorem flatten_foldl_push_perm (hash : κ → ℕ) {bs : List (List (κ × α))} (hbs : 0 < bs.length)
    (es : List (κ × α)) : (es.foldl (push hash) bs).flatten.Perm (es ++ bs.flatten) := by
  induction es generalizing bs with
  | nil => exact List.Perm.refl _
  | cons e es ih =>
    rw [List.foldl_cons]
    have h1 := ih (by rwa [length_push] : 0 < (push hash bs e).length)
    have h2 := (flatten_push_perm hash hbs e).append_left es
    exact (h1.trans h2).trans List.perm_middle

theorem flatten_rehash_perm {n : ℕ} (hn : 0 < n) (es : List (κ × α)) :
    (rehash hash n es).flatten.Perm es := by
  have hlen : 0 < (List.replicate n ([] : List (κ × α))).length := by simpa using hn
  have h := flatten_foldl_push_perm hash hlen es
  simpa [rehash] using h

end Buckets

/-! ## The table -/

/-- A chained hash table whose entries are placed by `hash`, without duplicate
keys. -/
structure HashTable (κ α : Type) (hash : κ → ℕ) where
  buckets : List (List (κ × α))
  /-- Every entry lies in the bucket of its hash. -/
  placed : Buckets.Placed hash buckets
  /-- No key occurs twice. -/
  nodup : (buckets.flatten.map Prod.fst).Nodup

namespace HashTable

variable {hash : κ → ℕ}

/-- The table without buckets. -/
def empty : HashTable κ α hash where
  buckets := []
  placed := by intro i b hb; simp at hb
  nodup := by simp

/-- The entries in iteration order: bucket by bucket, front to back. -/
def entries (t : HashTable κ α hash) : List (κ × α) := t.buckets.flatten

/-- The number of buckets. -/
def size (t : HashTable κ α hash) : ℕ := t.buckets.length

/-- The values in iteration order. -/
def vals (t : HashTable κ α hash) : List α := t.entries.map Prod.snd

/-- Look a key up in its bucket. -/
def find [DecidableEq κ] (t : HashTable κ α hash) (k : κ) : Option α :=
  ((t.buckets.getD (hash k % t.size) []).find? (fun e => e.1 = k)).map Prod.snd

/-- The number of buckets an insertion needs: four at first, twice as many when
the table is full. -/
def grownSize (t : HashTable κ α hash) : ℕ :=
  if t.size = 0 then 4 else if t.entries.length = t.size then t.size * 2 else t.size

/-- Grow the table if it is full. -/
def expandIfNeeded (t : HashTable κ α hash) : HashTable κ α hash :=
  if h : t.grownSize = t.size then t
  else
    { buckets := Buckets.rehash hash t.grownSize t.entries
      placed := Buckets.placed_rehash _ _
      nodup := by
        have hpos : 0 < t.grownSize := by
          unfold grownSize at h ⊢
          split_ifs at h ⊢ <;> omega
        exact ((Buckets.flatten_rehash_perm hpos t.entries).map _).nodup_iff.mpr t.nodup }

theorem size_expandIfNeeded (t : HashTable κ α hash) :
    t.expandIfNeeded.size = t.grownSize := by
  unfold expandIfNeeded
  split_ifs with h
  · exact h.symm
  · exact Buckets.length_rehash _ _ _

theorem grownSize_pos (t : HashTable κ α hash) : 0 < t.grownSize := by
  unfold grownSize
  split_ifs <;> omega

theorem entries_expandIfNeeded_perm (t : HashTable κ α hash) :
    t.expandIfNeeded.entries.Perm t.entries := by
  unfold expandIfNeeded
  split_ifs with h
  · exact List.Perm.refl _
  · exact Buckets.flatten_rehash_perm (grownSize_pos t) t.entries

theorem mem_entries_iff (t : HashTable κ α hash) (e : κ × α) :
    e ∈ t.entries ↔ e ∈ t.buckets.getD (hash e.1 % t.size) [] := by
  unfold entries
  rw [List.mem_flatten]
  constructor
  · rintro ⟨b, hb, he⟩
    obtain ⟨i, hi, rfl⟩ := List.mem_iff_getElem.mp hb
    have hib : t.buckets[i]? = some t.buckets[i] := List.getElem?_eq_getElem hi
    have hplace := t.placed i _ hib e he
    rw [List.getD_eq_getElem?_getD, size, hplace, hib]
    exact he
  · intro he
    rw [List.getD_eq_getElem?_getD] at he
    cases hb : t.buckets[hash e.1 % t.size]? with
    | none => rw [hb] at he; simp at he
    | some b =>
      rw [hb] at he
      exact ⟨b, List.mem_of_getElem? hb, he⟩

/-- Two entries with the same key are the same entry. -/
theorem eq_of_mem_entries (t : HashTable κ α hash) {k : κ} {a b : α}
    (ha : (k, a) ∈ t.entries) (hb : (k, b) ∈ t.entries) : a = b := by
  have h := List.inj_on_of_nodup_map t.nodup ha hb rfl
  exact congrArg Prod.snd h

variable [DecidableEq κ]

/-- **A lookup finds exactly the entries.** -/
theorem find_eq_some_iff (t : HashTable κ α hash) (k : κ) (v : α) :
    t.find k = some v ↔ (k, v) ∈ t.entries := by
  unfold find
  rw [Option.map_eq_some_iff]
  constructor
  · rintro ⟨⟨k', v'⟩, hfind, rfl⟩
    have hk : k' = k := by simpa using List.find?_some hfind
    subst hk
    exact (t.mem_entries_iff (k', v')).mpr (List.mem_of_find?_eq_some hfind)
  · intro hmem
    cases hfind : (t.buckets.getD (hash k % t.size) []).find? (fun e => e.1 = k) with
    | none =>
      have hb := (t.mem_entries_iff _).mp hmem
      have := List.find?_eq_none.mp hfind _ hb
      simp at this
    | some e =>
      obtain ⟨k', v'⟩ := e
      have hk : k' = k := by simpa using List.find?_some hfind
      subst hk
      have he := (t.mem_entries_iff (k', v')).mpr (List.mem_of_find?_eq_some hfind)
      exact ⟨_, rfl, t.eq_of_mem_entries he hmem⟩

theorem find_eq_none_iff (t : HashTable κ α hash) (k : κ) :
    t.find k = none ↔ ∀ v, (k, v) ∉ t.entries := by
  constructor
  · intro h v hv
    rw [(t.find_eq_some_iff k v).mpr hv] at h
    simp at h
  · intro h
    cases hf : t.find k with
    | none => rfl
    | some v => exact absurd ((t.find_eq_some_iff k v).mp hf) (h v)

theorem mem_vals_iff (t : HashTable κ α hash) (v : α) : v ∈ t.vals ↔ ∃ k, t.find k = some v := by
  simp only [vals, List.mem_map, Prod.exists, exists_eq_right, find_eq_some_iff]

/-- A value that has no two keys is found under one key. -/
theorem find_inj (t : HashTable κ α hash) (h : t.vals.Nodup) {k k' : κ} {v : α}
    (hk : t.find k = some v) (hk' : t.find k' = some v) : k = k' := by
  rw [find_eq_some_iff] at hk hk'
  exact congrArg Prod.fst (List.inj_on_of_nodup_map h hk hk' rfl)

omit [DecidableEq κ] in
/-- Values that know their keys occur once. -/
theorem nodup_vals (t : HashTable κ α hash) (key : α → κ)
    (h : ∀ k v, (k, v) ∈ t.entries → key v = k) : t.vals.Nodup := by
  refine (List.Nodup.of_map Prod.fst t.nodup).map_on fun e he e' he' heq => ?_
  obtain ⟨k, v⟩ := e
  obtain ⟨k', v'⟩ := e'
  obtain rfl : v = v' := heq
  rw [← h k v he, ← h k' v he']

/-- Insert a new entry; fails when the key is already there. -/
def add (t : HashTable κ α hash) (k : κ) (v : α) : Option (HashTable κ α hash) :=
  if h : t.expandIfNeeded.find k = none then
    some
      { buckets := Buckets.push hash t.expandIfNeeded.buckets (k, v)
        placed := Buckets.placed_push t.expandIfNeeded.placed _
        nodup := by
          have hpos : 0 < t.expandIfNeeded.buckets.length := by
            have := grownSize_pos t
            rwa [← size_expandIfNeeded] at this
          have hperm := (Buckets.flatten_push_perm hash hpos (k, v)).map Prod.fst
          refine hperm.nodup_iff.mpr (List.nodup_cons.mpr ⟨?_, t.expandIfNeeded.nodup⟩)
          intro hk
          obtain ⟨⟨k', v'⟩, hmem, rfl⟩ := List.mem_map.mp hk
          exact (find_eq_none_iff _ _).mp h v' hmem }
  else none

theorem buckets_of_add {t t' : HashTable κ α hash} {k : κ} {v : α} (h : t.add k v = some t') :
    t'.buckets = Buckets.push hash t.expandIfNeeded.buckets (k, v) := by
  unfold add at h
  split_ifs at h with hf
  obtain rfl := Option.some.inj h
  rfl

theorem entries_add_perm {t t' : HashTable κ α hash} {k : κ} {v : α} (h : t.add k v = some t') :
    t'.entries.Perm ((k, v) :: t.entries) := by
  unfold add at h
  split_ifs at h with hf
  obtain rfl := Option.some.inj h
  have hpos : 0 < t.expandIfNeeded.buckets.length := by
    have := grownSize_pos t
    rwa [← size_expandIfNeeded] at this
  exact (Buckets.flatten_push_perm hash hpos (k, v)).trans ((entries_expandIfNeeded_perm t).cons _)

/-- **An insertion adds exactly one entry.** -/
theorem mem_entries_add {t t' : HashTable κ α hash} {k : κ} {v : α} (h : t.add k v = some t')
    (e : κ × α) : e ∈ t'.entries ↔ e = (k, v) ∨ e ∈ t.entries := by
  rw [(entries_add_perm h).mem_iff, List.mem_cons]

/-- A table that has grown has the same entries. -/
theorem find_expandIfNeeded (t : HashTable κ α hash) (k : κ) :
    t.expandIfNeeded.find k = t.find k := by
  apply Option.ext
  intro v
  rw [find_eq_some_iff, find_eq_some_iff]
  exact (entries_expandIfNeeded_perm t).mem_iff

/-- An insertion succeeds exactly when the key is new. -/
theorem add_isSome_iff (t : HashTable κ α hash) (k : κ) (v : α) :
    (t.add k v).isSome ↔ t.find k = none := by
  have h : t.expandIfNeeded.find k = none ↔ t.find k = none := by rw [find_expandIfNeeded]
  unfold add
  split_ifs with hf
  · simpa using h.mp hf
  · simpa using fun hn => hf (h.mpr hn)

/-- After an insertion the new key is found, every other key as before. -/
theorem find_add {t t' : HashTable κ α hash} {k : κ} {v : α} (h : t.add k v = some t') (k' : κ) :
    t'.find k' = if k' = k then some v else t.find k' := by
  split_ifs with hk
  · rw [find_eq_some_iff, mem_entries_add h, hk]
    exact Or.inl rfl
  · have hmem : ∀ u, (k', u) ∈ t'.entries ↔ (k', u) ∈ t.entries := by
      intro u
      rw [mem_entries_add h]
      exact or_iff_right fun hu => hk (congrArg Prod.fst hu)
    cases hf : t.find k' with
    | none =>
      rw [find_eq_none_iff] at hf ⊢
      exact fun u hu => hf u ((hmem u).mp hu)
    | some u => rwa [find_eq_some_iff, hmem, ← find_eq_some_iff]

/-- Replace the value of a key, keeping its place. -/
def setVal (t : HashTable κ α hash) (k : κ) (v : α) : HashTable κ α hash where
  buckets := t.buckets.map (List.map fun e => if e.1 = k then (e.1, v) else e)
  placed := by
    intro i b hb x hx
    rw [List.getElem?_map] at hb
    obtain ⟨b', hb', rfl⟩ := Option.map_eq_some_iff.mp hb
    obtain ⟨y, hy, rfl⟩ := List.mem_map.mp hx
    rw [List.length_map]
    have h := t.placed i b' hb' y hy
    split_ifs <;> exact h
  nodup := by
    have h : (t.buckets.map (List.map fun e => if e.1 = k then (e.1, v) else e)).flatten.map
        Prod.fst = t.buckets.flatten.map Prod.fst := by
      rw [← List.map_flatten, List.map_map]
      apply List.map_congr_left
      intro e _
      simp only [Function.comp]
      split_ifs <;> rfl
    rw [h]
    exact t.nodup

theorem entries_setVal (t : HashTable κ α hash) (k : κ) (v : α) :
    (t.setVal k v).entries = t.entries.map fun e => if e.1 = k then (e.1, v) else e := by
  rw [entries, setVal, ← List.map_flatten]
  rfl

/-- The new value is found, every other key as before. -/
theorem find_setVal (t : HashTable κ α hash) {k : κ} {u : α} (h : t.find k = some u) (v : α)
    (k' : κ) : (t.setVal k v).find k' = if k' = k then some v else t.find k' := by
  have hmem : ∀ e, e ∈ (t.setVal k v).entries ↔
      ∃ e' ∈ t.entries, (if e'.1 = k then (e'.1, v) else e') = e := by
    intro e
    rw [entries_setVal, List.mem_map]
  split_ifs with hk
  · subst hk
    rw [find_eq_some_iff, hmem]
    exact ⟨_, (t.find_eq_some_iff k' u).mp h, if_pos rfl⟩
  · have hiff : ∀ x, (t.setVal k v).find k' = some x ↔ t.find k' = some x := by
      intro x
      rw [find_eq_some_iff, find_eq_some_iff, hmem]
      constructor
      · rintro ⟨⟨k₁, u₁⟩, he, heq⟩
        by_cases h₁ : k₁ = k
        · rw [if_pos h₁] at heq
          exact absurd ((congrArg Prod.fst heq).symm.trans h₁) hk
        · rw [if_neg h₁] at heq
          rwa [← heq]
      · exact fun he => ⟨_, he, if_neg hk⟩
    exact Option.ext hiff

end HashTable
