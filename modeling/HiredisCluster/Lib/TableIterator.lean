/-
# Iterators over chained hash tables

An iterator keeps the number of its bucket and pointers to two entries, the one it has
returned last and the one behind it; the chains themselves are those of the table, as they
are when the iterator moves on.  An insertion that finds room puts an entry at the front of
a chain and leaves the others as they are; an insertion into a full table links all chains
anew.

`remaining` is what is still to come.  A step of the iterator takes its first entry
(`next_remaining`); an insertion that finds room adds at most the new one to it
(`remaining_add`).
-/
import HiredisCluster.Lib.HashTable

variable {κ α : Type}

namespace HashTable

variable {hash : κ → ℕ} [DecidableEq κ]

/-- The chain of a bucket from the entry with key `k` on. -/
def chainFrom (t : HashTable κ α hash) (k : κ) : List (κ × α) :=
  (t.buckets.getD (hash k % t.size) []).dropWhile fun e => e.1 ≠ k

/-- The entry behind the one with key `k` in its chain. -/
def behind (t : HashTable κ α hash) (k : κ) : Option (κ × α) := (t.chainFrom k).tail.head?

omit [DecidableEq κ] in
theorem nodup_of_bucket (t : HashTable κ α hash) (i : ℕ) :
    ((t.buckets.getD i []).map Prod.fst).Nodup := by
  rw [List.getD_eq_getElem?_getD]
  cases hb : t.buckets[i]? with
  | none => exact List.nodup_nil
  | some b =>
    exact (((List.sublist_flatten_of_mem (List.mem_of_getElem? hb)).map Prod.fst).nodup t.nodup)

theorem dropWhile_of_nodup {b pre post : List (κ × α)} {e : κ × α}
    (hb : (b.map Prod.fst).Nodup) (h : b = pre ++ e :: post) :
    (b.dropWhile fun x => x.1 ≠ e.1) = e :: post := by
  subst h
  induction pre with
  | nil => exact List.dropWhile_cons_of_neg (by simp)
  | cons x pre ih =>
    rw [List.cons_append, List.map_cons, List.nodup_cons] at hb
    have hne : x.1 ≠ e.1 := by
      intro heq
      exact hb.1 (by rw [heq, List.map_append]; exact List.mem_append_right _ List.mem_cons_self)
    rw [List.cons_append, List.dropWhile_cons_of_pos (by simpa using hne)]
    exact ih hb.2

/-- The chain of an entry begins with it, and what follows is the chain of the next. -/
theorem chainFrom_of_mem (t : HashTable κ α hash) {e : κ × α} (he : e ∈ t.entries) :
    ∃ rest, t.chainFrom e.1 = e :: rest ∧ t.behind e.1 = rest.head? ∧
      ∀ e', rest.head? = some e' → e' ∈ t.entries ∧ t.chainFrom e'.1 = rest := by
  have hmem := (t.mem_entries_iff e).mp he
  have hnodup := t.nodup_of_bucket (hash e.1 % t.size)
  obtain ⟨pre, rest, hsplit⟩ := List.append_of_mem hmem
  have hchain : t.chainFrom e.1 = e :: rest := dropWhile_of_nodup hnodup hsplit
  refine ⟨rest, hchain, by rw [behind, hchain, List.tail_cons], fun e' he' => ?_⟩
  obtain ⟨post, rfl⟩ : ∃ post, rest = e' :: post := by
    cases rest with
    | nil => cases he'
    | cons x post =>
      obtain rfl := Option.some.inj he'
      exact ⟨post, rfl⟩
  have hin : e' ∈ t.buckets.getD (hash e.1 % t.size) [] := by rw [hsplit]; simp
  -- the next entry lies in the same bucket
  have hplace : hash e'.1 % t.size = hash e.1 % t.size := by
    rw [List.getD_eq_getElem?_getD] at hin
    cases hb : t.buckets[hash e.1 % t.size]? with
    | none =>
      rw [hb] at hin
      cases hin
    | some b =>
      rw [hb] at hin
      exact t.placed _ b hb e' hin
  refine ⟨(t.mem_entries_iff e').mpr (by rw [hplace]; exact hin), ?_⟩
  rw [chainFrom, hplace]
  have hsplit' : t.buckets.getD (hash e.1 % t.size) [] = (pre ++ [e]) ++ e' :: post := by
    rw [hsplit, List.append_assoc, List.singleton_append]
  exact dropWhile_of_nodup hnodup hsplit'

/-- The table is not full: an insertion links no chain anew. -/
def HasRoom (t : HashTable κ α hash) : Prop := t.entries.length ≠ t.size

instance (t : HashTable κ α hash) : Decidable t.HasRoom :=
  inferInstanceAs (Decidable (_ ≠ _))

omit [DecidableEq κ] in
theorem HasRoom.size_ne_zero {t : HashTable κ α hash} (h : t.HasRoom) : t.size ≠ 0 := by
  intro hzero
  refine h ?_
  rw [entries, List.length_eq_zero_iff.mp hzero, hzero]
  rfl

theorem size_add {t t' : HashTable κ α hash} {k : κ} {v : α} (h : t.add k v = some t') :
    t'.size = t.grownSize := by
  rw [size, buckets_of_add h, Buckets.length_push]
  exact t.size_expandIfNeeded

theorem size_le_add {t t' : HashTable κ α hash} {k : κ} {v : α} (h : t.add k v = some t') :
    t.size ≤ t'.size := by
  rw [size_add h, grownSize]
  split_ifs <;> omega

/-- An insertion that leaves the number of buckets has found room. -/
theorem hasRoom_of_add {t t' : HashTable κ α hash} {k : κ} {v : α} (h : t.add k v = some t')
    (hsame : t'.size = t.size) : t.HasRoom := by
  intro hfull
  rw [size_add h, grownSize] at hsame
  split_ifs at hsame <;> omega

/-- An insertion that finds room puts the entry at the front of its chain. -/
theorem buckets_add {t t' : HashTable κ α hash} {k : κ} {v : α} (h : t.add k v = some t')
    (hroom : t.HasRoom) : t'.buckets = Buckets.push hash t.buckets (k, v) := by
  have hsame : t.expandIfNeeded = t := by
    unfold expandIfNeeded
    rw [dif_pos]
    unfold grownSize
    rw [if_neg hroom.size_ne_zero, if_neg hroom]
  rw [buckets_of_add h, hsame]

/-- The chains of other entries are as they were. -/
theorem chainFrom_add {t t' : HashTable κ α hash} {k : κ} {v : α} (h : t.add k v = some t')
    (hroom : t.HasRoom) {k' : κ} (hk : k' ≠ k) : t'.chainFrom k' = t.chainFrom k' := by
  have hbuckets := buckets_add h hroom
  have hsize : t'.size = t.size := by
    rw [size, hbuckets, Buckets.length_push]
    rfl
  rw [chainFrom, chainFrom, hsize, hbuckets, List.getD_eq_getElem?_getD, List.getD_eq_getElem?_getD,
    Buckets.push, List.getElem?_modify]
  cases t.buckets[hash k' % t.size]? with
  | none => rfl
  | some b =>
    simp only [Option.getD_some]
    split
    · exact List.dropWhile_cons_of_pos (by simpa using hk.symm)
    · rfl

end HashTable

/-! ## The iterator -/

/-- A place in an iteration: the bucket, the current entry, and the one behind it when that
was reached.  Entries stay where they are in memory, so that a pointer is the entry. -/
structure TableIterator (κ α : Type) where
  index : ℤ
  entry : Option (κ × α)
  nextEntry : Option (κ × α)
  deriving DecidableEq

namespace TableIterator

/-- Before the first entry. -/
def start : TableIterator κ α := ⟨-1, none, none⟩

/-- Go through the buckets from `index` on to the first that is not empty. -/
def scan (nextEntry : Option (κ × α)) :
    ℤ → List (List (κ × α)) → Option (κ × α) × TableIterator κ α
  | index, [] => (none, ⟨index, none, nextEntry⟩)
  | index, [] :: bs => scan nextEntry (index + 1) bs
  | index, (e :: chain) :: _ => (some e, ⟨index, some e, chain.head?⟩)

variable {hash : κ → ℕ} [DecidableEq κ]

/-- The next entry of the table. -/
def next (t : HashTable κ α hash) (c : TableIterator κ α) : Option (κ × α) × TableIterator κ α :=
  match c.entry, c.nextEntry with
  | some _, some e => (some e, ⟨c.index, some e, t.behind e.1⟩)
  | _, _ => scan c.nextEntry (c.index + 1) (t.buckets.drop (c.index + 1).toNat)

/-- What is left of the current chain. -/
def ahead (t : HashTable κ α hash) (c : TableIterator κ α) : List (κ × α) :=
  match c.entry, c.nextEntry with
  | some _, some e => t.chainFrom e.1
  | _, _ => []

/-- The entries that are still to come. -/
def remaining (t : HashTable κ α hash) (c : TableIterator κ α) : List (κ × α) :=
  c.ahead t ++ (t.buckets.drop (c.index + 1).toNat).flatten

/-- The entry behind the current one is in the table. -/
structure Valid (t : HashTable κ α hash) (c : TableIterator κ α) : Prop where
  index : -1 ≤ c.index
  mem : c.entry ≠ none → ∀ e, c.nextEntry = some e → e ∈ t.entries

omit [DecidableEq κ] in
theorem valid_start (t : HashTable κ α hash) : Valid t start := ⟨Int.le_refl _, fun h => absurd rfl h⟩

theorem remaining_start (t : HashTable κ α hash) : remaining t start = t.entries := by
  simp [remaining, ahead, start, HashTable.entries]

omit [DecidableEq κ] in
theorem scan_index (nextEntry : Option (κ × α)) (bs : List (List (κ × α))) :
    ∀ i : ℤ, i ≤ (scan nextEntry i bs).2.index := by
  induction bs with
  | nil => exact fun i => Int.le_refl i
  | cons b bs ih =>
    intro i
    cases b with
    | nil => exact Int.le_trans (by omega) (ih (i + 1))
    | cons e chain => exact Int.le_refl i

theorem index_next (t : HashTable κ α hash) (c : TableIterator κ α) : c.index ≤ (next t c).2.index := by
  unfold next
  split
  · exact Int.le_refl _
  · exact Int.le_trans (by omega) (scan_index _ _ _)

omit [DecidableEq κ] in
theorem entry_scan {nextEntry : Option (κ × α)} {bs : List (List (κ × α))} : ∀ {i : ℤ},
    (scan nextEntry i bs).2.entry = (scan nextEntry i bs).1 := by
  induction bs with
  | nil => exact rfl
  | cons b bs ih =>
    intro i
    cases b with
    | nil => exact ih
    | cons e chain => rfl

/-- The current entry is the one that was returned last. -/
theorem entry_next (t : HashTable κ α hash) (c : TableIterator κ α) :
    (next t c).2.entry = (next t c).1 := by
  unfold next
  split
  · rfl
  · exact entry_scan

theorem scan_remaining (t : HashTable κ α hash) (nextEntry : Option (κ × α)) :
    ∀ (bs : List (List (κ × α))) (i : ℤ), 0 ≤ i → t.buckets.drop i.toNat = bs →
      Valid t (scan nextEntry i bs).2 ∧ (scan nextEntry i bs).1 = bs.flatten.head? ∧
        remaining t (scan nextEntry i bs).2 = bs.flatten.tail := by
  intro bs
  induction bs with
  | nil =>
    intro i hi hbs
    have hlen : t.buckets.length ≤ i.toNat := List.drop_eq_nil_iff.mp hbs
    have hdrop : t.buckets.drop (i + 1).toNat = [] := List.drop_eq_nil_of_le (by omega)
    refine ⟨⟨by show -1 ≤ i; omega, fun h => absurd rfl h⟩, rfl, ?_⟩
    simp [scan, remaining, ahead, hdrop]
  | cons b bs ih =>
    intro i hi hbs
    have hnext : t.buckets.drop (i + 1).toNat = bs := by
      have := congrArg List.tail hbs
      rwa [List.tail_drop, List.tail_cons, show i.toNat + 1 = (i + 1).toNat by omega] at this
    cases b with
    | nil => exact ih (i + 1) (by omega) hnext
    | cons e chain =>
      have he : e ∈ t.entries := by
        refine List.mem_flatten.mpr ⟨e :: chain, ?_, List.mem_cons_self⟩
        exact List.mem_of_mem_drop (by rw [hbs]; exact List.mem_cons_self)
      have hget : t.buckets[i.toNat]? = some (e :: chain) := by
        have := congrArg List.head? hbs
        rwa [List.head?_drop, List.head?_cons] at this
      have hbucket : t.buckets.getD (hash e.1 % t.size) [] = e :: chain := by
        rw [HashTable.size, t.placed _ _ hget e List.mem_cons_self, List.getD_eq_getElem?_getD, hget]
        rfl
      have hchain : t.chainFrom e.1 = e :: chain := by
        rw [HashTable.chainFrom, hbucket]
        exact List.dropWhile_cons_of_neg (by simp)
      obtain ⟨rest, hrest, -, hhead⟩ := t.chainFrom_of_mem he
      obtain rfl := (List.cons.inj (hrest.symm.trans hchain)).2
      refine ⟨⟨by show -1 ≤ i; omega, fun _ e' he' => (hhead e' he').1⟩, rfl, ?_⟩
      have hahead : ahead t ⟨i, some e, rest.head?⟩ = rest := by
        unfold ahead
        cases hr : rest.head? with
        | none => exact (List.head?_eq_none_iff.mp hr).symm
        | some e' => exact (hhead e' hr).2
      show ahead t ⟨i, some e, rest.head?⟩ ++ (t.buckets.drop (i + 1).toNat).flatten = _
      rw [hahead, hnext]
      rfl

/-- **An iteration goes through what remains**, entry by entry. -/
theorem next_remaining (t : HashTable κ α hash) {c : TableIterator κ α} (h : Valid t c) :
    Valid t (next t c).2 ∧ (next t c).1 = (remaining t c).head? ∧
      remaining t (next t c).2 = (remaining t c).tail := by
  obtain ⟨index, entry, nextEntry⟩ := c
  have hscan := scan_remaining t nextEntry _ (index + 1) (by have := h.index; dsimp only at this; omega) rfl
  cases entry with
  | none => exact hscan
  | some x =>
    cases nextEntry with
    | none => exact hscan
    | some e =>
      obtain ⟨rest, hchain, hbehind, hhead⟩ := t.chainFrom_of_mem (h.mem (by simp) e rfl)
      refine ⟨⟨h.index, fun _ e' he' => (hhead e' (hbehind.symm.trans he')).1⟩, ?_, ?_⟩
      · show some e = (t.chainFrom e.1 ++ _).head?
        rw [hchain]
        rfl
      · show ahead t ⟨index, some e, t.behind e.1⟩ ++ _ = (t.chainFrom e.1 ++ _).tail
        rw [hchain, List.cons_append, List.tail_cons, hbehind]
        refine congrArg (· ++ _) ?_
        unfold ahead
        cases hr : rest.head? with
        | none => exact (List.head?_eq_none_iff.mp hr).symm
        | some e' => exact (hhead e' hr).2

/-- What is still to come is in the table. -/
theorem remaining_subset (t : HashTable κ α hash) (c : TableIterator κ α) :
    remaining t c ⊆ t.entries := by
  have hdrop : (t.buckets.drop (c.index + 1).toNat).flatten ⊆ t.entries := by
    intro e he
    obtain ⟨b, hb, he⟩ := List.mem_flatten.mp he
    exact List.mem_flatten.mpr ⟨b, List.mem_of_mem_drop hb, he⟩
  have hahead : ahead t c ⊆ t.entries := by
    unfold ahead
    split
    · rename_i e _ _
      apply List.Subset.trans (List.dropWhile_sublist _).subset
      rw [List.getD_eq_getElem?_getD]
      cases hb : t.buckets[hash e.1 % t.size]? with
      | none => exact List.nil_subset _
      | some b => exact (List.sublist_flatten_of_mem (List.mem_of_getElem? hb)).subset
    · exact List.nil_subset _
  exact List.append_subset_of_subset_of_subset hahead hdrop

/-! ## Insertions -/

section Insertions

variable {t t' : HashTable κ α hash} {k : κ} {v : α}

theorem Valid.add {c : TableIterator κ α} (hc : Valid t c) (h : t.add k v = some t') : Valid t' c :=
  ⟨hc.index, fun hentry e he => (HashTable.mem_entries_add h e).mpr (Or.inr (hc.mem hentry e he))⟩

omit [DecidableEq κ] in
/-- Behind a bucket there is at most one more entry. -/
theorem drop_push_perm (hash : κ → ℕ) (bs : List (List (κ × α))) (e : κ × α) (m : ℕ) :
    ((Buckets.push hash bs e).drop m).flatten.Perm (bs.drop m).flatten ∨
      ((Buckets.push hash bs e).drop m).flatten.Perm (e :: (bs.drop m).flatten) := by
  unfold Buckets.push
  generalize hash e.1 % bs.length = i
  by_cases hlt : i < m
  · left
    rw [List.drop_modify_of_lt _ _ _ _ hlt]
  · rw [List.drop_modify_of_ge _ _ _ _ (Nat.not_lt.mp hlt)]
    by_cases hi : i - m < (bs.drop m).length
    · exact Or.inr (Buckets.flatten_modify_perm _ e _ hi)
    · rw [List.modify_eq_self (Nat.not_lt.mp hi)]
      exact Or.inl (List.Perm.refl _)

/-- **An insertion that finds room adds at most the new entry to what is still to come.** -/
theorem remaining_add {c : TableIterator κ α} (hc : Valid t c) (h : t.add k v = some t')
    (hroom : t.HasRoom) : (remaining t' c).Perm (remaining t c) ∨
      (remaining t' c).Perm ((k, v) :: remaining t c) := by
  have hahead : ahead t' c = ahead t c := by
    unfold ahead
    split
    · rename_i x e hentry hnext
      refine HashTable.chainFrom_add h hroom fun hk => ?_
      -- the key is new, the entry is not
      have hnone := (HashTable.add_isSome_iff t k v).mp (by rw [h]; rfl)
      have he := hc.mem (by rw [hentry]; simp) e hnext
      exact (HashTable.find_eq_none_iff t k).mp hnone e.2 (by rw [← hk]; exact he)
    · rfl
  unfold remaining
  rw [hahead, HashTable.buckets_add h hroom]
  rcases drop_push_perm hash t.buckets (k, v) (c.index + 1).toNat with hp | hp
  · exact Or.inl (hp.append_left _)
  · exact Or.inr ((hp.append_left _).trans List.perm_middle)

/-- Before the first entry all entries are still to come, and the new one. -/
theorem remaining_start_add (h : t.add k v = some t') :
    (remaining t' start).Perm ((k, v) :: remaining t start) := by
  rw [remaining_start, remaining_start]
  exact HashTable.entries_add_perm h

end Insertions

/-! ## Replaced values -/

/-- The iterator is at the same place when the value of a key has been replaced. -/
def setVal (c : TableIterator κ α) (k : κ) (v : α) : TableIterator κ α :=
  ⟨c.index, c.entry.map fun e => if e.1 = k then (e.1, v) else e,
    c.nextEntry.map fun e => if e.1 = k then (e.1, v) else e⟩

theorem Valid.setVal {t : HashTable κ α hash} {c : TableIterator κ α} (hc : Valid t c) (k : κ)
    (v : α) : Valid (t.setVal k v) (c.setVal k v) where
  index := hc.index
  mem := by
    intro hentry e he
    obtain ⟨e', he', rfl⟩ := Option.map_eq_some_iff.mp he
    have hmem := hc.mem (fun hnone => hentry (by rw [TableIterator.setVal, hnone]; rfl)) e' he'
    rw [t.entries_setVal]
    exact List.mem_map_of_mem hmem

omit [DecidableEq κ] in
/-- A table that has grown has the same entries. -/
theorem Valid.expandIfNeeded {t : HashTable κ α hash} {c : TableIterator κ α} (hc : Valid t c) :
    Valid t.expandIfNeeded c :=
  ⟨hc.index, fun hentry e he => t.entries_expandIfNeeded_perm.mem_iff.mpr (hc.mem hentry e he)⟩

end TableIterator
