/-
# The dictionary is a hash table

`Holds μ ht tp place T` says that the objects of the dictionary at `ht` are those of the hash
table `T`: its entry for the key `k` is at the address `place k`, and the chains of the table at
`tp` are the buckets.  Each function of `dict.c` has one lemma: from such a memory it comes to an
end without an invalid access, answers as the table does, leaves the dictionary to be the
table that comes out, and changes no object of anybody else.
-/
import HiredisCluster.Dict
import HiredisCluster.Numerals

namespace Dict

open Procedure

variable {κ α : Type} {hash : κ → ℕ}

/-- Where an entry is. -/
def entryAt (place : κ → ℕ) (e : κ × α) : ℕ := place e.1

/-- What an entry looks like. -/
def entryCell (e : κ × α) (next : Option ℕ) : DictObject κ α := .entry ⟨e.1, e.2, next⟩

/-- Where the entries are. -/
def addresses (place : κ → ℕ) (es : List (κ × α)) : List ℕ := es.map (entryAt place)

/-- The chains of the table at `tp`; without a table there are none. -/
inductive Tabled (place : κ → ℕ) (μ : Memory (DictObject κ α)) :
    Option ℕ → List (List (κ × α)) → Prop where
  | null : Tabled place μ none []
  | table {q : ℕ} {heads : List (Option ℕ)} {bs : List (List (κ × α))}
      (cell : μ.cells q = some (.table heads))
      (chains : Chains (entryAt place) entryCell μ heads bs) : Tabled place μ (some q) bs

/-- **The dictionary at `ht` is the hash table `T`.** -/
structure Holds (μ : Memory (DictObject κ α)) (ht : ℕ) (tp : Option ℕ) (place : κ → ℕ)
    (T : HashTable κ α hash) : Prop where
  header : μ.cells ht = some (.dict ⟨tp, T.size, T.size - 1, T.entries.length⟩)
  chains : Tabled place μ tp T.buckets
  nodup : (addresses place T.entries).Nodup
  power : T.size = 0 ∨ 4 ≤ T.size ∧ T.size.isPowerOfTwo
  crowded : T.size ≤ 4 ∨ T.size ≤ 2 * T.entries.length

/-- The objects of a dictionary. -/
def footprint (ht : ℕ) (tp : Option ℕ) (place : κ → ℕ) (es : List (κ × α)) : List ℕ :=
  ht :: (tp.toList ++ addresses place es)

/-! ## Accesses -/

section Accesses

variable {β : Type} {μ : Memory (DictObject κ α)} {Q : β → Memory (DictObject κ α) → Prop}

theorem meets_loadEntry_bind {p : ℕ} {e : DictEntry κ α} {f : DictEntry κ α → DictRoutine κ α β}
    (hp : μ.cells p = some (.entry e)) (h : Meets (f e) μ Q) : Meets (loadEntry p >>= f) μ Q := by
  apply Meets.bind (P := fun e' μ' => e' = e ∧ μ' = μ)
  · apply meets_load_bind hp
    exact meets_pure ⟨rfl, rfl⟩
  · rintro e' μ' ⟨rfl, rfl⟩
    exact h

theorem meets_loadTable_bind {q : ℕ} {heads : List (Option ℕ)}
    {f : List (Option ℕ) → DictRoutine κ α β} (hq : μ.cells q = some (.table heads))
    (h : Meets (f heads) μ Q) : Meets (loadTable (some q) >>= f) μ Q := by
  apply Meets.bind (P := fun heads' μ' => heads' = heads ∧ μ' = μ)
  · apply meets_load_bind hq
    exact meets_pure ⟨rfl, rfl⟩
  · rintro heads' μ' ⟨rfl, rfl⟩
    exact h

theorem meets_storeTable_bind {q : ℕ} {heads : List (Option ℕ)} {f : Unit → DictRoutine κ α β}
    (hq : μ.cells q ≠ none) (h : Meets (f ()) (μ.set q (.table heads) hq) Q) :
    Meets (storeTable (some q) heads >>= f) μ Q :=
  meets_store_bind hq h

theorem meets_loadDict_bind {p : ℕ} {d : DictHeader} {f : DictHeader → DictRoutine κ α β}
    (hp : μ.cells p = some (.dict d)) (h : Meets (f d) μ Q) : Meets (loadDict p >>= f) μ Q := by
  apply Meets.bind (P := fun d' μ' => d' = d ∧ μ' = μ)
  · apply meets_load_bind hp
    exact meets_pure ⟨rfl, rfl⟩
  · rintro d' μ' ⟨rfl, rfl⟩
    exact h

theorem meets_headAt_bind {heads : List (Option ℕ)} {h : ℕ} {p : Option ℕ}
    {f : Option ℕ → DictRoutine κ α β} (hp : heads[h]? = some p) (hf : Meets (f p) μ Q) :
    Meets (headAt heads h >>= f) μ Q := by
  apply Meets.bind (P := fun p' μ' => p' = p ∧ μ' = μ)
  · unfold headAt
    rw [hp]
    exact meets_pure ⟨rfl, rfl⟩
  · rintro p' μ' ⟨rfl, rfl⟩
    exact hf

end Accesses

/-- The mask of a power of two. -/
theorem and_mask {n : ℕ} (h : n.isPowerOfTwo) (x : ℕ) : x &&& (n - 1) = x % n := by
  obtain ⟨k, rfl⟩ := h
  exact Nat.and_two_pow_sub_one_eq_mod x k

section Tables

variable {place : κ → ℕ} {μ μ' : Memory (DictObject κ α)} {tp : Option ℕ}
  {bs : List (List (κ × α))}

theorem Tabled.cell_of_mem (h : Tabled place μ tp bs) {e : κ × α} (he : e ∈ bs.flatten) :
    ∃ next, μ.cells (place e.1) = some (entryCell e next) := by
  cases h with
  | null => exact absurd he List.not_mem_nil
  | table _ chains => exact chains.cell_of_mem he

theorem Tabled.frame (h : Tabled place μ tp bs) (htable : ∀ q, tp = some q → μ'.cells q = μ.cells q)
    (hsame : ∀ e ∈ bs.flatten, μ'.cells (place e.1) = μ.cells (place e.1)) :
    Tabled place μ' tp bs := by
  cases h with
  | null => exact .null
  | table cell chains => exact .table ((htable _ rfl).trans cell) (chains.frame hsame)

theorem Tabled.congr_place {place' : κ → ℕ} (h : Tabled place μ tp bs)
    (hsame : ∀ e ∈ bs.flatten, place' e.1 = place e.1) : Tabled place' μ tp bs := by
  cases h with
  | null => exact .null
  | table cell chains => exact .table cell (chains.congr_addr hsame)

theorem mem_addresses {es : List (κ × α)} {p : ℕ} :
    p ∈ addresses place es ↔ ∃ e ∈ es, place e.1 = p := List.mem_map

@[simp] theorem addresses_nil : addresses place ([] : List (κ × α)) = [] := rfl

@[simp] theorem addresses_cons (e : κ × α) (es : List (κ × α)) :
    addresses place (e :: es) = place e.1 :: addresses place es := rfl

@[simp] theorem addresses_append (es es' : List (κ × α)) :
    addresses place (es ++ es') = addresses place es ++ addresses place es' := List.map_append

theorem addresses_perm (place : κ → ℕ) {es es' : List (κ × α)} (h : es.Perm es') :
    (addresses place es).Perm (addresses place es') := h.map _

theorem addresses_congr {place' : κ → ℕ} {es : List (κ × α)}
    (h : ∀ e ∈ es, place' e.1 = place e.1) : addresses place' es = addresses place es :=
  List.map_congr_left h

theorem mem_footprint {ht p : ℕ} {es : List (κ × α)} :
    p ∈ footprint ht tp place es ↔ p = ht ∨ tp = some p ∨ p ∈ addresses place es := by
  rw [footprint, List.mem_cons, List.mem_append, Option.mem_toList]

/-- An entry of the table has its own object. -/
theorem Holds.cell {ht : ℕ} {T : HashTable κ α hash} (h : Holds μ ht tp place T) {e : κ × α}
    (he : e ∈ T.entries) : ∃ next, μ.cells (place e.1) = some (entryCell e next) :=
  h.chains.cell_of_mem he

theorem Holds.exists_heads {ht : ℕ} {T : HashTable κ α hash} (h : Holds μ ht tp place T) {q : ℕ}
    (hq : tp = some q) : ∃ heads, μ.cells q = some (.table heads) := by
  subst hq
  rcases h.chains with _ | ⟨hcell, _⟩
  exact ⟨_, hcell⟩

/-! The objects of a dictionary are different. -/

theorem Holds.table_ne_dict {ht : ℕ} {T : HashTable κ α hash} (h : Holds μ ht tp place T) :
    tp ≠ some ht := by
  intro heq
  obtain ⟨heads, hcell⟩ := h.exists_heads heq
  exact Memory.ne_of_cells h.header hcell (by simp) rfl

theorem Holds.entry_ne_dict {ht : ℕ} {T : HashTable κ α hash} (h : Holds μ ht tp place T)
    {e : κ × α} (he : e ∈ T.entries) : place e.1 ≠ ht := by
  obtain ⟨next, hcell⟩ := h.cell he
  exact Memory.ne_of_cells hcell h.header (by simp [entryCell])

theorem Holds.entry_ne_table {ht : ℕ} {T : HashTable κ α hash} (h : Holds μ ht tp place T)
    {e : κ × α} (he : e ∈ T.entries) : tp ≠ some (place e.1) := by
  intro heq
  obtain ⟨heads, htable⟩ := h.exists_heads heq
  obtain ⟨next, hcell⟩ := h.cell he
  exact Memory.ne_of_cells hcell htable (by simp [entryCell]) rfl

/-- The objects of a dictionary exist. -/
theorem Holds.live {ht : ℕ} {T : HashTable κ α hash} (h : Holds μ ht tp place T) {p : ℕ}
    (hp : p ∈ footprint ht tp place T.entries) : μ.cells p ≠ none := by
  rcases mem_footprint.mp hp with rfl | rfl | hp
  · rw [h.header]
    simp
  · obtain ⟨heads, hcell⟩ := h.exists_heads rfl
    simp [hcell]
  · obtain ⟨e, he, rfl⟩ := mem_addresses.mp hp
    obtain ⟨next, hcell⟩ := h.cell he
    rw [hcell]
    simp

/-- **Frame**: what changes none of its objects leaves the dictionary as it is. -/
theorem Holds.frame {ht : ℕ} {T : HashTable κ α hash} (h : Holds μ ht tp place T)
    (hsame : ∀ p ∈ footprint ht tp place T.entries, μ'.cells p = μ.cells p) :
    Holds μ' ht tp place T where
  header := (hsame ht List.mem_cons_self).trans h.header
  chains := by
    apply h.chains.frame
    · rintro q rfl
      exact hsame q (mem_footprint.mpr (Or.inr (Or.inl rfl)))
    · intro e he
      exact hsame _ (mem_footprint.mpr (Or.inr (Or.inr (mem_addresses.mpr ⟨e, he, rfl⟩))))
  nodup := h.nodup
  power := h.power
  crowded := h.crowded

/-- A new object is nobody's. -/
theorem Holds.push {ht : ℕ} {T : HashTable κ α hash} (h : Holds μ ht tp place T)
    (v : DictObject κ α) : Holds (μ.push v) ht tp place T :=
  h.frame fun _ hp => μ.cells_push_of_ne (Memory.ne_next (h.live hp))

/-- A chain is not longer than names have been given. -/
theorem Holds.length_bucket_le {ht : ℕ} {T : HashTable κ α hash} (h : Holds μ ht tp place T)
    (i : ℕ) : (T.buckets.getD i []).length ≤ μ.next := by
  have hsub : (T.buckets.getD i []).Sublist T.entries := by
    rw [List.getD_eq_getElem?_getD]
    cases hb : T.buckets[i]? with
    | none => exact List.nil_sublist _
    | some b => exact List.sublist_flatten_of_mem (List.mem_of_getElem? hb)
  have hle : (addresses place T.entries).length ≤ μ.next := by
    apply Memory.length_le_next h.nodup
    intro p hp
    exact h.live (mem_footprint.mpr (Or.inr (Or.inr hp)))
  rw [addresses, List.length_map] at hle
  exact hsub.length_le.trans hle

end Tables

/-! ## Looking up -/

section Find

variable [DecidableEq κ] {place : κ → ℕ} {μ : Memory (DictObject κ α)} {tp : Option ℕ} {ht : ℕ}
  {T : HashTable κ α hash}

theorem searchChain_meets {key : κ} {l : List (κ × α)} : ∀ {p : Option ℕ} {fuel : ℕ},
    Chain (entryAt place) entryCell μ p l → l.length ≤ fuel →
      Meets (searchChain key fuel p) μ fun r μ' =>
        μ' = μ ∧ r = (l.find? fun e => e.1 = key).map (entryAt place) := by
  induction l with
  | nil =>
    rintro p fuel rfl -
    unfold searchChain
    exact meets_pure ⟨rfl, rfl⟩
  | cons e l ih =>
    rintro p fuel ⟨rfl, q, hcell, hrest⟩ hfuel
    obtain ⟨n, rfl⟩ : ∃ n, fuel = n + 1 := ⟨fuel - 1, by simp at hfuel; omega⟩
    unfold searchChain
    apply meets_loadEntry_bind hcell
    by_cases hkey : e.1 = key
    · rw [if_pos hkey.symm, List.find?_cons_of_pos (by simpa using hkey)]
      exact meets_pure ⟨rfl, rfl⟩
    · rw [if_neg fun h => hkey h.symm, List.find?_cons_of_neg (by simpa using hkey)]
      exact ih hrest (by simpa using hfuel)

omit [DecidableEq κ] in
/-- The bucket of a key, where the code looks for it. -/
theorem Holds.search (h : Holds μ ht tp place T) (hsize : T.size ≠ 0) (key : κ) :
    ∃ q heads p, tp = some q ∧ μ.cells q = some (.table heads) ∧
      heads[hash key &&& (T.size - 1)]? = some p ∧
      Chain (entryAt place) entryCell μ p (T.buckets.getD (hash key % T.size) []) := by
  have hmask := and_mask (h.power.resolve_left hsize).2 (hash key)
  have hlt : hash key % T.size < T.buckets.length := Nat.mod_lt _ (Nat.pos_of_ne_zero hsize)
  generalize hbs : T.buckets = bs at hlt
  have hchains := h.chains
  rw [hbs] at hchains
  cases hchains with
  | null => simp at hlt
  | table cell chains =>
    obtain ⟨p, hp, hchain⟩ := chains.get hlt
    rw [hmask]
    exact ⟨_, _, p, rfl, cell, hp, hchain⟩

theorem find?_eq_find {key : κ} : ((T.buckets.getD (hash key % T.size) []).find?
    fun e => e.1 = key).map (entryAt place) = (T.find key).map fun _ => place key := by
  unfold HashTable.find
  cases hfind : (T.buckets.getD (hash key % T.size) []).find? fun e => e.1 = key with
  | none => rfl
  | some e =>
    have hkey : e.1 = key := by simpa using List.find?_some hfind
    simp [entryAt, hkey]

/-- **`dictFind` finds the entry of the key.** -/
theorem dictFind_meets (h : Holds μ ht tp place T) (key : κ) :
    Meets (dictFind hash ht key) μ fun r μ' =>
      μ' = μ ∧ r = (T.find key).map fun _ => place key := by
  unfold dictFind
  apply meets_loadDict_bind h.header
  by_cases hsize : T.size = 0
  · have hnone : T.find key = none := by
      rw [HashTable.find, List.length_eq_zero_iff.mp hsize]
      rfl
    rw [if_pos hsize, hnone]
    exact meets_pure ⟨rfl, rfl⟩
  · obtain ⟨q, heads, p, rfl, hcell, hp, hchain⟩ := h.search hsize key
    rw [if_neg hsize]
    apply meets_loadTable_bind hcell
    apply meets_headAt_bind hp
    apply meets_fuel_bind
    rw [← find?_eq_find]
    exact searchChain_meets hchain (h.length_bucket_le _)

end Find

/-! ## Growing -/

section Moving

variable {place : κ → ℕ} {table : ℕ}

/-- An entry is linked in front of a chain of the table. -/
theorem tabled_link {μ μ' : Memory (DictObject κ α)} {heads : List (Option ℕ)}
    {bs : List (List (κ × α))} {i : ℕ} {first : Option ℕ} {e : κ × α}
    (hchains : Chains (entryAt place) entryCell μ heads bs) (hi : i < bs.length)
    (hfirst : heads[i]? = some first)
    (htable : μ'.cells table = some (.table (heads.set i (some (place e.1)))))
    (hentry : μ'.cells (place e.1) = some (entryCell e first))
    (hsame : ∀ e' ∈ bs.flatten, μ'.cells (place e'.1) = μ.cells (place e'.1)) :
    Tabled place μ' (some table) (bs.modify i (e :: ·)) := by
  have hchains' := hchains.frame hsame
  obtain ⟨p, hp, hchain⟩ := hchains'.get hi
  obtain rfl := Option.some.inj (hfirst.symm.trans hp)
  exact .table htable (hchains'.set (f := (e :: ·)) ⟨rfl, first, hentry, hchain⟩)

/-- The entries of a chain are put into the buckets of the new table, one by one. -/
theorem moveChain_meets (hash : κ → ℕ) {l : List (κ × α)} : ∀ {μ : Memory (DictObject κ α)}
    {p : Option ℕ} {fuel : ℕ} (used : ℕ) {bs : List (List (κ × α))},
    Chain (entryAt place) entryCell μ p l → Tabled place μ (some table) bs →
    (addresses place (l ++ bs.flatten)).Nodup → bs.length.isPowerOfTwo → l.length ≤ fuel →
      Meets (moveChain hash table (bs.length - 1) fuel p used) μ fun r μ' =>
        r = used - l.length ∧ Tabled place μ' (some table) (l.foldl (Buckets.push hash) bs) ∧
          Swaps (table :: addresses place l) (table :: addresses place l) μ μ' := by
  induction l with
  | nil =>
    rintro μ p fuel used bs rfl htabled - - -
    unfold moveChain
    exact meets_pure ⟨rfl, htabled, Swaps.refl _ μ⟩
  | cons e l ih =>
    rintro μ p fuel used bs ⟨rfl, q, hcell, hrest⟩ htabled hnodup hpower hfuel
    obtain ⟨n, rfl⟩ : ∃ n, fuel = n + 1 := ⟨fuel - 1, by simp at hfuel; omega⟩
    replace hcell : μ.cells (place e.1) = some (entryCell e q) := hcell
    have hentries : ∀ e' ∈ l ++ bs.flatten, ∃ next, μ.cells (place e'.1) = some (entryCell e' next) := by
      intro e' he'
      rcases List.mem_append.mp he' with he' | he'
      · exact hrest.cell_of_mem e' he'
      · exact htabled.cell_of_mem he'
    rcases htabled with _ | ⟨htable, hchains⟩
    rename_i heads
    have hlt : hash e.1 % bs.length < bs.length :=
      Nat.mod_lt _ (Nat.pos_of_isPowerOfTwo hpower)
    obtain ⟨first, hfirst, -⟩ := hchains.get hlt
    -- the entry is none of the others, and not the table
    have hne : place e.1 ≠ table := Memory.ne_of_cells hcell htable (by simp [entryCell])
    rw [List.cons_append, addresses_cons, List.nodup_cons] at hnodup
    have hother : ∀ e' ∈ l ++ bs.flatten, place e'.1 ≠ place e.1 := by
      intro e' he' heq
      exact hnodup.1 (mem_addresses.mpr ⟨e', he', heq⟩)
    unfold moveChain
    apply meets_loadEntry_bind hcell
    apply meets_loadTable_bind htable
    dsimp only
    rw [and_mask hpower]
    apply meets_headAt_bind hfirst
    have hlive : μ.cells (place e.1) ≠ none := by rw [hcell]; simp
    apply meets_store_bind (p := place e.1) hlive
    have hlive' : (μ.set (place e.1) (.entry ⟨e.1, e.2, first⟩) hlive).cells table ≠ none := by
      rw [μ.cells_set_of_ne hlive hne.symm, htable]
      simp
    apply meets_storeTable_bind hlive'
    generalize hset : (μ.set (place e.1) (.entry ⟨e.1, e.2, first⟩) hlive).set table
      (.table (heads.set (hash e.1 % bs.length) (some (entryAt place e)))) hlive' = μ₁
    have hswap : Swaps (table :: addresses place (e :: l)) (table :: addresses place (e :: l)) μ μ₁ := by
      rw [← hset]
      exact (swaps_set hlive (by simp)).trans (swaps_set hlive' (by simp))
    have hsame : ∀ e' ∈ l ++ bs.flatten, μ₁.cells (place e'.1) = μ.cells (place e'.1) := by
      intro e' he'
      obtain ⟨next, hnext⟩ := hentries e' he'
      rw [← hset, Memory.cells_set_of_ne _ _ (Memory.ne_of_cells hnext htable (by simp [entryCell])),
        Memory.cells_set_of_ne _ _ (hother e' he')]
    have htabled₁ : Tabled place μ₁ (some table) (Buckets.push hash bs e) := by
      apply tabled_link hchains hlt hfirst
      · rw [← hset]
        exact Memory.cells_set_self _ _
      · rw [← hset, Memory.cells_set_of_ne _ _ hne]
        exact Memory.cells_set_self _ _
      · exact fun e' he' => hsame e' (List.mem_append_right _ he')
    have hrest₁ : Chain (entryAt place) entryCell μ₁ q l :=
      hrest.frame fun e' he' => hsame e' (List.mem_append_left _ he')
    have hperm : (l ++ (Buckets.push hash bs e).flatten).Perm (e :: (l ++ bs.flatten)) :=
      ((Buckets.flatten_push_perm hash (Nat.zero_lt_of_lt hlt) e).append_left l).trans
        List.perm_middle
    have hmoved := ih (used - 1) hrest₁ htabled₁
      ((addresses_perm _ hperm).nodup_iff.mpr (by rwa [addresses_cons, List.nodup_cons]))
      (by rwa [Buckets.length_push]) (by simpa using hfuel)
    rw [Buckets.length_push] at hmoved
    apply hmoved.mono
    rintro r μ' ⟨rfl, htabled', hswap'⟩
    refine ⟨by rw [List.length_cons]; omega, htabled', hswap.trans (hswap'.widen ?_)⟩
    intro p hp
    simp only [List.mem_cons, addresses_cons] at hp ⊢
    tauto

/-- The chains from number `i` on are moved. -/
theorem moveTable_meets (hash : κ → ℕ) {old : Option ℕ} {oldHeads : List (Option ℕ)}
    {rest : List (List (κ × α))} : ∀ {μ : Memory (DictObject κ α)} {i : ℕ}
    {bs : List (List (κ × α))},
    (rest ≠ [] → ∃ o, old = some o ∧ o ≠ table ∧ μ.cells o = some (.table oldHeads)) →
    Chains (entryAt place) entryCell μ (oldHeads.drop i) rest →
    Tabled place μ (some table) bs → (addresses place (rest.flatten ++ bs.flatten)).Nodup →
    bs.length.isPowerOfTwo →
      Meets (moveTable hash table (bs.length - 1) old rest.length i rest.flatten.length) μ
        fun r μ' => r = 0 ∧
          Tabled place μ' (some table) (rest.flatten.foldl (Buckets.push hash) bs) ∧
          Swaps (table :: addresses place rest.flatten) (table :: addresses place rest.flatten)
            μ μ' := by
  induction rest with
  | nil =>
    intro μ i bs _ _ htabled _ _
    exact meets_pure ⟨rfl, htabled, Swaps.refl _ μ⟩
  | cons b rest ih =>
    intro μ i bs hold hchains htabled hnodup hpower
    obtain ⟨o, rfl, hne, ho⟩ := hold (by simp)
    rw [List.length_cons]
    unfold moveTable
    by_cases hzero : (b :: rest).flatten.length = 0
    · -- no entries are left
      rw [if_pos hzero, hzero, List.length_eq_zero_iff.mp hzero]
      exact meets_pure ⟨rfl, htabled, Swaps.refl _ μ⟩
    rw [if_neg hzero]
    obtain ⟨hd, hget, hchain, hrest⟩ := hchains.next
    apply meets_loadTable_bind ho
    apply meets_headAt_bind hget
    apply meets_fuel_bind
    rw [List.flatten_cons, List.append_assoc, addresses_append] at hnodup
    obtain ⟨hb, hothers, hdisjoint⟩ := List.nodup_append.mp hnodup
    have hmoved := moveChain_meets hash (b :: rest).flatten.length hchain
      htabled (by
        rw [addresses_append]
        rw [addresses_append] at hothers
        refine List.nodup_append.mpr ⟨hb, (List.nodup_append.mp hothers).2.1, ?_⟩
        intro p hp p' hp'
        exact hdisjoint p hp p' (by rw [addresses_append]; exact List.mem_append_right _ hp'))
      hpower (hchain.length_le_next hb)
    obtain ⟨heads, hcell⟩ : ∃ heads, μ.cells table = some (.table heads) := by
      rcases htabled with _ | ⟨hcell, _⟩
      exact ⟨_, hcell⟩
    apply hmoved.bind
    rintro r μ₁ ⟨rfl, htabled₁, hswap⟩
    -- the entries of the other chains have not been touched, and neither has the old table
    have hentry : ∀ e ∈ rest.flatten, μ₁.cells (place e.1) = μ.cells (place e.1) := by
      intro e he
      have hnot : place e.1 ∉ table :: addresses place b := by
        rw [List.mem_cons, not_or]
        constructor
        · obtain ⟨next, hnext⟩ := hrest.cell_of_mem he
          exact Memory.ne_of_cells hnext hcell (by simp [entryCell])
        · intro hin
          exact hdisjoint _ hin _ (mem_addresses.mpr ⟨e, List.mem_append_left _ he, rfl⟩) rfl
      exact hswap.same _ hnot hnot
    have ho₁ : μ₁.cells o = some (.table oldHeads) := by
      have hnot : o ∉ table :: addresses place b := by
        rw [List.mem_cons, not_or]
        refine ⟨hne, fun hin => ?_⟩
        obtain ⟨e, he, heq⟩ := mem_addresses.mp hin
        obtain ⟨next, hnext⟩ := hchain.cell_of_mem e he
        exact Memory.ne_of_cells hnext ho (by simp [entryCell]) heq
      rw [hswap.same _ hnot hnot, ho]
    have hused : (b :: rest).flatten.length - b.length = rest.flatten.length := by
      rw [List.flatten_cons, List.length_append]
      omega
    have hih := ih (i := i + 1)
      (fun _ => ⟨o, rfl, hne, ho₁⟩) (hrest.frame hentry) htabled₁
      (by
        have hperm : (rest.flatten ++ (b.foldl (Buckets.push hash) bs).flatten).Perm
            (b ++ (rest.flatten ++ bs.flatten)) := by
          have hfold := Buckets.flatten_foldl_push_perm hash (Nat.pos_of_isPowerOfTwo hpower) b
          refine (hfold.append_left _).trans ?_
          rw [← List.append_assoc, ← List.append_assoc]
          exact List.perm_append_comm.append_right _
        refine (addresses_perm _ hperm).nodup_iff.mpr ?_
        rw [addresses_append]
        exact hnodup)
      (by rwa [Buckets.length_foldl_push])
    rw [Buckets.length_foldl_push] at hih
    rw [hused]
    refine hih.mono ?_
    rintro r μ' ⟨rfl, htabled', hswap'⟩
    rw [List.flatten_cons, List.foldl_append]
    refine ⟨rfl, htabled', (hswap.widen ?_).trans (hswap'.widen ?_)⟩
    all_goals
      intro p hp
      simp only [List.mem_cons, addresses_append, List.mem_append] at hp ⊢
      tauto

end Moving

section Expanding

theorem doubleUpTo_eq {k : ℕ} : ∀ {n i : ℕ}, k ≤ n → 0 < i → doubleUpTo (i * 2 ^ k) n i = i * 2 ^ k := by
  induction k with
  | zero =>
    intro n i _ _
    rw [Nat.pow_zero, Nat.mul_one]
    cases n with
    | zero => rfl
    | succ n => exact if_pos le_rfl
  | succ k ih =>
    intro n i hk hi
    obtain ⟨m, rfl⟩ : ∃ m, n = m + 1 := ⟨n - 1, by omega⟩
    have hlt : i < i * 2 ^ (k + 1) := by
      have hpow : 2 ≤ 2 ^ (k + 1) := by
        rw [Nat.pow_succ]
        have := Nat.one_le_two_pow (n := k)
        omega
      exact (Nat.lt_mul_iff_one_lt_right hi).mpr (by omega)
    have heq : i * 2 ^ (k + 1) = i * 2 * 2 ^ k := by
      rw [Nat.pow_succ, Nat.mul_comm (2 ^ k), Nat.mul_assoc]
    rw [doubleUpTo, if_neg (Nat.not_le.mpr hlt), heq]
    exact ih (by omega) (by omega)

/-- A power of two that is large enough is its own next power. -/
theorem dictNextPower_eq {size : ℕ} (h : size.isPowerOfTwo) (hge : 4 ≤ size) (hle : size ≤ 2 ^ 32) :
    dictNextPower size = size := by
  obtain ⟨k, rfl⟩ := h
  have hk : 2 ≤ k := (Nat.pow_le_pow_iff_right (a := 2) (by omega)).mp hge
  have hk' : k ≤ 32 := (Nat.pow_le_pow_iff_right (a := 2) (by omega)).mp hle
  have heq : 2 ^ k = 4 * 2 ^ (k - 2) := by
    rw [show 4 = 2 ^ 2 from rfl, ← Nat.pow_add]
    congr 1
    omega
  rw [dictNextPower, if_neg (by rw [longMax]; omega), heq, dictHtInitialSize]
  exact doubleUpTo_eq (by omega) (by omega)

variable {place : κ → ℕ} {μ : Memory (DictObject κ α)} {tp : Option ℕ} {ht : ℕ}
  {T : HashTable κ α hash} {grant : ℕ → Bool}

/-- **`dictExpand` links the entries into the buckets of a new table** and frees the old one, or is
refused the memory for it. -/
theorem dictExpand_meets (h : Holds μ ht tp place T) {size : ℕ} (hused : T.entries.length ≤ size)
    (hnext : dictNextPower size = size) (hpower : size.isPowerOfTwo) :
    Meets (dictExpand grant hash ht size) μ fun r μ' =>
      (r = .err ∧ μ' = μ.skip ∧ grant μ.next = false) ∨
      (r = .ok ∧ ∃ table,
        μ'.cells ht = some (.dict ⟨some table, size, size - 1, T.entries.length⟩) ∧
        Tabled place μ' (some table) (Buckets.rehash hash size T.entries) ∧
        Swaps (footprint ht tp place T.entries) (footprint ht (some table) place T.entries)
          μ μ') := by
  unfold dictExpand
  apply meets_loadDict_bind h.header
  dsimp only
  rw [if_neg (Nat.not_lt.mpr hused), hnext]
  apply meets_alloc_bind
  · exact fun hno => meets_pure (Or.inl ⟨rfl, rfl, hno⟩)
  intro _
  have hnew : ∀ p, μ.cells p ≠ none → (μ.push (.table (List.replicate size none))).cells p = μ.cells p := by
    intro p hp
    exact μ.cells_push_of_ne (Memory.ne_next hp)
  have hpush : Holds (μ.push (.table (List.replicate size none))) ht tp place T :=
    h.frame fun p hp => hnew p (h.live hp)
  have hbs : Tabled place (μ.push (.table (List.replicate size none))) (some μ.next)
      (List.replicate size ([] : List (κ × α))) := .table (μ.cells_push_self) (Chains.replicate size)
  have hmoved : Meets (moveTable hash μ.next (size - 1) tp T.size 0 T.entries.length)
      (μ.push (.table (List.replicate size none))) fun r μ' => r = 0 ∧
        Tabled place μ' (some μ.next) (Buckets.rehash hash size T.entries) ∧
        Swaps (μ.next :: addresses place T.entries) (μ.next :: addresses place T.entries)
          (μ.push (.table (List.replicate size none))) μ' := by
    have hflat : (List.replicate size ([] : List (κ × α))).flatten = [] := by simp
    have hnodup : (addresses place (T.buckets.flatten ++ (List.replicate size []).flatten)).Nodup := by
      rw [hflat, List.append_nil]
      exact h.nodup
    have hlen : (List.replicate size ([] : List (κ × α))).length.isPowerOfTwo := by
      rwa [List.length_replicate]
    have hne : ∀ o, tp = some o → o ≠ μ.next := by
      intro o ho
      exact Memory.ne_next (h.live (mem_footprint.mpr (Or.inr (Or.inl ho))))
    have key : ∀ oldHeads, (T.buckets ≠ [] → ∃ o, tp = some o ∧ o ≠ μ.next ∧
        (μ.push (.table (List.replicate size none))).cells o = some (.table oldHeads)) →
        Chains (entryAt place) entryCell (μ.push (.table (List.replicate size none)))
          (oldHeads.drop 0) T.buckets → _ := fun oldHeads hold hchains =>
      moveTable_meets hash hold hchains hbs hnodup hlen
    rw [List.length_replicate] at key
    have hchains := hpush.chains
    generalize hbuckets : T.buckets = bs at hchains
    cases hchains with
    | null =>
      rw [hbuckets] at key
      have hcase := key [] (fun hne => absurd rfl hne) .nil
      rw [show T.size = 0 by rw [HashTable.size, hbuckets]; rfl,
        show T.entries = [] by rw [HashTable.entries, hbuckets]; rfl]
      exact hcase
    | table cell chains =>
      rw [← hbuckets] at chains
      exact key _ (fun _ => ⟨_, rfl, hne _ rfl, cell⟩) chains
  apply hmoved.bind
  rintro r μ₁ ⟨rfl, htabled, hswap⟩
  rw [if_neg (by simp)]
  -- neither the dictionary nor the old table has been touched
  have hkeep : ∀ p, (p = ht ∨ tp = some p) → μ₁.cells p = μ.cells p := by
    intro p hp
    have hin : p ∈ footprint ht tp place T.entries := mem_footprint.mpr (hp.imp_right Or.inl)
    have hnot : p ∉ μ.next :: addresses place T.entries := by
      rw [List.mem_cons, not_or]
      constructor
      · exact Memory.ne_next (h.live hin)
      · intro haddr
        obtain ⟨e, he, rfl⟩ := mem_addresses.mp haddr
        exact hp.elim (h.entry_ne_dict he) (h.entry_ne_table he)
    rw [hswap.same p hnot hnot, hnew p (h.live hin)]
  apply meets_freeOpt_bind (F := footprint ht (some μ.next) place T.entries)
  · intro p hp
    rw [hkeep p (Or.inr hp)]
    exact h.live (mem_footprint.mpr (Or.inr (Or.inl hp)))
  · intro p hp hin
    rcases mem_footprint.mp hin with rfl | heq | haddr
    · exact h.table_ne_dict hp
    · rw [← heq] at hp
      exact Memory.ne_next (h.live (mem_footprint.mpr (Or.inr (Or.inl hp)))) rfl
    · obtain ⟨e, he, rfl⟩ := mem_addresses.mp haddr
      exact h.entry_ne_table he hp
  intro μ₂ hsame hfreed
  have hheader : μ₂.cells ht ≠ none := by
    rw [hsame ht h.table_ne_dict, hkeep ht (Or.inl rfl), h.header]
    simp
  apply meets_store_bind hheader
  refine meets_pure (Or.inr ⟨rfl, μ.next, Memory.cells_set_self _ _, ?_, ?_⟩)
  · have hentry : ∀ e ∈ (Buckets.rehash hash size T.entries).flatten, e ∈ T.entries := fun e he =>
      (Buckets.flatten_rehash_perm (Nat.pos_of_isPowerOfTwo hpower) _).mem_iff.mp he
    apply htabled.frame
    · intro q hq
      obtain rfl := Option.some.inj hq
      rw [Memory.cells_set_of_ne _ _ (Memory.ne_next (h.live List.mem_cons_self)).symm, hsame]
      exact fun hq => Memory.ne_next (h.live (mem_footprint.mpr (Or.inr (Or.inl hq)))) rfl
    · intro e he
      rw [Memory.cells_set_of_ne _ _ (h.entry_ne_dict (hentry e he)),
        hsame _ (h.entry_ne_table (hentry e he))]
  · have hpushed : Swaps (footprint ht tp place T.entries) (μ.next :: footprint ht tp place T.entries)
        μ (μ.push (.table (List.replicate size none))) := swaps_push _
    have hall : Swaps (μ.next :: footprint ht tp place T.entries)
        (μ.next :: footprint ht tp place T.entries) (μ.push (.table (List.replicate size none))) μ₁ := by
      apply hswap.widen
      intro p hp
      rw [List.mem_cons] at hp ⊢
      exact hp.imp_right fun hp => mem_footprint.mpr (Or.inr (Or.inr hp))
    have hlast : Swaps (μ.next :: footprint ht tp place T.entries)
        (footprint ht (some μ.next) place T.entries) μ₁ μ₂ := by
      apply hfreed.congr (fun p => ?_) fun _ => Iff.rfl
      simp only [List.mem_append, Option.mem_toList, List.mem_cons, mem_footprint, Option.some.injEq]
      tauto
    exact ((hpushed.trans hall).trans hlast).trans (swaps_set hheader List.mem_cons_self)

/-- Growing needs a bound on the number of entries, as the indices are `int`s. -/
theorem dictExpandIfNeeded_meets (h : Holds μ ht tp place T) (hbound : T.entries.length < 2 ^ 30) :
    Meets (dictExpandIfNeeded grant hash ht) μ fun r μ' =>
      (r = .err ∧ Holds μ' ht tp place T ∧ Refused grant μ μ' ∧
        Swaps (footprint ht tp place T.entries) (footprint ht tp place T.entries) μ μ') ∨
      (r = .ok ∧ ∃ tp', Holds μ' ht tp' place T.expandIfNeeded ∧
        Swaps (footprint ht tp place T.entries) (footprint ht tp' place T.expandIfNeeded.entries)
          μ μ') := by
  have hgrow : ∀ size, size = T.grownSize → size ≠ T.size → T.entries.length ≤ size →
      4 ≤ size → size ≤ 2 ^ 32 → size.isPowerOfTwo → size ≤ 4 ∨ size ≤ 2 * T.entries.length →
      Meets (dictExpand grant hash ht size) μ fun r μ' =>
      (r = .err ∧ Holds μ' ht tp place T ∧ Refused grant μ μ' ∧
        Swaps (footprint ht tp place T.entries) (footprint ht tp place T.entries) μ μ') ∨
      (r = .ok ∧ ∃ tp', Holds μ' ht tp' place T.expandIfNeeded ∧
        Swaps (footprint ht tp place T.entries) (footprint ht tp' place T.expandIfNeeded.entries)
          μ μ') := by
    intro size hsize hne hused hge hle hpower hcrowded
    apply (dictExpand_meets h hused (dictNextPower_eq hpower hge hle) hpower).mono
    have hbuckets : T.expandIfNeeded.buckets = Buckets.rehash hash size T.entries := by
      rw [hsize] at hne ⊢
      unfold HashTable.expandIfNeeded
      rw [dif_neg hne]
    have hsize' : T.expandIfNeeded.size = size := by rw [T.size_expandIfNeeded, hsize]
    have hperm := T.entries_expandIfNeeded_perm
    rintro r μ' (⟨rfl, rfl, hno⟩ | ⟨rfl, table, hheader, htabled, hswap⟩)
    · exact Or.inl ⟨rfl, h.frame fun _ _ => rfl, refused_skip hno, swaps_skip _ _⟩
    · refine Or.inr ⟨rfl, some table, ⟨?_, ?_, ?_, ?_, ?_⟩, ?_⟩
      · rw [hheader, hsize', hperm.length_eq]
      · rw [hbuckets]
        exact htabled
      · exact (addresses_perm _ hperm).nodup_iff.mpr h.nodup
      · rw [hsize']
        exact Or.inr ⟨hge, hpower⟩
      · rwa [hsize', hperm.length_eq]
      · apply hswap.congr (fun _ => Iff.rfl) fun p => ?_
        rw [mem_footprint, mem_footprint, (addresses_perm _ hperm).mem_iff]
  unfold dictExpandIfNeeded
  apply meets_loadDict_bind h.header
  dsimp only
  by_cases hzero : T.size = 0
  · rw [if_pos hzero]
    have hentries : T.entries = [] := by
      rw [HashTable.entries, List.length_eq_zero_iff.mp hzero]
      rfl
    apply hgrow dictHtInitialSize
    · rw [HashTable.grownSize, if_pos hzero]
      rfl
    · rw [hzero]
      exact (by decide)
    · rw [hentries]
      exact Nat.zero_le _
    · exact le_rfl
    · exact (by decide)
    · exact ⟨2, rfl⟩
    · exact Or.inl le_rfl
  rw [if_neg hzero]
  obtain ⟨hge, hpower⟩ := h.power.resolve_left hzero
  by_cases hfull : T.entries.length = T.size
  · rw [if_pos hfull, Nat.mod_eq_of_lt (by omega)]
    apply hgrow (T.size * 2)
    · rw [HashTable.grownSize, if_neg hzero, if_pos hfull]
    · omega
    · omega
    · omega
    · omega
    · exact Nat.isPowerOfTwo_mul_two_of_isPowerOfTwo hpower
    · exact Or.inr (by omega)
  · rw [if_neg hfull]
    have hsame : T.expandIfNeeded = T := by
      unfold HashTable.expandIfNeeded
      rw [dif_pos]
      rw [HashTable.grownSize, if_neg hzero, if_neg hfull]
    rw [hsame]
    exact meets_pure (Or.inr ⟨rfl, tp, h, Swaps.refl _ μ⟩)

end Expanding

/-! ## Adding -/

section Adding

variable [DecidableEq κ] {place : κ → ℕ} {μ : Memory (DictObject κ α)} {tp : Option ℕ} {ht : ℕ}
  {T : HashTable κ α hash} {grant : ℕ → Bool}

omit [DecidableEq κ] in
theorem Holds.size_le (h : Holds μ ht tp place T) (hbound : T.entries.length ≤ 2 ^ 30) :
    T.size ≤ 2 ^ 31 := by
  rcases h.crowded with hle | hle <;> omega

/-- `_dictKeyIndex` says where the key belongs, when it is new. -/
theorem dictKeyIndex_meets (h : Holds μ ht tp place T) (hbound : T.entries.length < 2 ^ 30)
    (key : κ) : Meets (dictKeyIndex grant hash ht key) μ fun r μ' =>
      (r = -1 ∧ (T.find key ≠ none ∨ Refused grant μ μ') ∧
        ∃ T' tp', (T' = T ∨ T' = T.expandIfNeeded) ∧ Holds μ' ht tp' place T' ∧
          Swaps (footprint ht tp place T.entries) (footprint ht tp' place T'.entries) μ μ') ∨
      (r = (hash key % T.expandIfNeeded.size : ℕ) ∧ T.expandIfNeeded.find key = none ∧
        ∃ tp', Holds μ' ht tp' place T.expandIfNeeded ∧
          Swaps (footprint ht tp place T.entries) (footprint ht tp' place T.expandIfNeeded.entries)
            μ μ') := by
  unfold dictKeyIndex
  apply (dictExpandIfNeeded_meets h hbound).bind
  rintro r μ₁ (⟨rfl, hholds, hno, hswap⟩ | ⟨rfl, tp', hholds, hswap⟩)
  · exact meets_pure (Or.inl ⟨rfl, Or.inr hno, T, tp, Or.inl rfl, hholds, hswap⟩)
  have hsize : T.expandIfNeeded.size ≠ 0 := by
    rw [T.size_expandIfNeeded]
    exact Nat.ne_of_gt T.grownSize_pos
  have hpower := (hholds.power.resolve_left hsize).2
  have hlt : hash key % T.expandIfNeeded.size < 2 ^ 31 := by
    have hle : T.expandIfNeeded.size ≤ 2 ^ 31 := by
      apply hholds.size_le
      rw [T.entries_expandIfNeeded_perm.length_eq]
      omega
    exact (Nat.mod_lt _ (Nat.pos_of_ne_zero hsize)).trans_le hle
  obtain ⟨q, heads, p, rfl, hcell, hp, hchain⟩ := hholds.search hsize key
  apply meets_loadDict_bind hholds.header
  apply meets_loadTable_bind hcell
  apply meets_headAt_bind hp
  apply meets_fuel_bind
  apply (searchChain_meets hchain (hholds.length_bucket_le _)).bind
  rintro found μ' ⟨rfl, rfl⟩
  rw [find?_eq_find]
  cases hfind : T.expandIfNeeded.find key with
  | some v =>
    refine meets_pure (Or.inl ⟨rfl, Or.inl fun hnone => ?_, _, _, Or.inr rfl, hholds, hswap⟩)
    rw [T.find_expandIfNeeded, hnone] at hfind
    cases hfind
  | none =>
    refine meets_pure (Or.inr ⟨?_, rfl, _, hholds, hswap⟩)
    dsimp only
    rw [and_mask hpower, toInt32_of_lt hlt]

/-- The end of `dictAdd`: the new entry is linked in front of the chain of its key. -/
theorem linkNew_meets {key : κ} {val : α} {tp' : Option ℕ} {μ₁ : Memory (DictObject κ α)}
    (h : Holds μ₁ ht tp' place T.expandIfNeeded) (hfind : T.expandIfNeeded.find key = none) :
    Meets (do
      let d ← loadDict ht
      let heads ← loadTable d.table
      if ((hash key % T.expandIfNeeded.size : ℕ) : ℤ) < 0 then fault
      else do
        let first ← headAt heads ((hash key % T.expandIfNeeded.size : ℕ) : ℤ).toNat
        store μ₁.next (.entry ⟨key, val, first⟩)
        storeTable d.table (heads.set ((hash key % T.expandIfNeeded.size : ℕ) : ℤ).toNat
          (some μ₁.next))
        store ht (.dict { d with used := d.used + 1 })
        pure Status.ok) (μ₁.push (.entry ⟨key, val, none⟩)) fun r μ' =>
      r = .ok ∧ ∃ T' place', T.add key val = some T' ∧ (∀ k ≠ key, place' k = place k) ∧
        Holds μ' ht tp' place' T' ∧
        Swaps (footprint ht tp' place T.expandIfNeeded.entries) (footprint ht tp' place' T'.entries)
          μ₁ μ' := by
  have hpushed := h.push (.entry ⟨key, val, none⟩)
  have hswap₀ : Swaps (footprint ht tp' place T.expandIfNeeded.entries)
      (μ₁.next :: footprint ht tp' place T.expandIfNeeded.entries) μ₁
      (μ₁.push (.entry ⟨key, val, none⟩)) := swaps_push _
  have hcell : (μ₁.push (.entry ⟨key, val, none⟩)).cells μ₁.next = some (.entry ⟨key, val, none⟩) :=
    μ₁.cells_push_self
  generalize μ₁.push (.entry ⟨key, val, none⟩) = μ₂ at hpushed hswap₀ hcell
  have hsize : T.expandIfNeeded.size ≠ 0 := by
    rw [T.size_expandIfNeeded]
    exact Nat.ne_of_gt T.grownSize_pos
  obtain ⟨q, heads, first, rfl, htable, hfirst, -⟩ := hpushed.search hsize key
  rw [and_mask (hpushed.power.resolve_left hsize).2] at hfirst
  -- the dictionary, its table and the new entry are three objects
  have hnq : μ₁.next ≠ q := Memory.ne_of_cells hcell htable (by simp)
  have hnd : μ₁.next ≠ ht := Memory.ne_of_cells hcell hpushed.header (by simp)
  have hqd : q ≠ ht := Memory.ne_of_cells htable hpushed.header (by simp)
  apply meets_loadDict_bind hpushed.header
  apply meets_loadTable_bind htable
  rw [if_neg (by omega), Int.toNat_natCast]
  apply meets_headAt_bind hfirst
  have hlive : μ₂.cells μ₁.next ≠ none := by simp [hcell]
  apply meets_store_bind hlive
  have hlive₁ : (μ₂.set μ₁.next (.entry ⟨key, val, first⟩) hlive).cells q ≠ none := by
    rw [Memory.cells_set_of_ne _ _ hnq.symm, htable]
    simp
  apply meets_storeTable_bind hlive₁
  have hlive₂ : ((μ₂.set μ₁.next (.entry ⟨key, val, first⟩) hlive).set q (.table
      (heads.set (hash key % T.expandIfNeeded.size) (some μ₁.next))) hlive₁).cells ht ≠ none := by
    rw [Memory.cells_set_of_ne _ _ hqd.symm, Memory.cells_set_of_ne _ _ hnd.symm, hpushed.header]
    simp
  apply meets_store_bind hlive₂
  obtain ⟨T', hadd⟩ := Option.isSome_iff_exists.mp ((T.add_isSome_iff key val).mpr
    (by rw [← T.find_expandIfNeeded, hfind]))
  have hbuckets := HashTable.buckets_of_add hadd
  have hentries : T'.entries.Perm ((key, val) :: T.expandIfNeeded.entries) :=
    (HashTable.entries_add_perm hadd).trans (T.entries_expandIfNeeded_perm.symm.cons _)
  have hsize' : T'.size = T.expandIfNeeded.size := by
    rw [HashTable.size, hbuckets, Buckets.length_push]
    rfl
  -- the other entries have other keys, and stay where they are
  have hother : ∀ e ∈ T.expandIfNeeded.entries, Function.update place key μ₁.next e.1 = place e.1 := by
    intro e he
    apply Function.update_of_ne
    rintro rfl
    exact (HashTable.find_eq_none_iff _ _).mp hfind e.2 he
  have hplaces : (addresses (Function.update place key μ₁.next) T'.entries).Perm
      (μ₁.next :: addresses place T.expandIfNeeded.entries) := by
    have hperm := addresses_perm (Function.update place key μ₁.next) hentries
    rwa [addresses_cons, addresses_congr hother, Function.update_self] at hperm
  have hfresh : ∀ e ∈ T.expandIfNeeded.entries, place e.1 ≠ μ₁.next := by
    intro e he
    exact Memory.ne_next (h.live (mem_footprint.mpr (Or.inr (Or.inr (mem_addresses.mpr ⟨e, he, rfl⟩)))))
  refine meets_pure ⟨rfl, T', Function.update place key μ₁.next, hadd,
    fun k hk => Function.update_of_ne hk _ _, ⟨?_, ?_, ?_, ?_, ?_⟩, ?_⟩
  · rw [Memory.cells_set_self, hsize', hentries.length_eq]
    rfl
  · rw [hbuckets]
    rcases hpushed.chains.congr_place hother with _ | ⟨htable', hchains⟩
    rw [htable] at htable'
    obtain rfl : heads = _ := by simpa using htable'
    apply tabled_link hchains (Nat.mod_lt _ (Nat.pos_of_ne_zero hsize)) hfirst
    · rw [Memory.cells_set_of_ne _ _ hqd, Memory.cells_set_self, Function.update_self]
      rfl
    · rw [Function.update_self, Memory.cells_set_of_ne _ _ hnd, Memory.cells_set_of_ne _ _ hnq,
        Memory.cells_set_self]
      rfl
    · intro e he
      rw [hother e he, Memory.cells_set_of_ne _ _ (hpushed.entry_ne_dict he),
        Memory.cells_set_of_ne _ _ fun heq => hpushed.entry_ne_table he (congrArg some heq.symm),
        Memory.cells_set_of_ne _ _ (hfresh e he)]
  · rw [hplaces.nodup_iff, List.nodup_cons]
    refine ⟨fun hin => ?_, h.nodup⟩
    obtain ⟨e, he, heq⟩ := mem_addresses.mp hin
    exact hfresh e he heq
  · rw [hsize']
    exact h.power
  · rw [hsize', hentries.length_eq, List.length_cons]
    exact h.crowded.imp_right fun hle => by omega
  · refine Swaps.congr (hswap₀.trans (((swaps_set hlive (by simp)).trans
      (swaps_set hlive₁ (by simp [footprint]))).trans (swaps_set hlive₂ (by simp [footprint]))))
      (fun _ => Iff.rfl) fun p => ?_
    rw [List.mem_cons, mem_footprint, mem_footprint, hplaces.mem_iff, List.mem_cons]
    tauto

/-- **`dictAdd` adds an entry for a new key**, with an object of its own.  It fails for a key that is
there and when it is refused memory; the table may have grown then, but has the same entries. -/
theorem dictAdd_meets (h : Holds μ ht tp place T) (hbound : T.entries.length < 2 ^ 30) (key : κ)
    (val : α) : Meets (dictAdd grant hash ht key val) μ fun r μ' =>
      (r = .err ∧ (T.find key ≠ none ∨ Refused grant μ μ') ∧
        ∃ T' tp', (T' = T ∨ T' = T.expandIfNeeded) ∧ Holds μ' ht tp' place T' ∧
          Swaps (footprint ht tp place T.entries) (footprint ht tp' place T'.entries) μ μ') ∨
      (r = .ok ∧ ∃ T' tp' place', T.add key val = some T' ∧ (∀ k ≠ key, place' k = place k) ∧
        Holds μ' ht tp' place' T' ∧
          Swaps (footprint ht tp place T.entries) (footprint ht tp' place' T'.entries) μ μ') := by
  unfold dictAdd
  apply (dictKeyIndex_meets h hbound key).bind
  rintro index μ₁ (⟨rfl, hwhy, T', tp', hT', hholds, hswap⟩ | ⟨rfl, hfind, tp', hholds, hswap⟩)
  · rw [if_pos rfl]
    exact meets_pure (Or.inl ⟨rfl, hwhy, T', tp', hT', hholds, hswap⟩)
  rw [if_neg (by omega)]
  apply meets_alloc_bind
  · intro hno
    refine meets_pure (Or.inl ⟨rfl, Or.inr ?_, _, tp', Or.inr rfl, hholds.frame fun _ _ => rfl,
      hswap.trans (swaps_skip _ _)⟩)
    exact (refused_skip hno).mono hswap.next le_rfl
  intro _
  apply (linkNew_meets hholds hfind).mono
  rintro r μ' ⟨rfl, T', place', hadd, hplace, hholds', hswap'⟩
  exact Or.inr ⟨rfl, T', tp', place', hadd, hplace, hholds', hswap.trans hswap'⟩

/-- **`dictSetHashVal` replaces the value of an entry.** -/
theorem dictSetHashVal_meets (h : Holds μ ht tp place T) {key : κ} {u : α}
    (hfind : T.find key = some u) (val : α) : Meets (dictSetHashVal (place key) val) μ fun _ μ' =>
      Holds μ' ht tp place (T.setVal key val) ∧
        Swaps (footprint ht tp place T.entries) (footprint ht tp place (T.setVal key val).entries)
          μ μ' := by
  have hmem : (key, u) ∈ T.entries := (T.find_eq_some_iff key u).mp hfind
  obtain ⟨next, hcell⟩ := h.cell hmem
  replace hcell : μ.cells (place key) = some (.entry ⟨key, u, next⟩) := hcell
  have hlive : μ.cells (place key) ≠ none := by simp [hcell]
  unfold dictSetHashVal
  apply meets_loadEntry_bind hcell
  refine ⟨(), _, dif_pos hlive, ?_⟩
  have hplaces : addresses place (T.setVal key val).entries = addresses place T.entries := by
    rw [T.entries_setVal, addresses, List.map_map]
    apply List.map_congr_left
    intro e _
    dsimp only [Function.comp, entryAt]
    split <;> rfl
  have hlen : (T.setVal key val).entries.length = T.entries.length := by
    rw [T.entries_setVal, List.length_map]
  have hsize : (T.setVal key val).size = T.size := List.length_map _
  constructor
  · refine ⟨?_, ?_, by rw [hplaces]; exact h.nodup, by rw [hsize]; exact h.power,
      by rw [hsize, hlen]; exact h.crowded⟩
    · rw [Memory.cells_set_of_ne _ _ (h.entry_ne_dict hmem).symm, hsize, hlen]
      exact h.header
    · rcases h with ⟨-, hchains, hnodup, -, -⟩
      have htable : ∀ q heads, μ.cells q = some (.table heads) → q ≠ place key := by
        intro q heads hq
        exact Memory.ne_of_cells hq hcell (by simp)
      show Tabled place _ tp (T.buckets.map _)
      unfold HashTable.entries at hnodup hmem
      generalize T.buckets = bs at hchains hnodup hmem
      cases hchains with
      | null => exact .null
      | table cell chains =>
        refine .table (by rw [Memory.cells_set_of_ne _ _ (htable _ _ cell), cell])
          (chains.map (fun e => ?_) fun e he q hq => ?_)
        · unfold entryAt
          split <;> rfl
        -- the entry of the key, and the others
        by_cases hkey : e.1 = key
        · obtain rfl : e = (key, u) := by
            apply List.inj_on_of_nodup_map hnodup he hmem
            rw [entryAt, hkey]
            rfl
          rw [show entryAt place (key, u) = place key from rfl] at hq ⊢
          rw [hcell, Option.some.injEq, entryCell, DictObject.entry.injEq] at hq
          rw [Memory.cells_set_self, if_pos rfl, hq]
          rfl
        · rw [Memory.cells_set_of_ne, hq, if_neg hkey]
          intro heq
          exact hkey (congrArg Prod.fst (List.inj_on_of_nodup_map hnodup he hmem heq))
  · rw [footprint, footprint, hplaces]
    apply swaps_set hlive
    exact mem_footprint.mpr (Or.inr (Or.inr (mem_addresses.mpr ⟨_, hmem, rfl⟩)))

end Adding

end Dict
