/-
# Sessions with a dictionary

The rest of `dict.c`, releasing and iterating, and what all of it comes to: in a session a
dictionary is created, used by any sequence of calls, among them an iteration that goes on while
entries are added, and released.  No call accesses an object that does not exist; the answers are
those of a hash table; the destructors are called on every entry once, and at the end the memory
is what it was.
-/
import HiredisCluster.DictTable

namespace Dict

open Procedure

variable {κ α : Type} {hash : κ → ℕ}

/-! ## Releasing -/

section Releasing

variable {place : κ → ℕ} {tp : Option ℕ}

/-- A chain is freed from front to back. -/
theorem clearChain_meets {l : List (κ × α)} : ∀ {μ : Memory (DictObject κ α)} {p : Option ℕ}
    {fuel : ℕ} (used : ℕ), Chain (entryAt place) entryCell μ p l → (addresses place l).Nodup →
    l.length ≤ fuel → Meets (clearChain fuel p used) μ fun r μ' =>
      r = (used - l.length, l) ∧ Swaps (addresses place l) [] μ μ' := by
  induction l with
  | nil =>
    rintro μ p fuel used rfl - -
    unfold clearChain
    exact meets_pure ⟨rfl, Swaps.refl _ μ⟩
  | cons e l ih =>
    rintro μ p fuel used ⟨rfl, q, hcell, hrest⟩ hnodup hfuel
    obtain ⟨n, rfl⟩ : ∃ n, fuel = n + 1 := ⟨fuel - 1, by simp at hfuel; omega⟩
    replace hcell : μ.cells (place e.1) = some (entryCell e q) := hcell
    rw [addresses_cons, List.nodup_cons] at hnodup
    have hlive : μ.cells (place e.1) ≠ none := by simp [hcell]
    have hrest' : Chain (entryAt place) entryCell (μ.drop (place e.1)) q l := by
      apply hrest.frame
      intro e' he'
      apply μ.cells_drop_of_ne
      intro heq
      exact hnodup.1 (mem_addresses.mpr ⟨e', he', heq⟩)
    unfold clearChain
    apply meets_loadEntry_bind hcell
    apply meets_free_bind (p := place e.1) hlive
    apply (ih (used - 1) hrest' hnodup.2 (by simpa using hfuel)).bind
    rintro r μ' ⟨rfl, hswap⟩
    refine meets_pure ⟨?_, (swaps_drop hnodup.1).trans hswap⟩
    rw [List.length_cons, Nat.sub_sub, Nat.add_comm 1]

/-- The chains from number `i` on are freed. -/
theorem clearTable_meets (heads : List (Option ℕ)) {rest : List (List (κ × α))} :
    ∀ {μ : Memory (DictObject κ α)} {i : ℕ},
    (rest ≠ [] → ∃ o, tp = some o ∧ μ.cells o = some (.table heads)) →
    Chains (entryAt place) entryCell μ (heads.drop i) rest →
    (addresses place rest.flatten).Nodup →
      Meets (clearTable tp rest.length i rest.flatten.length) μ fun r μ' =>
        r = rest.flatten ∧ Swaps (addresses place rest.flatten) [] μ μ' := by
  induction rest with
  | nil =>
    intro μ i _ _ _
    exact meets_pure ⟨rfl, Swaps.refl _ μ⟩
  | cons b rest ih =>
    intro μ i htable hchains hnodup
    obtain ⟨o, rfl, ho⟩ := htable (by simp)
    rw [List.length_cons]
    unfold clearTable
    by_cases hzero : (b :: rest).flatten.length = 0
    · rw [if_pos hzero, List.length_eq_zero_iff.mp hzero]
      exact meets_pure ⟨rfl, Swaps.refl _ μ⟩
    rw [if_neg hzero]
    obtain ⟨hd, hget, hchain, hrest⟩ := hchains.next
    apply meets_loadTable_bind ho
    apply meets_headAt_bind hget
    apply meets_fuel_bind
    rw [List.flatten_cons, addresses_append] at hnodup
    obtain ⟨hb, hothers, hdisjoint⟩ := List.nodup_append.mp hnodup
    have hcleared := clearChain_meets (b :: rest).flatten.length hchain hb
      (hchain.length_le_next hb)
    apply hcleared.bind
    rintro r μ₁ ⟨rfl, hswap⟩
    have hkeep : ∀ p, p ∉ addresses place b → μ₁.cells p = μ.cells p := fun p hp =>
      hswap.same p hp List.not_mem_nil
    have ho₁ : μ₁.cells o = some (.table heads) := by
      rw [hkeep, ho]
      intro hin
      obtain ⟨e, he, heq⟩ := mem_addresses.mp hin
      obtain ⟨next, hnext⟩ := hchain.cell_of_mem e he
      exact Memory.ne_of_cells hnext ho (by simp [entryCell]) heq
    have hrest₁ : Chains (entryAt place) entryCell μ₁ (heads.drop (i + 1)) rest := by
      apply hrest.frame
      intro e he
      apply hkeep
      intro hin
      exact hdisjoint _ hin _ (mem_addresses.mpr ⟨e, he, rfl⟩) rfl
    have hused : (b :: rest).flatten.length - b.length = rest.flatten.length := by
      rw [List.flatten_cons, List.length_append]
      omega
    dsimp only
    rw [hused]
    apply (ih (i := i + 1) (fun _ => ⟨o, rfl, ho₁⟩) hrest₁ hothers).bind
    rintro r μ' ⟨rfl, hswap'⟩
    refine meets_pure ⟨rfl, ?_⟩
    rw [List.flatten_cons, addresses_append]
    exact (hswap.append (addresses place rest.flatten)).trans hswap'

variable {μ : Memory (DictObject κ α)} {ht : ℕ} {T : HashTable κ α hash}

theorem dictClear_meets (h : Holds μ ht tp place T) : Meets (dictClear ht) μ fun r μ' =>
    r = T.entries ∧ μ'.cells ht = some (.dict {}) ∧
      Swaps (footprint ht tp place T.entries) [ht] μ μ' := by
  unfold dictClear
  have hcleared : Meets (clearTable tp T.size 0 T.entries.length) μ fun r μ' =>
      r = T.entries ∧ Swaps (addresses place T.entries) [] μ μ' := by
    obtain ⟨-, hchains, hnodup, -, -⟩ := h
    unfold HashTable.entries at hnodup ⊢
    unfold HashTable.size
    generalize T.buckets = bs at hchains hnodup
    cases hchains with
    | null => exact clearTable_meets [] (fun hne => absurd rfl hne) .nil hnodup
    | table cell chains => exact clearTable_meets _ (fun _ => ⟨_, rfl, cell⟩) chains hnodup
  apply meets_loadDict_bind h.header
  apply hcleared.bind
  rintro r μ₁ ⟨rfl, hswap⟩
  have hkeep : ∀ p, (p = ht ∨ tp = some p) → μ₁.cells p = μ.cells p := by
    intro p hp
    refine hswap.same p (fun hin => ?_) List.not_mem_nil
    obtain ⟨e, he, rfl⟩ := mem_addresses.mp hin
    exact hp.elim (h.entry_ne_dict he) (h.entry_ne_table he)
  apply meets_freeOpt_bind (F := [ht])
  · intro p hp
    rw [hkeep p (Or.inr hp)]
    exact h.live (mem_footprint.mpr (Or.inr (Or.inl hp)))
  · intro p hp hin
    rw [List.mem_singleton] at hin
    exact h.table_ne_dict (hin ▸ hp)
  intro μ₂ hsame hfreed
  have hheader : μ₂.cells ht ≠ none := by
    rw [hsame ht h.table_ne_dict, hkeep ht (Or.inl rfl), h.header]
    simp
  apply meets_store_bind hheader
  refine meets_pure ⟨rfl, Memory.cells_set_self _ _, ?_⟩
  have hentries : Swaps (footprint ht tp place T.entries) (tp.toList ++ [ht]) μ μ₁ := by
    apply (hswap.append (tp.toList ++ [ht])).congr
    · intro p
      simp only [footprint, List.mem_append, List.mem_cons, List.not_mem_nil, or_false]
      tauto
    · intro p
      rw [List.nil_append]
  exact (hentries.trans hfreed).trans (swaps_set hheader List.mem_cons_self)

/-- **`dictRelease` frees all objects of the dictionary**, and the destructors are called on its
entries, in the order of an iteration. -/
theorem dictRelease_meets (h : Holds μ ht tp place T) : Meets (dictRelease ht) μ fun r μ' =>
    r = T.entries ∧ Swaps (footprint ht tp place T.entries) [] μ μ' := by
  unfold dictRelease
  apply (dictClear_meets h).bind
  rintro r μ₁ ⟨rfl, hheader, hswap⟩
  apply meets_free_bind (by simp [hheader])
  exact meets_pure ⟨rfl, hswap.trans (swaps_drop List.not_mem_nil)⟩

end Releasing

/-! ## Iterating -/

section Iterating

variable [DecidableEq κ] {place : κ → ℕ} {tp : Option ℕ} {μ : Memory (DictObject κ α)} {ht : ℕ}
  {T : HashTable κ α hash}

/-- The `dictIterator` is at the place `c`.  What it has kept of the entry behind the current one
matters while there is a current one. -/
structure Points (place : κ → ℕ) (ht : ℕ) (iter : DictIterator) (c : TableIterator κ α) : Prop where
  ht : iter.ht = ht
  index : iter.index = c.index
  entry : iter.entry = none ↔ c.entry = none
  nextEntry : c.entry ≠ none → iter.nextEntry = c.nextEntry.map (entryAt place)

omit [DecidableEq κ] in
theorem points_start (place : κ → ℕ) (ht : ℕ) :
    Points (α := α) place ht (dictInitIterator ht) TableIterator.start :=
  ⟨rfl, rfl, iff_of_true rfl rfl, fun h => absurd rfl h⟩

/-- An entry holds the address of the one behind it. -/
theorem Holds.cell_behind (h : Holds μ ht tp place T) {e : κ × α} (he : e ∈ T.entries) :
    μ.cells (place e.1) = some (entryCell e ((T.behind e.1).map (entryAt place))) := by
  have hmem := (T.mem_entries_iff e).mp he
  obtain ⟨rest, hchain, hbehind, -⟩ := T.chainFrom_of_mem he
  have hlt : hash e.1 % T.size < T.buckets.length := by
    by_contra hge
    rw [List.getD_eq_getElem?_getD, List.getElem?_eq_none (Nat.not_lt.mp hge)] at hmem
    exact List.not_mem_nil hmem
  obtain ⟨p, hbucket⟩ : ∃ p, Chain (entryAt place) entryCell μ p
      (T.buckets.getD (hash e.1 % T.size) []) := by
    rcases h with ⟨-, hchains, -, -, -⟩
    generalize T.buckets = bs at hchains hlt
    cases hchains with
    | null => exact absurd hlt (Nat.not_lt_zero _)
    | table cell chains =>
      obtain ⟨p, -, hp⟩ := chains.get hlt
      exact ⟨p, hp⟩
  rw [← List.takeWhile_append_dropWhile (p := fun x => decide (x.1 ≠ e.1))
    (l := T.buckets.getD (hash e.1 % T.size) [])] at hbucket
  obtain ⟨q, hq⟩ := hbucket.suffix
  replace hq : Chain (entryAt place) entryCell μ q (e :: rest) := by rwa [← hchain]
  obtain ⟨-, q', hcell, hrest⟩ := hq
  rw [hbehind, ← hrest.head_eq]
  exact hcell

omit [DecidableEq κ] in
theorem advance_end (h : Holds μ ht tp place T) (hsize : T.size < 2 ^ 31) {iter : DictIterator}
    {i : ℕ} (hht : iter.ht = ht) (hindex : iter.index + 1 = i) (hentry : iter.entry = none)
    (hi : T.size ≤ i) : Meets (advance iter) μ fun r μ' =>
      μ' = μ ∧ r = (true, { iter with index := i }) := by
  unfold advance
  rw [hentry]
  dsimp only
  rw [hht]
  apply meets_loadDict_bind h.header
  dsimp only
  rw [toInt32_of_lt hsize, hindex, if_pos (by omega)]
  exact meets_pure ⟨rfl, rfl⟩

omit [DecidableEq κ] in
/-- The next chain, empty or not. -/
theorem advance_chain (h : Holds μ ht tp place T) (hsize : T.size < 2 ^ 31) {iter : DictIterator}
    {i : ℕ} {b : List (κ × α)} (hht : iter.ht = ht) (hindex : iter.index + 1 = i)
    (hentry : iter.entry = none) (hb : T.buckets[i]? = some b) :
    Meets (advance iter) μ fun r μ' => μ' = μ ∧ ∃ p, Chain (entryAt place) entryCell μ p b ∧
      r = (false, { iter with index := i, entry := p }) := by
  obtain ⟨hi, hget⟩ := List.getElem?_eq_some_iff.mp hb
  unfold advance
  rw [hentry]
  dsimp only
  rw [hht]
  apply meets_loadDict_bind h.header
  dsimp only
  rw [toInt32_of_lt hsize, hindex, if_neg (by rw [not_le, Nat.cast_lt]; exact hi)]
  obtain ⟨q, heads, p, rfl, hcell, hp, hchain⟩ : ∃ q heads p, tp = some q ∧
      μ.cells q = some (.table heads) ∧ heads[i]? = some p ∧
      Chain (entryAt place) entryCell μ p b := by
    rcases h with ⟨-, hchains, -, -, -⟩
    generalize T.buckets = bs at hchains hi hb hget
    cases hchains with
    | null => exact absurd hi (Nat.not_lt_zero _)
    | table cell chains =>
      obtain ⟨p, hp, hchain⟩ := chains.get hi
      rw [List.getD_eq_getElem?_getD, hb] at hchain
      exact ⟨_, _, p, rfl, cell, hp, hchain⟩
  apply meets_loadTable_bind hcell
  rw [Int.toNat_natCast]
  apply meets_headAt_bind hp
  exact meets_pure ⟨rfl, p, hchain, rfl⟩

omit [DecidableEq κ] in
/-- The search for a chain that is not empty. -/
theorem nextFrom_scan (h : Holds μ ht tp place T) (hsize : T.size < 2 ^ 31)
    (nextEntry : Option (κ × α)) : ∀ {bs : List (List (κ × α))} {i : ℕ} (fuel : ℕ)
    (iter : DictIterator), T.buckets.drop i = bs → bs.length < fuel → iter.ht = ht →
    iter.index + 1 = i → iter.entry = none → Meets (nextFrom fuel iter) μ fun r μ' => μ' = μ ∧
      r.1 = (TableIterator.scan nextEntry i bs).1.map (entryAt place) ∧
      Points place ht r.2 (TableIterator.scan nextEntry i bs).2 := by
  intro bs
  induction bs with
  | nil =>
    intro i fuel iter hbs hfuel hht hindex hentry
    obtain ⟨n, rfl⟩ : ∃ n, fuel = n + 1 := ⟨fuel - 1, by simp at hfuel; omega⟩
    unfold nextFrom
    apply (advance_end h hsize hht hindex hentry (List.drop_eq_nil_iff.mp hbs)).bind
    rintro r μ' ⟨rfl, rfl⟩
    exact meets_pure ⟨rfl, rfl, hht, rfl, iff_of_true hentry rfl, fun hne => absurd rfl hne⟩
  | cons b bs ih =>
    intro i fuel iter hbs hfuel hht hindex hentry
    obtain ⟨n, rfl⟩ : ∃ n, fuel = n + 1 := ⟨fuel - 1, by simp at hfuel; omega⟩
    have hb : T.buckets[i]? = some b := by
      rw [← List.head?_drop, hbs]
      rfl
    have hrest : T.buckets.drop (i + 1) = bs := by
      rw [← List.tail_drop, hbs]
      rfl
    unfold nextFrom
    apply (advance_chain h hsize hht hindex hentry hb).bind
    rintro r μ' ⟨rfl, p, hchain, rfl⟩
    cases b with
    | nil =>
      obtain rfl := Chain.nil_iff.mp hchain
      rw [TableIterator.scan]
      exact ih n _ hrest (by simpa using hfuel) hht rfl rfl
    | cons e chain =>
      obtain ⟨rfl, q, hcell, hchain⟩ := hchain
      dsimp only
      apply meets_loadEntry_bind hcell
      refine meets_pure ⟨rfl, rfl, hht, rfl, iff_of_false (by simp) (by simp [TableIterator.scan]), ?_⟩
      exact fun _ => hchain.head_eq

omit [DecidableEq κ] in
theorem advance_entry {iter : DictIterator} (hentry : iter.entry ≠ none) :
    Meets (advance iter) μ fun r μ' => μ' = μ ∧ r = (false, { iter with entry := iter.nextEntry }) := by
  obtain ⟨p, hp⟩ := Option.ne_none_iff_exists'.mp hentry
  unfold advance
  rw [hp]
  exact meets_pure ⟨rfl, rfl⟩

theorem nextFrom_meets (h : Holds μ ht tp place T) (hbound : T.size < 2 ^ 31) {iter : DictIterator}
    {c : TableIterator κ α} (hc : TableIterator.Valid T c) (hpoints : Points place ht iter c)
    {fuel : ℕ} (hfuel : T.size + 1 < fuel) : Meets (nextFrom fuel iter) μ fun r μ' => μ' = μ ∧
      r.1 = (TableIterator.next T c).1.map (entryAt place) ∧
      Points place ht r.2 (TableIterator.next T c).2 := by
  obtain ⟨index, entry, nextEntry⟩ := c
  obtain ⟨hht, hindex, hentry, hnext⟩ := hpoints
  dsimp only at hindex hentry hnext
  have hge : -1 ≤ index := hc.index
  have hcast : index + 1 = ((index + 1).toNat : ℕ) := (Int.toNat_of_nonneg (by omega)).symm
  have hlen : (T.buckets.drop (index + 1).toNat).length ≤ T.size := by
    rw [List.length_drop]
    exact Nat.sub_le _ _
  obtain ⟨n, rfl⟩ : ∃ n, fuel = n + 1 := ⟨fuel - 1, by omega⟩
  cases entry with
  | none =>
    have hscan := nextFrom_scan h hbound nextEntry (i := (index + 1).toNat) (n + 1) iter rfl
      (by omega) hht (by rw [hindex]; exact hcast) (hentry.mpr rfl)
    rwa [← hcast] at hscan
  | some x =>
    have hnone : iter.entry ≠ none := fun heq => by simpa using hentry.mp heq
    unfold nextFrom
    apply (advance_entry hnone).bind
    rintro r μ' ⟨rfl, rfl⟩
    dsimp only
    rw [hnext (by simp)]
    cases nextEntry with
    | none =>
      -- the end of a chain
      have hscan := nextFrom_scan h hbound none (i := (index + 1).toNat) n
        { iter with entry := none } rfl (by omega) hht
        (by dsimp only; rw [hindex]; exact hcast) rfl
      rw [← hcast] at hscan
      rwa [hnext (by simp)] at hscan
    | some e =>
      apply meets_loadEntry_bind (h.cell_behind (hc.mem (by simp) e rfl))
      exact meets_pure ⟨rfl, rfl, hht, hindex, iff_of_false (by simp) (by simp [TableIterator.next]),
        fun _ => rfl⟩

/-- **`dictNext` is a step of the iterator over the table.** -/
theorem dictNext_meets (h : Holds μ ht tp place T) (hbound : T.size < 2 ^ 31) {iter : DictIterator}
    {c : TableIterator κ α} (hc : TableIterator.Valid T c) (hpoints : Points place ht iter c) :
    Meets (dictNext iter) μ fun r μ' => μ' = μ ∧
      r.1 = (TableIterator.next T c).1.map (entryAt place) ∧
      Points place ht r.2 (TableIterator.next T c).2 := by
  unfold dictNext
  exact nextFrom_meets h hbound hc hpoints (by omega)

end Iterating

/-! ## Calls -/

/-- A use of a dictionary with one iterator. -/
inductive DictCall (κ α : Type) where
  | find (key : κ)
  | add (key : κ) (val : α)
  | setVal (key : κ) (val : α)
  | rewind
  | next

/-- What the user of a dictionary sees. -/
inductive DictAnswer (κ α : Type) where
  | value (v : Option α)
  | status (s : Status)
  | entry (e : Option (κ × α))
  deriving DecidableEq

section Calls

variable [DecidableEq κ] (grant : ℕ → Bool) (hash : κ → ℕ)

/-- A call with the code of `dict.c`, and what the user reads from the entry it gets. -/
def DictCall.perform (ht : ℕ) (iter : DictIterator) :
    DictCall κ α → DictRoutine κ α (DictAnswer κ α × DictIterator)
  | .find key => do
    match ← dictFind hash ht key with
    | none => pure (.value none, iter)
    | some he => do
      let e ← loadEntry he
      pure (.value (some e.val), iter)
  | .add key val => do
    let s ← dictAdd grant hash ht key val
    pure (.status s, iter)
  | .setVal key val => do
    match ← dictFind hash ht key with
    | none => pure (.status .err, iter)
    | some he => do
      dictSetHashVal he val
      pure (.status .ok, iter)
  | .rewind => pure (.status .ok, dictInitIterator ht)
  | .next => do
    let r ← dictNext iter
    match r.1 with
    | none => pure (.entry none, r.2)
    | some he => do
      let e ← loadEntry he
      pure (.entry (some (e.key, e.val)), r.2)

def performAll (ht : ℕ) : DictIterator → List (DictCall κ α) → DictRoutine κ α (List (DictAnswer κ α))
  | _, [] => pure []
  | iter, call :: calls => do
    let r ← call.perform grant hash ht iter
    let answers ← performAll ht r.2 calls
    pure (r.1 :: answers)

/-- The life of a dictionary: the answers to the calls, and the keys and values that its release
destroys; `none` if it cannot be created. -/
def session (calls : List (DictCall κ α)) :
    DictRoutine κ α (Option (List (DictAnswer κ α) × List (κ × α))) := do
  match ← dictCreate grant with
  | none => pure none
  | some ht => do
    let answers ← performAll grant hash ht (dictInitIterator ht) calls
    let destroyed ← dictRelease ht
    pure (some (answers, destroyed))

end Calls

/-! ## The same calls to a hash table -/

/-- A call to a hash table with an iterator.  An entry for a new key is refused only when memory
is (`refusals`); the table may then have grown, and so it may when the key was there. -/
inductive Steps [DecidableEq κ] (refusals : Prop) : HashTable κ α hash → TableIterator κ α →
    DictCall κ α → DictAnswer κ α → HashTable κ α hash → TableIterator κ α → Prop where
  | find {T : HashTable κ α hash} {c : TableIterator κ α} {key : κ} :
      Steps refusals T c (.find key) (.value (T.find key)) T c
  | added {T T' : HashTable κ α hash} {c : TableIterator κ α} {key : κ} {val : α}
      (h : T.add key val = some T') : Steps refusals T c (.add key val) (.status .ok) T' c
  | rejected {T T' : HashTable κ α hash} {c : TableIterator κ α} {key : κ} {val : α}
      (hT' : T' = T ∨ T' = T.expandIfNeeded) (h : T.find key ≠ none ∨ refusals) :
      Steps refusals T c (.add key val) (.status .err) T' c
  | replaced {T : HashTable κ α hash} {c : TableIterator κ α} {key : κ} {val : α}
      (h : T.find key ≠ none) :
      Steps refusals T c (.setVal key val) (.status .ok) (T.setVal key val) (c.setVal key val)
  | missing {T : HashTable κ α hash} {c : TableIterator κ α} {key : κ} {val : α}
      (h : T.find key = none) : Steps refusals T c (.setVal key val) (.status .err) T c
  | rewind {T : HashTable κ α hash} {c : TableIterator κ α} :
      Steps refusals T c .rewind (.status .ok) T TableIterator.start
  | next {T : HashTable κ α hash} {c : TableIterator κ α} :
      Steps refusals T c .next (.entry (TableIterator.next T c).1) T (TableIterator.next T c).2

/-- A sequence of calls to a hash table. -/
inductive Replays [DecidableEq κ] (refusals : Prop) : HashTable κ α hash → TableIterator κ α →
    List (DictCall κ α) → List (DictAnswer κ α) → HashTable κ α hash → Prop where
  | nil {T : HashTable κ α hash} {c : TableIterator κ α} : Replays refusals T c [] [] T
  | cons {T T₁ T' : HashTable κ α hash} {c c₁ : TableIterator κ α} {call : DictCall κ α}
      {answer : DictAnswer κ α} {calls : List (DictCall κ α)} {answers : List (DictAnswer κ α)}
      (h : Steps refusals T c call answer T₁ c₁) (hs : Replays refusals T₁ c₁ calls answers T') :
      Replays refusals T c (call :: calls) (answer :: answers) T'

section Sessions

variable [DecidableEq κ] {grant : ℕ → Bool} {place : κ → ℕ} {tp : Option ℕ}
  {μ : Memory (DictObject κ α)} {ht : ℕ} {T : HashTable κ α hash}

theorem Steps.mono {P P' : Prop} (hP : P → P') {T T' : HashTable κ α hash}
    {c c' : TableIterator κ α} {call : DictCall κ α} {answer : DictAnswer κ α}
    (h : Steps P T c call answer T' c') : Steps P' T c call answer T' c' := by
  cases h with
  | find => exact .find
  | added h => exact .added h
  | rejected hT' h => exact .rejected hT' (h.imp_right hP)
  | replaced h => exact .replaced h
  | missing h => exact .missing h
  | rewind => exact .rewind
  | next => exact .next

theorem Replays.mono {P P' : Prop} (hP : P → P') {T T' : HashTable κ α hash}
    {c : TableIterator κ α} {calls : List (DictCall κ α)} {answers : List (DictAnswer κ α)}
    (h : Replays P T c calls answers T') : Replays P' T c calls answers T' := by
  induction h with
  | nil => exact .nil
  | cons h _ ih => exact .cons (h.mono hP) ih

/-- The dictionary at `ht` and the iterator `iter` are the hash table `T` and the iterator `c`. -/
structure Represents (μ : Memory (DictObject κ α)) (ht : ℕ) (iter : DictIterator) (F : List ℕ)
    (T : HashTable κ α hash) (c : TableIterator κ α) : Prop where
  dict : ∃ tp place, Holds μ ht tp place T ∧ Points place ht iter c ∧
    F = footprint ht tp place T.entries
  valid : TableIterator.Valid T c

/-- An insertion adds one entry or none. -/
theorem Steps.length_le {P : Prop} {T T' : HashTable κ α hash} {c c' : TableIterator κ α}
    {call : DictCall κ α} {answer : DictAnswer κ α} (h : Steps P T c call answer T' c') :
    T'.entries.length ≤ T.entries.length + 1 := by
  cases h with
  | added h => rw [(HashTable.entries_add_perm h).length_eq, List.length_cons]
  | rejected hT' h =>
    rcases hT' with rfl | rfl
    · exact Nat.le_succ _
    · rw [T.entries_expandIfNeeded_perm.length_eq]
      exact Nat.le_succ _
  | replaced h =>
    rw [T.entries_setVal, List.length_map]
    exact Nat.le_succ _
  | _ => exact Nat.le_succ _

omit [DecidableEq κ] in
/-- The iterator stays where it is when the entries it knows do. -/
theorem Points.congr_place {place' : κ → ℕ} {iter : DictIterator} {c : TableIterator κ α}
    (h : Points place ht iter c)
    (hsame : c.entry ≠ none → ∀ e, c.nextEntry = some e → place' e.1 = place e.1) :
    Points place' ht iter c := by
  refine ⟨h.ht, h.index, h.entry, fun hentry => ?_⟩
  rw [h.nextEntry hentry]
  cases hnext : c.nextEntry with
  | none => rfl
  | some e => exact congrArg some (hsame hentry e hnext).symm

/-- **Every call is a step of the hash table.** -/
theorem perform_meets {iter : DictIterator} {F : List ℕ} {c : TableIterator κ α}
    (h : Represents μ ht iter F T c) (hbound : T.entries.length < 2 ^ 30) (call : DictCall κ α) :
    Meets (call.perform grant hash ht iter) μ fun r μ' => ∃ F' T' c',
      Represents μ' ht r.2 F' T' c' ∧ Swaps F F' μ μ' ∧
      Steps (Refused grant μ μ') T c call r.1 T' c' := by
  obtain ⟨⟨tp, place, hholds, hpoints, rfl⟩, hvalid⟩ := h
  cases call with
  | find key =>
    apply (dictFind_meets hholds key).bind
    rintro r μ' ⟨rfl, rfl⟩
    cases hfind : T.find key with
    | none =>
      refine meets_pure ⟨_, T, c, ⟨⟨tp, place, hholds, hpoints, rfl⟩, hvalid⟩, Swaps.refl _ _, ?_⟩
      rw [← hfind]
      exact .find
    | some v =>
      obtain ⟨next, hcell⟩ := hholds.cell ((T.find_eq_some_iff key v).mp hfind)
      apply meets_loadEntry_bind hcell
      refine meets_pure ⟨_, T, c, ⟨⟨tp, place, hholds, hpoints, rfl⟩, hvalid⟩, Swaps.refl _ _, ?_⟩
      rw [← hfind]
      exact .find
  | add key val =>
    apply (dictAdd_meets hholds hbound key val).bind
    rintro r μ' (⟨rfl, hwhy, T', tp', hT', hholds', hswap⟩ |
      ⟨rfl, T', tp', place', hadd, hplace, hholds', hswap⟩)
    · refine meets_pure ⟨_, T', c, ⟨⟨tp', place, hholds', hpoints, rfl⟩, ?_⟩, hswap,
        .rejected hT' hwhy⟩
      rcases hT' with rfl | rfl
      · exact hvalid
      · exact hvalid.expandIfNeeded
    · refine meets_pure ⟨_, T', c, ⟨⟨tp', place', hholds', hpoints.congr_place ?_, rfl⟩,
        hvalid.add hadd⟩, hswap, .added hadd⟩
      -- an entry that is there has another key
      intro hentry e he
      apply hplace
      rintro rfl
      have hnone := (T.add_isSome_iff e.1 val).mp (by rw [hadd]; rfl)
      exact (T.find_eq_none_iff e.1).mp hnone e.2 (hvalid.mem hentry e he)
  | setVal key val =>
    apply (dictFind_meets hholds key).bind
    rintro r μ' ⟨rfl, rfl⟩
    cases hfind : T.find key with
    | none =>
      exact meets_pure ⟨_, T, c, ⟨⟨tp, place, hholds, hpoints, rfl⟩, hvalid⟩, Swaps.refl _ _,
        .missing hfind⟩
    | some v =>
      apply (dictSetHashVal_meets hholds hfind val).bind
      rintro _ μ'' ⟨hholds', hswap⟩
      refine meets_pure ⟨_, T.setVal key val, c.setVal key val,
        ⟨⟨tp, place, hholds', ?_, rfl⟩, hvalid.setVal key val⟩, hswap, .replaced (by simp [hfind])⟩
      obtain ⟨hht, hindex, hentry, hnext⟩ := hpoints
      refine ⟨hht, hindex, hentry.trans Option.map_eq_none_iff.symm, fun hne => ?_⟩
      rw [hnext fun heq => hne (Option.map_eq_none_iff.mpr heq), TableIterator.setVal,
        Option.map_map]
      congr 1
      funext e
      dsimp only [Function.comp, entryAt]
      split <;> rfl
  | rewind =>
    exact meets_pure ⟨_, T, TableIterator.start, ⟨⟨tp, place, hholds, points_start place ht, rfl⟩,
      TableIterator.valid_start T⟩, Swaps.refl _ _, .rewind⟩
  | next =>
    have hsize : T.size < 2 ^ 31 := by rcases hholds.crowded with hle | hle <;> omega
    apply (dictNext_meets hholds hsize hvalid hpoints).bind
    rintro ⟨r, iter'⟩ μ' ⟨rfl, hr, hpoints'⟩
    obtain ⟨hvalid', hhead, -⟩ := TableIterator.next_remaining T hvalid
    dsimp only at hr hpoints' ⊢
    rw [hr]
    cases hnext : (TableIterator.next T c).1 with
    | none =>
      refine meets_pure ⟨_, T, _, ⟨⟨tp, place, hholds, hpoints', rfl⟩, hvalid'⟩, Swaps.refl _ _, ?_⟩
      rw [← hnext]
      exact .next
    | some e =>
      have hmem : e ∈ T.entries := by
        apply TableIterator.remaining_subset T c
        rw [hhead] at hnext
        exact List.mem_of_mem_head? hnext
      obtain ⟨next, hcell⟩ := hholds.cell hmem
      apply meets_loadEntry_bind hcell
      refine meets_pure ⟨_, T, _, ⟨⟨tp, place, hholds, hpoints', rfl⟩, hvalid'⟩, Swaps.refl _ _, ?_⟩
      rw [show (e.1, e.2) = e from rfl, ← hnext]
      exact .next

/-- **Any sequence of calls is one to a hash table.** -/
theorem performAll_meets {calls : List (DictCall κ α)} : ∀ {μ : Memory (DictObject κ α)}
    {iter : DictIterator} {F : List ℕ} {T : HashTable κ α hash} {c : TableIterator κ α},
    Represents μ ht iter F T c → T.entries.length + calls.length ≤ 2 ^ 30 →
    Meets (performAll grant hash ht iter calls) μ fun answers μ' => ∃ iter' F' T' c',
      Represents μ' ht iter' F' T' c' ∧ Swaps F F' μ μ' ∧
      Replays (Refused grant μ μ') T c calls answers T' := by
  induction calls with
  | nil =>
    intro μ iter F T c h _
    exact meets_pure ⟨iter, F, T, c, h, Swaps.refl _ _, .nil⟩
  | cons call calls ih =>
    intro μ iter F T c h hbound
    rw [List.length_cons] at hbound
    unfold performAll
    apply (perform_meets h (by omega) call).bind
    rintro r μ₁ ⟨F₁, T₁, c₁, h₁, hswap₁, hstep⟩
    have hlen := hstep.length_le
    apply (ih h₁ (by omega)).bind
    rintro answers μ' ⟨iter', F', T', c', h', hswap', hreplays⟩
    refine meets_pure ⟨iter', F', T', c', h', hswap₁.trans hswap', .cons (hstep.mono ?_)
      (hreplays.mono ?_)⟩
    · exact fun hno => hno.mono le_rfl hswap'.next
    · exact fun hno => hno.mono hswap₁.next le_rfl

omit [DecidableEq κ] in
/-- A new dictionary has no entries and no table. -/
theorem holds_new {p : ℕ} (hp : μ.cells p = some (.dict {})) (place : κ → ℕ) :
    Holds μ p none place (HashTable.empty : HashTable κ α hash) where
  header := hp
  chains := .null
  nodup := List.nodup_nil
  power := Or.inl rfl
  crowded := Or.inl (Nat.zero_le _)

/-- **The life of a dictionary.**  It comes to an end without an access to an object that does not
exist.  The answers are those of a hash table, the destructors are called on each of its last
entries once, and at the end the memory is what it was: nothing is leaked and nothing of anybody
else is touched. -/
theorem session_meets (grant : ℕ → Bool) (hash : κ → ℕ) (calls : List (DictCall κ α))
    (hbound : calls.length ≤ 2 ^ 30) (μ : Memory (DictObject κ α)) :
    Meets (session grant hash calls) μ fun r μ' => μ'.cells = μ.cells ∧
      ((r = none ∧ Refused grant μ μ') ∨ ∃ answers, ∃ T : HashTable κ α hash,
        r = some (answers, T.entries) ∧
        Replays (Refused grant μ μ') HashTable.empty TableIterator.start calls answers T) := by
  unfold session dictCreate
  apply meets_alloc_bind
  · exact fun hno => meets_pure ⟨rfl, Or.inl ⟨rfl, refused_skip hno⟩⟩
  intro _
  have hnew : Represents (μ.push (.dict {})) μ.next (dictInitIterator μ.next) [μ.next]
      (HashTable.empty : HashTable κ α hash) TableIterator.start :=
    ⟨⟨none, fun _ => 0, holds_new μ.cells_push_self _, points_start _ _, rfl⟩,
      TableIterator.valid_start _⟩
  dsimp only
  apply (performAll_meets hnew (by simpa [HashTable.empty, HashTable.entries] using hbound)).bind
  rintro answers μ₁ ⟨iter', F', T, c', ⟨⟨tp, place, hholds, -, rfl⟩, -⟩, hswap, hreplays⟩
  apply (dictRelease_meets hholds).bind
  rintro destroyed μ' ⟨rfl, hfreed⟩
  have hall : Swaps [] [] μ μ' := ((swaps_push _).trans hswap).trans hfreed
  refine meets_pure ⟨hall.cells_eq, Or.inr ⟨answers, T, rfl, hreplays.mono fun hno => ?_⟩⟩
  exact hno.mono (Nat.le_succ _) hfreed.next

end Sessions

/-- Two entries that collide, one key added twice, and a look at what is there. -/
theorem session_collision : Meets (session (fun _ => true) (fun k => k)
      [.add 1 10, .add 5 50, .add 1 11, .find 1, .next, .next, .next]) Memory.empty fun r μ' =>
    μ'.cells = Memory.empty.cells ∧
      ((r = none ∧ Refused (fun _ => true) Memory.empty μ') ∨ ∃ answers,
        ∃ T : HashTable ℕ ℕ (fun k => k), r = some (answers, T.entries) ∧
        Replays (Refused (fun _ => true) Memory.empty μ') HashTable.empty TableIterator.start
          [.add 1 10, .add 5 50, .add 1 11, .find 1, .next, .next, .next] answers T) :=
  session_meets (fun _ => true) (fun k => k) _ (by decide) Memory.empty

/-! ## The same calls to a finite map -/

/-- A call to a finite map; an iteration sees what is in it. -/
inductive MapSteps [DecidableEq κ] (refusals : Prop) :
    (κ → Option α) → DictCall κ α → DictAnswer κ α → (κ → Option α) → Prop where
  | find {m : κ → Option α} {key : κ} : MapSteps refusals m (.find key) (.value (m key)) m
  | added {m : κ → Option α} {key : κ} {val : α} (h : m key = none) :
      MapSteps refusals m (.add key val) (.status .ok) (Function.update m key (some val))
  | rejected {m : κ → Option α} {key : κ} {val : α} (h : m key ≠ none ∨ refusals) :
      MapSteps refusals m (.add key val) (.status .err) m
  | replaced {m : κ → Option α} {key : κ} {val : α} (h : m key ≠ none) :
      MapSteps refusals m (.setVal key val) (.status .ok) (Function.update m key (some val))
  | missing {m : κ → Option α} {key : κ} {val : α} (h : m key = none) :
      MapSteps refusals m (.setVal key val) (.status .err) m
  | rewind {m : κ → Option α} : MapSteps refusals m .rewind (.status .ok) m
  | next {m : κ → Option α} {e : Option (κ × α)} (h : ∀ x, e = some x → m x.1 = some x.2) :
      MapSteps refusals m .next (.entry e) m

/-- A sequence of calls to a finite map. -/
inductive MapReplays [DecidableEq κ] (refusals : Prop) : (κ → Option α) → List (DictCall κ α) →
    List (DictAnswer κ α) → (κ → Option α) → Prop where
  | nil {m : κ → Option α} : MapReplays refusals m [] [] m
  | cons {m m₁ m' : κ → Option α} {call : DictCall κ α} {answer : DictAnswer κ α}
      {calls : List (DictCall κ α)} {answers : List (DictAnswer κ α)}
      (h : MapSteps refusals m call answer m₁) (hs : MapReplays refusals m₁ calls answers m') :
      MapReplays refusals m (call :: calls) (answer :: answers) m'

section Maps

variable [DecidableEq κ] {P : Prop}

/-- A hash table is a finite map; of the iterator only matters that it is in the table. -/
theorem Steps.map {T T' : HashTable κ α hash} {c c' : TableIterator κ α} {call : DictCall κ α}
    {answer : DictAnswer κ α} (h : Steps P T c call answer T' c') (hc : TableIterator.Valid T c) :
    MapSteps P T.find call answer T'.find ∧ TableIterator.Valid T' c' := by
  cases h with
  | find => exact ⟨.find, hc⟩
  | @added _ _ key val h =>
    have hfind : T'.find = Function.update T.find key (some val) := by
      funext k
      rw [HashTable.find_add h, Function.update_apply]
    rw [hfind]
    exact ⟨.added ((T.add_isSome_iff key val).mp (by rw [h]; rfl)), hc.add h⟩
  | rejected hT' h =>
    rcases hT' with rfl | rfl
    · exact ⟨.rejected h, hc⟩
    · rw [show T.expandIfNeeded.find = T.find from funext T.find_expandIfNeeded]
      exact ⟨.rejected h, hc.expandIfNeeded⟩
  | @replaced _ key val h =>
    obtain ⟨u, hu⟩ := Option.ne_none_iff_exists'.mp h
    have hfind : (T.setVal key val).find = Function.update T.find key (some val) := by
      funext k
      rw [T.find_setVal hu, Function.update_apply]
    rw [hfind]
    exact ⟨.replaced h, hc.setVal key val⟩
  | missing h => exact ⟨.missing h, hc⟩
  | rewind => exact ⟨.rewind, TableIterator.valid_start T⟩
  | next =>
    obtain ⟨hvalid, hhead, -⟩ := TableIterator.next_remaining T hc
    refine ⟨.next fun e he => ?_, hvalid⟩
    rw [hhead] at he
    exact (T.find_eq_some_iff e.1 e.2).mpr
      (TableIterator.remaining_subset T c (List.mem_of_mem_head? he))

theorem Replays.map {T T' : HashTable κ α hash} {c : TableIterator κ α} {calls : List (DictCall κ α)}
    {answers : List (DictAnswer κ α)} (h : Replays P T c calls answers T')
    (hc : TableIterator.Valid T c) : MapReplays P T.find calls answers T'.find := by
  induction h with
  | nil => exact .nil
  | cons h _ ih =>
    obtain ⟨hstep, hvalid⟩ := h.map hc
    exact .cons hstep (ih hvalid)

/-- **A dictionary is a finite map** that begins empty: whatever is called, the answers are those of
the map, and at the end the destructors are called once for every key that is in it, with the
value it has then. -/
theorem session_map (grant : ℕ → Bool) (hash : κ → ℕ) (calls : List (DictCall κ α))
    (hbound : calls.length ≤ 2 ^ 30) (μ : Memory (DictObject κ α)) :
    Meets (session grant hash calls) μ fun r μ' => μ'.cells = μ.cells ∧
      ((r = none ∧ Refused grant μ μ') ∨ ∃ answers destroyed, ∃ m : κ → Option α,
        r = some (answers, destroyed) ∧ MapReplays (Refused grant μ μ') (fun _ => none) calls answers m ∧
        (destroyed.map Prod.fst).Nodup ∧ ∀ k v, (k, v) ∈ destroyed ↔ m k = some v) := by
  apply (session_meets grant hash calls hbound μ).mono
  rintro r μ' ⟨hcells, hnone | ⟨answers, T, rfl, hreplays⟩⟩
  · exact ⟨hcells, Or.inl hnone⟩
  refine ⟨hcells, Or.inr ⟨answers, T.entries, T.find, rfl, ?_, T.nodup, fun k v =>
    (T.find_eq_some_iff k v).symm⟩⟩
  have hmap := hreplays.map (TableIterator.valid_start _)
  rwa [show (HashTable.empty : HashTable κ α hash).find = fun _ => none from rfl] at hmap

/-- Without refusals an entry for a new key is always added: two keys collide, one is added twice
and the other's value is set, and an iteration goes on over an entry that is added meanwhile. -/
theorem session_map_generous : Meets (session (fun _ => true) (fun k => k)
      [.add 1 10, .add 5 50, .add 1 11, .setVal 5 51, .find 5, .next, .add 2 20, .next, .next, .next])
      Memory.empty fun r μ' => μ'.cells = Memory.empty.cells ∧
      ((r = none ∧ Refused (fun _ => true) Memory.empty μ') ∨ ∃ answers destroyed,
        ∃ m : ℕ → Option ℕ, r = some (answers, destroyed) ∧
        MapReplays (Refused (fun _ => true) Memory.empty μ') (fun _ => none)
          [.add 1 10, .add 5 50, .add 1 11, .setVal 5 51, .find 5, .next, .add 2 20, .next, .next,
            .next] answers m ∧
        (destroyed.map Prod.fst).Nodup ∧ ∀ k v, (k, v) ∈ destroyed ↔ m k = some v) :=
  session_map (fun _ => true) (fun k => k) _ (by decide) Memory.empty

end Maps

end Dict
