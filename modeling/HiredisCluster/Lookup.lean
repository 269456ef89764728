/-
# Looking up a command

`redis_lookup_cmd` searches a table in the order of names, and of subnames among rows of one
name.  It compares with an argument up to its length, so that an argument ends for it at its
first NUL.  In a table in this order the search finds what an exhaustive search finds.

`redisLookupCmd_exhaustive`: for the shipped table and arguments of arbitrary bytes.
-/
import HiredisCluster.Command
import HiredisCluster.Lib.Search

open Search

/-! ## Comparing with an argument -/

/-- Which of two strings comes first. -/
inductive Comparison (a b : Bytes) : Ordering → Prop where
  | lt (h : a < b) : Comparison a b .lt
  | eq (h : a = b) : Comparison a b .eq
  | gt (h : b < a) : Comparison a b .gt

theorem Comparison.cons {a b : Bytes} {o : Ordering} (h : Comparison a b o) (x : UInt8) :
    Comparison (x :: a) (x :: b) o := by
  cases h with
  | lt h => exact .lt (List.cons_lt_cons_iff.mpr (Or.inr ⟨rfl, h⟩))
  | eq h => exact .eq (by rw [h])
  | gt h => exact .gt (List.cons_lt_cons_iff.mpr (Or.inr ⟨rfl, h⟩))

/-- The comparison of `redis_lookup_cmd`, for texts without NUL. -/
theorem compareName_comparison (a : Bytes) {b : Bytes} (hb : 0 ∉ b) :
    Comparison a b (compareName a b) := by
  induction b generalizing a with
  | nil =>
    cases a with
    | nil => exact .eq rfl
    | cons x a => exact .gt (by simp)
  | cons y b ih =>
    have hy : y ≠ 0 := fun h => hb (h ▸ List.mem_cons_self)
    cases a with
    | nil =>
      have hlt : compareName [] (y :: b) = .lt := by simp [compareName, strncmp, hy]
      rw [hlt]
      exact .lt (by simp)
    | cons x a =>
      by_cases hxy : x = y
      · subst hxy
        have hstep : compareName (x :: a) (x :: b) = compareName a b := by
          simp [compareName, strncmp, hy]
        rw [hstep]
        exact (ih a fun h => hb (List.mem_cons_of_mem _ h)).cons x
      · rcases UInt8.lt_or_lt_of_ne hxy with hlt | hgt
        · have ho : compareName (x :: a) (y :: b) = .lt := by
            simp [compareName, strncmp, hxy, compare, compareOfLessAndEq, hlt]
          rw [ho]
          exact .lt (List.cons_lt_cons_iff.mpr (Or.inl hlt))
        · have ho : compareName (x :: a) (y :: b) = .gt := by
            simp [compareName, strncmp, hxy, compare, compareOfLessAndEq, UInt8.lt_asymm hgt]
          rw [ho]
          exact .gt (List.cons_lt_cons_iff.mpr (Or.inl hgt))

theorem cstr_cons {x : UInt8} (hx : x ≠ 0) (s : Bytes) : cstr (x :: s) = x :: cstr s := by
  simp [cstr, hx]

theorem noNul_cstr (s : Bytes) : 0 ∉ cstr s := fun h => by
  simpa using List.mem_takeWhile_imp h

/-- An argument is compared up to its first NUL. -/
theorem compareName_cstr {a : Bytes} (ha : 0 ∉ a) (b : Bytes) :
    compareName a (cstr b) = compareName a b := by
  induction b generalizing a with
  | nil => rfl
  | cons y b ih =>
    by_cases hy : y = 0
    · subst hy
      have hnil : cstr (0 :: b) = [] := by simp [cstr]
      rw [hnil]
      cases a with
      | nil => simp [compareName, strncmp]
      | cons x a =>
        have hx : x ≠ 0 := fun h => ha (h ▸ List.mem_cons_self)
        have hpos : 0 < x := UInt8.pos_iff_ne_zero.mpr hx
        simp [compareName, strncmp, hx, compare, compareOfLessAndEq, UInt8.lt_asymm hpos]
    · rw [cstr_cons hy]
      cases a with
      | nil => simp [compareName, strncmp, hy]
      | cons x a =>
        have hstep := ih (a := a) fun h => ha (List.mem_cons_of_mem _ h)
        by_cases hxy : x = y
        · simpa [compareName, strncmp, hxy, hy] using hstep
        · simp [compareName, strncmp, hxy]

/-- The comparison of a name with an argument of arbitrary bytes. -/
theorem compareName_spec {a : Bytes} (ha : 0 ∉ a) (b : Bytes) :
    Comparison a (cstr b) (compareName a b) := by
  rw [← compareName_cstr ha]
  exact compareName_comparison a (noNul_cstr b)

theorem Comparison.eq_iff {a b : Bytes} {o : Ordering} (h : Comparison a b o) :
    o = .eq ↔ a = b := by
  cases h with
  | lt h => exact ⟨fun ho => (by cases ho), fun hab => absurd (hab ▸ h) (List.lt_irrefl _)⟩
  | eq h => exact ⟨fun _ => h, fun _ => rfl⟩
  | gt h => exact ⟨fun ho => (by cases ho), fun hab => absurd (hab ▸ h) (List.lt_irrefl _)⟩

/-- What comes before a smaller string is smaller, what comes after a greater one greater. -/
theorem Comparison.ascends {a a' b : Bytes} {o o' : Ordering} (h : Comparison a b o)
    (h' : Comparison a' b o') (haa : a < a') :
    (o' ≠ .gt → o = .lt) ∧ (o ≠ .lt → o' = .gt) := by
  cases h with
  | lt h => exact ⟨fun _ => rfl, fun ho => absurd rfl ho⟩
  | eq h =>
    subst h
    cases h' with
    | gt h' => exact ⟨fun ho => absurd rfl ho, fun _ => rfl⟩
    | eq h' => exact absurd (h' ▸ haa) (List.lt_irrefl _)
    | lt h' => exact absurd (List.lt_trans haa h') (List.lt_irrefl _)
  | gt h =>
    cases h' with
    | gt h' => exact ⟨fun ho => absurd rfl ho, fun _ => rfl⟩
    | eq h' =>
      subst h'
      exact absurd (List.lt_trans haa h) (List.lt_irrefl _)
    | lt h' => exact absurd (List.lt_trans haa (List.lt_trans h' h)) (List.lt_irrefl _)

/-! ## The search in a table -/

section Table

variable {ρ : Type} (name : ρ → Bytes) (subname : ρ → Option Bytes)

/-- The order in which `redis_lookup_cmd` searches: by name, then by subname. -/
def RowBefore (x y : ρ) : Prop :=
  name x < name y ∨ name x = name y ∧ ∃ s s', subname x = some s ∧ subname y = some s' ∧ s < s'

/-- Where a row stands relative to a command and its first argument, if there is one. -/
def compareRow (cmd : Bytes) (subcmd : Option Bytes) (c : ρ) : Ordering :=
  match compareName (name c) cmd, subname c, subcmd with
  | .eq, some s, some sub => compareName s sub
  | o, _, _ => o

/-- A table as the search expects it. -/
structure RowsInOrder (table : List ρ) : Prop where
  nameNoNul : ∀ c ∈ table, 0 ∉ name c
  subnameNoNul : ∀ c ∈ table, ∀ s ∈ subname c, 0 ∉ s
  sorted : table.Pairwise (RowBefore name subname)

variable {name subname}

/-- The search of `redis_lookup_cmd` is a binary search that gives up on a command with
subcommands if there is no argument. -/
theorem lookupLoop_eq (table : List ρ) (cmd : Bytes) (subcmd : Option Bytes) (fuel : ℕ) :
    ∀ left right, lookupLoop name subname table cmd subcmd fuel left right =
      (searchLoop (compareRow name subname cmd subcmd) table fuel left right).filter
        fun c => (subname c).isNone || subcmd.isSome := by
  induction fuel with
  | zero => exact fun _ _ => rfl
  | succ fuel ih =>
    intro left right
    unfold lookupLoop searchLoop
    by_cases hlr : left < right
    · rw [if_pos hlr, if_pos hlr]
      generalize (left + (right - 1)) / 2 = i
      dsimp only
      cases table[i]? with
      | none => rfl
      | some c =>
        dsimp only [compareRow]
        cases compareName (name c) cmd with
        | lt => exact ih _ _
        | gt => exact ih _ _
        | eq =>
          cases hs : subname c with
          | none => simp [Option.filter, hs]
          | some s =>
            cases subcmd with
            | none => simp [Option.filter, hs]
            | some sub =>
              dsimp only
              cases compareName s sub with
              | lt => exact ih _ _
              | gt => exact ih _ _
              | eq => simp [Option.filter]
    · rw [if_neg hlr, if_neg hlr]
      rfl

/-- Along a table in order the comparison ascends. -/
theorem RowsInOrder.ascends {table : List ρ} (h : RowsInOrder name subname table) (cmd : Bytes)
    (subcmd : Option Bytes) : Ascends (compareRow name subname cmd subcmd) table := by
  refine h.sorted.imp_of_mem fun {x y} hx hy hxy => ?_
  have hcx := compareName_spec (h.nameNoNul x hx) cmd
  have hcy := compareName_spec (h.nameNoNul y hy) cmd
  unfold compareRow
  rcases hxy with hlt | ⟨heq, s, s', hs, hs', hss⟩
  · have hasc := hcx.ascends hcy hlt
    generalize compareName (name x) cmd = o at hasc
    generalize compareName (name y) cmd = o' at hasc
    cases o with
    | lt => exact ⟨fun _ => rfl, fun ho => by cases ho⟩
    | eq =>
      obtain rfl := hasc.2 (by decide)
      exact ⟨fun ho => (by cases ho), fun _ => rfl⟩
    | gt =>
      obtain rfl := hasc.2 (by decide)
      exact ⟨fun ho => (by cases ho), fun _ => rfl⟩
  · rw [heq, hs, hs']
    cases compareName (name y) cmd with
    | lt => exact ⟨fun _ => rfl, id⟩
    | gt => exact ⟨id, fun _ => rfl⟩
    | eq =>
      cases subcmd with
      | none => exact ⟨id, id⟩
      | some sub =>
        have hasc := (compareName_spec (h.subnameNoNul x hx s hs) sub).ascends
          (compareName_spec (h.subnameNoNul y hy s' hs') sub) hss
        exact ⟨fun ho => hasc.1 (by rw [show compareName s' sub = .lt from ho]; decide),
          fun ho => hasc.2 (by rw [show compareName s sub = .gt from ho]; decide)⟩

/-- A row is meant by a command and its first argument. -/
def RowMeant (name : ρ → Bytes) (subname : ρ → Option Bytes) (cmd : Bytes)
    (subcmd : Option Bytes) (c : ρ) : Prop :=
  name c = cstr cmd ∧ (subname c = none ∨ subname c = subcmd.map cstr)

/-- A row that compares equal is meant, unless the argument is missing. -/
theorem compareRow_eq_iff {table : List ρ} (h : RowsInOrder name subname table) {c : ρ}
    (hc : c ∈ table) (cmd : Bytes) (subcmd : Option Bytes) :
    compareRow name subname cmd subcmd c = .eq ∧ ((subname c).isNone || subcmd.isSome) = true ↔
      RowMeant name subname cmd subcmd c := by
  have hname := (compareName_spec (h.nameNoNul c hc) cmd).eq_iff
  unfold compareRow RowMeant
  rw [← hname]
  cases compareName (name c) cmd with
  | lt => simp
  | gt => simp
  | eq =>
    cases hs : subname c with
    | none => simp
    | some s =>
      cases subcmd with
      | none => simp
      | some sub =>
        have hsub := (compareName_spec (h.subnameNoNul c hc s hs) sub).eq_iff
        simp [hsub]

theorem name_of_compareRow {table : List ρ} (h : RowsInOrder name subname table) {c : ρ}
    (hc : c ∈ table) {cmd : Bytes} {subcmd : Option Bytes}
    (ho : compareRow name subname cmd subcmd c = .eq) : name c = cstr cmd := by
  rw [← (compareName_spec (h.nameNoNul c hc) cmd).eq_iff]
  unfold compareRow at ho
  cases hn : compareName (name c) cmd with
  | lt => simp [hn] at ho
  | gt => simp [hn] at ho
  | eq => rfl

/-- Two rows of a table are the same if neither stands before the other. -/
theorem RowsInOrder.eq_of_not_before {table : List ρ} (h : RowsInOrder name subname table) {c c' : ρ}
    (hc : c ∈ table) (hc' : c' ∈ table) (hn : ¬ RowBefore name subname c c')
    (hn' : ¬ RowBefore name subname c' c) : c = c' := by
  obtain ⟨i, hi, rfl⟩ := List.mem_iff_getElem.mp hc
  obtain ⟨j, hj, rfl⟩ := List.mem_iff_getElem.mp hc'
  rcases Nat.lt_trichotomy i j with hij | rfl | hij
  · exact absurd (List.pairwise_iff_getElem.mp h.sorted i j hi hj hij) hn
  · rfl
  · exact absurd (List.pairwise_iff_getElem.mp h.sorted j i hj hi hij) hn'

/-- A name without subname is the name of one row only. -/
theorem RowsInOrder.eq_of_plain {table : List ρ} (h : RowsInOrder name subname table) {c c' : ρ}
    (hc : c ∈ table) (hc' : c' ∈ table) (hname : name c = name c') (hplain : subname c = none) :
    c = c' := by
  refine h.eq_of_not_before hc hc' ?_ ?_
  · rintro (hlt | ⟨-, s, s', hs, -, -⟩)
    · exact List.lt_irrefl _ (hname ▸ hlt)
    · exact Option.some_ne_none s (hs.symm.trans hplain)
  · rintro (hlt | ⟨-, s, s', -, hs', -⟩)
    · exact List.lt_irrefl _ (hname ▸ hlt)
    · exact Option.some_ne_none s' (hs'.symm.trans hplain)

/-- Two rows that are meant are the same row. -/
theorem RowMeant.unique {table : List ρ} (h : RowsInOrder name subname table) {cmd : Bytes}
    {subcmd : Option Bytes} {c c' : ρ} (hc : c ∈ table) (hc' : c' ∈ table)
    (hm : RowMeant name subname cmd subcmd c) (hm' : RowMeant name subname cmd subcmd c') :
    c = c' := by
  have hname : name c = name c' := hm.1.trans hm'.1.symm
  rcases hm.2 with hplain | hsub
  · exact h.eq_of_plain hc hc' hname hplain
  · rcases hm'.2 with hplain' | hsub'
    · exact (h.eq_of_plain hc' hc hname.symm hplain').symm
    · have hsame : subname c = subname c' := hsub.trans hsub'.symm
      refine h.eq_of_not_before hc hc' ?_ ?_
      · rintro (hlt | ⟨-, s, s', hs, hs', hss⟩)
        · exact List.lt_irrefl _ (hname ▸ hlt)
        · rw [Option.some.inj (hs.symm.trans (hsame.trans hs'))] at hss
          exact List.lt_irrefl _ hss
      · rintro (hlt | ⟨-, s, s', hs, hs', hss⟩)
        · exact List.lt_irrefl _ (hname ▸ hlt)
        · rw [Option.some.inj (hs'.symm.trans (hsame.trans hs))] at hss
          exact List.lt_irrefl _ hss

/-- **The search in a table in order** finds the row that is meant. -/
theorem lookupLoop_eq_some_iff {table : List ρ} (h : RowsInOrder name subname table) (cmd : Bytes)
    (subcmd : Option Bytes) (c : ρ) :
    lookupLoop name subname table cmd subcmd table.length 0 table.length = some c ↔
      c ∈ table ∧ RowMeant name subname cmd subcmd c := by
  rw [lookupLoop_eq, Option.filter_eq_some_iff]
  constructor
  · rintro ⟨hs, hsub⟩
    obtain ⟨hc, ho⟩ := searchLoop_found _ _ _ hs
    exact ⟨hc, (compareRow_eq_iff h hc cmd subcmd).mp ⟨ho, hsub⟩⟩
  · rintro ⟨hc, hm⟩
    obtain ⟨ho, hsub⟩ := (compareRow_eq_iff h hc cmd subcmd).mpr hm
    cases hs : searchLoop (compareRow name subname cmd subcmd) table table.length 0
        table.length with
    | none => exact absurd ho ((searchLoop_none_iff (h.ascends cmd subcmd)).mp hs c hc)
    | some c' =>
      obtain ⟨hc', ho'⟩ := searchLoop_found _ _ _ hs
      suffices hcc : c = c' by rw [← hcc]; exact ⟨rfl, hsub⟩
      -- What was found is meant as well, or else `c` has no subname and is the only row
      -- of its name.
      by_cases hsub' : ((subname c').isNone || subcmd.isSome) = true
      · exact RowMeant.unique h hc hc' hm ((compareRow_eq_iff h hc' cmd subcmd).mp ⟨ho', hsub'⟩)
      · obtain ⟨-, hnone⟩ : subname c' ≠ none ∧ subcmd = none := by simpa using hsub'
        have hplain : subname c = none := hm.2.elim id fun hs => by rw [hs, hnone]; rfl
        exact h.eq_of_plain hc hc' (hm.1.trans (name_of_compareRow h hc' ho').symm) hplain

end Table

/-! ## The shipped table -/

instance {ρ : Type} (name : ρ → Bytes) (subname : ρ → Option Bytes) (x y : ρ) :
    Decidable (RowBefore name subname x y) :=
  match hx : subname x, hy : subname y with
  | some s, some s' =>
    decidable_of_iff (name x < name y ∨ name x = name y ∧ s < s') (by simp [RowBefore, hx, hy])
  | none, _ => decidable_of_iff (name x < name y) (by simp [RowBefore, hx])
  | some _, none => decidable_of_iff (name x < name y) (by simp [RowBefore, hy])

/-- The name of a row, as bytes. -/
def CmdDef.nameBytes (c : CmdDef) : Bytes := ascii c.name

/-- The subname of a row, as bytes. -/
def CmdDef.subnameBytes (c : CmdDef) : Option Bytes := c.subname.map ascii

theorem RowBefore.trans {ρ : Type} {name : ρ → Bytes} {subname : ρ → Option Bytes} {x y z : ρ}
    (h : RowBefore name subname x y) (h' : RowBefore name subname y z) :
    RowBefore name subname x z := by
  rcases h with hlt | ⟨heq, s, s', hs, hs', hss⟩
  · rcases h' with hlt' | ⟨heq', -⟩
    · exact Or.inl (List.lt_trans hlt hlt')
    · exact Or.inl (heq' ▸ hlt)
  · rcases h' with hlt' | ⟨heq', t, t', ht, ht', htt⟩
    · exact Or.inl (heq ▸ hlt')
    · obtain rfl := Option.some.inj (hs'.symm.trans ht)
      exact Or.inr ⟨heq.trans heq', s, t', hs, ht', List.lt_trans hss htt⟩

/-- Each row of the shipped table stands before the next one. -/
theorem redisCommands_chain :
    redisCommands.IsChain (RowBefore CmdDef.nameBytes CmdDef.subnameBytes) := by
  decide +kernel

/-- The shipped table is in order. -/
theorem redisCommands_inOrder :
    RowsInOrder CmdDef.nameBytes CmdDef.subnameBytes redisCommands where
  nameNoNul := by decide +kernel
  subnameNoNul := by decide +kernel
  sorted :=
    have : Trans (RowBefore CmdDef.nameBytes CmdDef.subnameBytes)
      (RowBefore CmdDef.nameBytes CmdDef.subnameBytes)
      (RowBefore CmdDef.nameBytes CmdDef.subnameBytes) := ⟨RowBefore.trans⟩
    redisCommands_chain.pairwise

/-! ## Lookup and exhaustive search -/

/-- Upper case does not move the first NUL. -/
theorem cstr_toUpper (s : Bytes) : cstr (toUpper s) = toUpper (cstr s) := by
  induction s with
  | nil => rfl
  | cons b s ih =>
    by_cases hb : b = 0
    · subst hb
      rfl
    · have hup : (if 97 ≤ b ∧ b ≤ 122 then b - 32 else b) ≠ 0 := by
        by_cases hlow : 97 ≤ b ∧ b ≤ 122
        · rw [if_pos hlow]
          intro h0
          have h97 := UInt8.le_iff_toNat_le.mp hlow.1
          have h122 := UInt8.le_iff_toNat_le.mp hlow.2
          have hsub := congrArg UInt8.toNat h0
          rw [UInt8.toNat_sub] at hsub
          simp at h97 h122 hsub
          omega
        · rw [if_neg hlow]
          exact hb
      change cstr ((if 97 ≤ b ∧ b ≤ 122 then b - 32 else b) :: toUpper s) = _
      rw [cstr_cons hup, cstr_cons hb, ih]
      rfl

/-- The row has the name `arg0` in upper case, up to the first NUL. -/
def CmdDef.Named (arg0 : Bytes) (c : CmdDef) : Prop := ascii c.name = toUpper (cstr arg0)

/-- The row has the name `arg0`, and the subname `arg1` if it has one. -/
def CmdDef.Meant (arg0 : Bytes) (arg1 : Option Bytes) (c : CmdDef) : Prop :=
  c.Named arg0 ∧
    (c.subname = none ∨ c.subname.map ascii = arg1.map fun a => toUpper (cstr a))

instance (arg0 : Bytes) (arg1 : Option Bytes) (c : CmdDef) : Decidable (c.Meant arg0 arg1) :=
  inferInstanceAs (Decidable (ascii c.name = toUpper (cstr arg0) ∧
    (c.subname = none ∨ c.subname.map ascii = arg1.map fun a => toUpper (cstr a))))

theorem rowMeant_iff_meant (arg0 : Bytes) (arg1 : Option Bytes) (c : CmdDef) :
    RowMeant CmdDef.nameBytes CmdDef.subnameBytes (toUpper arg0) (arg1.map toUpper) c ↔
      c.Meant arg0 arg1 := by
  unfold RowMeant CmdDef.Meant CmdDef.Named CmdDef.nameBytes CmdDef.subnameBytes
  have harg : (arg1.map toUpper).map cstr = arg1.map fun a => toUpper (cstr a) := by
    rw [Option.map_map]
    exact Option.map_congr fun a _ => cstr_toUpper a
  rw [cstr_toUpper, harg, Option.map_eq_none_iff]

/-- `redis_lookup_cmd` finds a row exactly if it is meant. -/
theorem redisLookupCmd_eq_some_iff (arg0 : Bytes) (arg1 : Option Bytes) (c : CmdDef) :
    redisLookupCmd arg0 arg1 = some c ↔ c ∈ redisCommands ∧ c.Meant arg0 arg1 := by
  rw [← rowMeant_iff_meant]
  exact lookupLoop_eq_some_iff redisCommands_inOrder (toUpper arg0) (arg1.map toUpper) c

theorem redisLookupCmd_eq_none_iff (arg0 : Bytes) (arg1 : Option Bytes) :
    redisLookupCmd arg0 arg1 = none ↔ ∀ c ∈ redisCommands, ¬ c.Meant arg0 arg1 := by
  rw [Option.eq_none_iff_forall_not_mem]
  constructor
  · exact fun h c hc hm => h c ((redisLookupCmd_eq_some_iff arg0 arg1 c).mpr ⟨hc, hm⟩)
  · intro h c hs
    obtain ⟨hc, hm⟩ := (redisLookupCmd_eq_some_iff arg0 arg1 c).mp hs
    exact h c hc hm

/-- **Command lookup is an exhaustive search** of the shipped table for a name and maybe a
subname; nothing is found exactly if there is no such row, or if the rows of the name have
subcommands and the argument is absent. -/
theorem redisLookupCmd_exhaustive (arg0 : Bytes) :
    (∀ arg1, redisLookupCmd arg0 arg1 = redisCommands.find? (fun c => c.Meant arg0 arg1)) ∧
    (∀ arg1 c, redisLookupCmd arg0 arg1 = some c ↔ c ∈ redisCommands ∧ c.Meant arg0 arg1) ∧
    (∀ a, redisLookupCmd arg0 (some a) = none ↔
      ∀ c ∈ redisCommands, ¬ c.Meant arg0 (some a)) ∧
    (redisLookupCmd arg0 none = none ↔
      ∀ c ∈ redisCommands, c.Named arg0 → c.subname ≠ none) := by
  refine ⟨fun arg1 => ?_, redisLookupCmd_eq_some_iff arg0,
    fun a => redisLookupCmd_eq_none_iff arg0 (some a), ?_⟩
  · cases hfind : redisCommands.find? (fun c => c.Meant arg0 arg1) with
    | none =>
      rw [redisLookupCmd_eq_none_iff]
      intro c hc
      simpa using List.find?_eq_none.mp hfind c hc
    | some c =>
      rw [redisLookupCmd_eq_some_iff]
      exact ⟨List.mem_of_find?_eq_some hfind, by simpa using List.find?_some hfind⟩
  · rw [redisLookupCmd_eq_none_iff]
    refine forall_congr' fun c => imp_congr_right fun _ => ?_
    unfold CmdDef.Meant
    simp

/-- A name ends at its first NUL. -/
example : redisLookupCmd (ascii "restore" ++ [0, 88]) none = redisLookupCmd (ascii "RESTORE") none :=
  by decide +kernel
