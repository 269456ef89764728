/-
# The generated command table

`gencommands.py` collects command definitions in a dictionary and writes them sorted by
the key of the dictionary, which joins name and subcommand by an underscore.
`redis_lookup_cmd` searches the table by name first and by subcommand then.  The two
orders differ where the name of a command with subcommands begins the name of another.  A
row also declares an enumerator of `cmd_type_t`, whose name is the key with an underscore
in place of every character that C does not allow there.

Embedded source: `collect_commands_from_files` and `generate_c_code` (`gencommands.py`);
the definitions are given as `extract_command_info` and the lines of a header yield them.
-/
import HiredisCluster.Lookup
import Mathlib.Data.List.AList
import Mathlib.Data.List.Induction
import Mathlib.Data.List.Sort

/-! ## The order of byte strings -/

/-- Strings with a common beginning. -/
theorem append_lt_append_iff (p a b : Bytes) : p ++ a < p ++ b ↔ a < b := by
  induction p with
  | nil => rfl
  | cons x p ih =>
    rw [List.cons_append, List.cons_append, List.cons_lt_cons_iff]
    constructor
    · rintro (h | ⟨-, h⟩)
      · exact absurd h (UInt8.lt_irrefl x)
      · exact ih.mp h
    · exact fun h => Or.inr ⟨rfl, ih.mpr h⟩

/-- Once two strings differ, it does not matter how they go on. -/
theorem append_lt_append {a b : Bytes} (h : a < b) (hp : ¬ a <+: b) (u v : Bytes) :
    a ++ u < b ++ v := by
  induction a generalizing b with
  | nil => exact absurd List.nil_prefix hp
  | cons x a ih =>
    cases b with
    | nil => exact absurd h (by simp)
    | cons y b =>
      rw [List.cons_append, List.cons_append, List.cons_lt_cons_iff]
      rcases List.cons_lt_cons_iff.mp h with hxy | ⟨rfl, htail⟩
      · exact Or.inl hxy
      · exact Or.inr ⟨rfl, ih htail fun hab => hp ((List.prefix_cons_inj x).mpr hab)⟩

theorem lt_of_proper_prefix {a b : Bytes} (h : a <+: b) (hne : a ≠ b) : a < b :=
  (List.le_iff_lt_or_eq.mp h.le).resolve_right hne

/-! ## Collecting commands -/

/-- What is known of a command: `(name, subcommand, arity, firstkeymethod, firstkeypos)`. -/
structure CommandInfo where
  name : Bytes
  subcmd : Option Bytes
  arity : ℤ
  firstkeymethod : KeyMethod
  firstkeypos : ℤ
  deriving DecidableEq

/-- The key of a command: `command` or `command_subcommand`. -/
def CommandInfo.key (c : CommandInfo) : Bytes :=
  match c.subcmd with
  | none => c.name
  | some sub => c.name ++ 95 :: sub

/-- A definition that is read from a JSON file, or from a line of a header. -/
inductive Definition where
  | json (cmd : CommandInfo)
  | header (cmd : CommandInfo)
  deriving DecidableEq

/-- The command that is defined. -/
def Definition.cmd : Definition → CommandInfo
  | .json c => c
  | .header c => c

/-- The dictionary of commands, and the names that have been seen with subcommands. -/
structure Collected where
  commands : AList fun _ : Bytes => CommandInfo
  thatHaveSubcommands : List Bytes

/-- One definition in `collect_commands_from_files`.  Of a command with subcommands the
entry under its bare name is dropped. -/
def collectDefinition (s : Collected) : Definition → Collected
  | .header c => { s with commands := s.commands.insert c.key c }
  | .json c =>
    match c.subcmd with
    | some _ =>
      { commands := (s.commands.erase c.name).insert c.key c
        thatHaveSubcommands := c.name :: s.thatHaveSubcommands }
    | none =>
      if c.name ∈ s.thatHaveSubcommands then s
      else { s with commands := s.commands.insert c.key c }

/-- `collect_commands_from_files`. -/
def collectCommands (defs : List Definition) : Collected :=
  defs.foldl collectDefinition ⟨∅, []⟩

/-- The characters that `\W` does not match. -/
def isWord (b : UInt8) : Bool :=
  isDigit b || (65 ≤ b && b ≤ 90) || (97 ≤ b && b ≤ 122) || b == 95

/-- `re.sub(r'\W', '_', key)`: a valid C identifier. -/
def cIdentifier (key : Bytes) : Bytes := key.map fun b => if isWord b then b else 95

/-- A row `COMMAND(identifier, name, subcmd, arity, firstkeymethod, firstkeypos)`, of which
`cmddef.h` makes the enumerator `CMD_REQ_REDIS_identifier`. -/
structure CommandRow extends CommandInfo where
  identifier : Bytes
  deriving DecidableEq

/-- The rows that `generate_c_code` prints. -/
def generateTable (defs : List Definition) : List CommandRow :=
  ((collectCommands defs).commands.keys.insertionSort (· ≤ ·)).filterMap
    fun k => ((collectCommands defs).commands.lookup k).map fun c => ⟨c, cIdentifier k⟩

/-- `redis_lookup_cmd` on a generated table. -/
def lookupIn (table : List CommandRow) (arg0 : Bytes) (arg1 : Option Bytes) : Option CommandRow :=
  lookupLoop (fun r : CommandRow => r.name) (fun r => r.subcmd) table (toUpper arg0)
    (arg1.map toUpper) table.length 0 table.length

/-! ## What is asked of a table -/

/-- The order in which `redis_lookup_cmd` searches: by name, then by subcommand. -/
def CommandInfo.Before (x y : CommandInfo) : Prop :=
  x.name < y.name ∨ x.name = y.name ∧ ∃ s s', x.subcmd = some s ∧ y.subcmd = some s' ∧ s < s'

/-- Every command put through the generator can be looked up in the sorted table, which
declares no enumerator twice: `cmd_type_t` would not compile. -/
structure Searchable (defs : List Definition) : Prop where
  distinct : (generateTable defs).Pairwise fun r r' => r.identifier ≠ r'.identifier
  sorted : (generateTable defs).Pairwise fun r r' => r.Before r'.toCommandInfo
  found : ∀ d ∈ defs, ∃ r ∈ generateTable defs, r.name = d.cmd.name ∧ r.subcmd = d.cmd.subcmd ∧
    lookupIn (generateTable defs) d.cmd.name d.cmd.subcmd = some r

/-- A text as in the names of commands: printable, without quotes and backslashes, and
upper case. -/
def UpperCase (s : Bytes) : Prop :=
  ∀ b ∈ s, 32 ≤ b ∧ b ≤ 126 ∧ b ≠ 34 ∧ b ≠ 92 ∧ ¬ (97 ≤ b ∧ b ≤ 122)

instance (s : Bytes) : Decidable (UpperCase s) :=
  inferInstanceAs (Decidable (∀ b ∈ s, 32 ≤ b ∧ b ≤ 126 ∧ b ≠ 34 ∧ b ≠ 92 ∧ ¬ (97 ≤ b ∧ b ≤ 122)))

/-- Definitions as they are given to the generator: no name is used both with and without
subcommands. -/
structure WellFormed (defs : List Definition) : Prop where
  name : ∀ d ∈ defs, UpperCase d.cmd.name
  subcmd : ∀ d ∈ defs, ∀ s ∈ d.cmd.subcmd, UpperCase s
  noMix : ∀ d ∈ defs, ∀ d' ∈ defs, d.cmd.name = d'.cmd.name →
    (d.cmd.subcmd = none ↔ d'.cmd.subcmd = none)

/-- A command with subcommand comes before all commands whose name begins with its
name. -/
def OrderSafe (defs : List Definition) : Prop :=
  ∀ d ∈ defs, ∀ d' ∈ defs, d.cmd.subcmd ≠ none → d.cmd.name <+: d'.cmd.name →
    d.cmd.name ≠ d'.cmd.name → d.cmd.key < d'.cmd.key

instance (defs : List Definition) : Decidable (OrderSafe defs) :=
  inferInstanceAs (Decidable (∀ d ∈ defs, ∀ d' ∈ defs, d.cmd.subcmd ≠ none →
    d.cmd.name <+: d'.cmd.name → d.cmd.name ≠ d'.cmd.name → d.cmd.key < d'.cmd.key))

/-- No two keys become the same identifier. -/
def IdentifiersApart (defs : List Definition) : Prop :=
  ∀ d ∈ defs, ∀ d' ∈ defs, cIdentifier d.cmd.key = cIdentifier d'.cmd.key → d.cmd.key = d'.cmd.key

instance (defs : List Definition) : Decidable (IdentifiersApart defs) :=
  inferInstanceAs (Decidable (∀ d ∈ defs, ∀ d' ∈ defs,
    cIdentifier d.cmd.key = cIdentifier d'.cmd.key → d.cmd.key = d'.cmd.key))

/-- A definition that drops the entry under `k`. -/
def Definition.Drops (k : Bytes) : Definition → Prop
  | .json c => c.subcmd ≠ none ∧ c.name = k
  | .header _ => False

instance (k : Bytes) : (d : Definition) → Decidable (d.Drops k)
  | .json c => inferInstanceAs (Decidable (c.subcmd ≠ none ∧ c.name = k))
  | .header _ => inferInstanceAs (Decidable False)

/-- A definition with key `k` is given, and nothing that drops it comes later. -/
def KeyKept (defs : List Definition) (k : Bytes) : Prop :=
  ∃ l d l', defs = l ++ d :: l' ∧ d.cmd.key = k ∧ ∀ d' ∈ l', ¬ d'.Drops k

/-! ## The search -/

theorem UpperCase.noNul {s : Bytes} (h : UpperCase s) : 0 ∉ s :=
  fun h0 => absurd (h 0 h0).1 (by decide)

theorem UpperCase.toUpper {s : Bytes} (h : UpperCase s) : toUpper s = s := by
  refine (List.map_congr_left fun b hb => ?_).trans (List.map_id s)
  rw [if_neg (h b hb).2.2.2.2]
  rfl

theorem UpperCase.cstr {s : Bytes} (h : UpperCase s) : cstr s = s := cstr_of_noNul h.noNul

/-- Every row of a table in the right order is found. -/
theorem lookupIn_of_sorted {table : List CommandRow}
    (h : table.Pairwise fun r r' => r.Before r'.toCommandInfo)
    (hname : ∀ c ∈ table, UpperCase c.name) (hsub : ∀ c ∈ table, ∀ s ∈ c.subcmd, UpperCase s)
    {c : CommandRow} (hc : c ∈ table) : lookupIn table c.name c.subcmd = some c := by
  have horder : RowsInOrder (fun r : CommandRow => r.name) (fun r => r.subcmd) table :=
    ⟨fun c hc => (hname c hc).noNul, fun c hc s hs => (hsub c hc s hs).noNul, h⟩
  have hupper : c.subcmd.map toUpper = c.subcmd := by
    cases hs : c.subcmd with
    | none => rfl
    | some s => rw [Option.map_some, (hsub c hc s hs).toUpper]
  have hcstr : c.subcmd.map cstr = c.subcmd := by
    cases hs : c.subcmd with
    | none => rfl
    | some s => rw [Option.map_some, (hsub c hc s hs).cstr]
  unfold lookupIn
  rw [(hname c hc).toUpper, hupper, lookupLoop_eq_some_iff horder]
  exact ⟨hc, (hname c hc).cstr.symm, Or.inr hcstr.symm⟩

/-! ## What is collected -/

theorem kept_append (defs : List Definition) (d : Definition) (k : Bytes) :
    KeyKept (defs ++ [d]) k ↔ d.cmd.key = k ∨ KeyKept defs k ∧ ¬ d.Drops k := by
  constructor
  · rintro ⟨l, x, l', heq, hkey, hno⟩
    rcases List.eq_nil_or_concat l' with rfl | ⟨l'', y, rfl⟩
    · obtain ⟨-, hx⟩ := List.append_inj' heq rfl
      obtain rfl := List.singleton_inj.mp hx
      exact Or.inl hkey
    · have heq' : defs ++ [d] = (l ++ x :: l'') ++ [y] := by
        rw [heq]
        simp
      obtain ⟨hdefs, hy⟩ := List.append_inj' heq' rfl
      obtain rfl := List.singleton_inj.mp hy
      refine Or.inr ⟨⟨l, x, l'', hdefs, hkey, fun d' hd' => hno d' ?_⟩, hno d ?_⟩
      · simp [hd']
      · simp
  · rintro (hkey | ⟨⟨l, x, l', rfl, hkey, hno⟩, hd⟩)
    · exact ⟨defs, d, [], rfl, hkey, fun d' hd' => by cases hd'⟩
    · refine ⟨l, x, l' ++ [d], by simp, hkey, fun d' hd' => ?_⟩
      rcases List.mem_append.mp hd' with hd' | hd'
      · exact hno d' hd'
      · rw [List.mem_singleton.mp hd']
        exact hd

theorem keyKept_of_mem {defs : List Definition} {d : Definition} (hd : d ∈ defs)
    (h : ∀ d' ∈ defs, ¬ d'.Drops d.cmd.key) : KeyKept defs d.cmd.key := by
  obtain ⟨l, l', rfl⟩ := List.append_of_mem hd
  exact ⟨l, d, l', rfl, rfl, fun d' hd' =>
    h d' (List.mem_append_right _ (List.mem_cons_of_mem _ hd'))⟩

/-- A key begins with the name. -/
theorem CommandInfo.name_prefix_key (c : CommandInfo) : c.name <+: c.key := by
  unfold CommandInfo.key
  split
  · exact List.prefix_refl _
  · exact List.prefix_append _ _

/-- What is in the dictionary: commands under their keys, and exactly those that are
kept. -/
structure Collected.Holds (s : Collected) (defs : List Definition) : Prop where
  filed : ∀ k c, s.commands.lookup k = some c → c.key = k ∧ ∃ d ∈ defs, d.cmd = c
  kept : ∀ k, s.commands.lookup k ≠ none ↔ KeyKept defs k
  names : ∀ n ∈ s.thatHaveSubcommands, ∃ d ∈ defs, d.cmd.subcmd ≠ none ∧ d.cmd.name = n

theorem collectCommands_holds {defs : List Definition} (hwf : WellFormed defs) :
    (collectCommands defs).Holds defs := by
  induction defs using List.reverseRecOn with
  | nil =>
    refine ⟨fun k c h => ?_, fun k => ⟨fun h => absurd ?_ h, ?_⟩, fun n h => by cases h⟩
    · rw [show (collectCommands []).commands = ∅ from rfl, AList.lookup_empty] at h
      cases h
    · exact AList.lookup_empty k
    · rintro ⟨l, d, l', h, -⟩
      simp at h
  | append_singleton defs d ih =>
    have hsub : ∀ x ∈ defs, x ∈ defs ++ [d] := fun x hx => List.mem_append_left _ hx
    have hd : d ∈ defs ++ [d] := List.mem_append_right _ (List.mem_singleton_self d)
    have h := ih ⟨fun x hx => hwf.name x (hsub x hx), fun x hx => hwf.subcmd x (hsub x hx),
      fun x hx y hy => hwf.noMix x (hsub x hx) y (hsub y hy)⟩
    have hstep : collectCommands (defs ++ [d]) = collectDefinition (collectCommands defs) d := by
      unfold collectCommands
      rw [List.foldl_append]
      rfl
    rw [hstep]
    generalize collectCommands defs = s at h
    -- an entry is added under its key, after another was possibly dropped
    have hinsert : ∀ (m : AList fun _ : Bytes => CommandInfo) (names : List Bytes),
        (∀ k, m.lookup k = if d.Drops k then none else s.commands.lookup k) →
        (∀ n ∈ names, ∃ x ∈ defs ++ [d], x.cmd.subcmd ≠ none ∧ x.cmd.name = n) →
        Collected.Holds ⟨m.insert d.cmd.key d.cmd, names⟩ (defs ++ [d]) := by
      intro m names hm hnames
      refine ⟨fun k c hk => ?_, fun k => ?_, hnames⟩
      · rcases eq_or_ne k d.cmd.key with rfl | hne
        · rw [AList.lookup_insert] at hk
          obtain rfl := Option.some.inj hk
          exact ⟨rfl, d, hd, rfl⟩
        · rw [AList.lookup_insert_ne hne, hm] at hk
          split at hk
          · cases hk
          · obtain ⟨hkey, x, hx, hxc⟩ := h.filed k c hk
            exact ⟨hkey, x, hsub x hx, hxc⟩
      · rw [kept_append]
        rcases eq_or_ne k d.cmd.key with rfl | hne
        · rw [AList.lookup_insert]
          exact iff_of_true (Option.some_ne_none _) (Or.inl rfl)
        · rw [AList.lookup_insert_ne hne, hm, or_iff_right hne.symm]
          split
          · rename_i hdrop
            exact iff_of_false (fun hno => hno rfl) fun hno => hno.2 hdrop
          · rename_i hdrop
            rw [h.kept]
            exact ⟨fun hk => ⟨hk, hdrop⟩, fun hk => hk.1⟩
    have hold : ∀ n ∈ s.thatHaveSubcommands, ∃ x ∈ defs ++ [d], x.cmd.subcmd ≠ none ∧
        x.cmd.name = n := by
      intro n hn
      obtain ⟨x, hx, hxn⟩ := h.names n hn
      exact ⟨x, hsub x hx, hxn⟩
    cases d with
    | header c =>
      exact hinsert s.commands s.thatHaveSubcommands (fun k => (if_neg id).symm) hold
    | json c =>
      unfold collectDefinition
      dsimp only
      split
      · rename_i sub hc
        refine hinsert (s.commands.erase c.name) _ (fun k => ?_) fun n hn => ?_
        · rcases eq_or_ne k c.name with rfl | hne
          · rw [if_pos ⟨by rw [hc]; exact Option.some_ne_none _, rfl⟩, AList.lookup_erase]
          · rw [if_neg fun hdrop => hne hdrop.2.symm, AList.lookup_erase_ne hne]
        · rcases List.mem_cons.mp hn with rfl | hn
          · exact ⟨.json c, hd, by show c.subcmd ≠ none; rw [hc]; exact Option.some_ne_none _, rfl⟩
          · exact hold n hn
      · rename_i hc
        rw [if_neg]
        · refine hinsert s.commands s.thatHaveSubcommands (fun k => (if_neg ?_).symm) hold
          exact fun hdrop => hdrop.1 hc
        · intro hn
          obtain ⟨x, hx, hxsub, hxn⟩ := h.names c.name hn
          exact hxsub ((hwf.noMix x (hsub x hx) (.json c) hd hxn).mpr hc)

/-! ## The emitted table -/

/-- The rows are in the order of their keys, and are the entries of the dictionary. -/
theorem generateTable_keys {defs : List Definition} (hwf : WellFormed defs) :
    (generateTable defs).Pairwise (fun x y => x.key < y.key) ∧
      ∀ r, r ∈ generateTable defs ↔
        (collectCommands defs).commands.lookup r.key = some r.toCommandInfo ∧
          r.identifier = cIdentifier r.key := by
  have h := collectCommands_holds hwf
  unfold generateTable
  generalize (collectCommands defs) = s at h
  have hrow : ∀ {k : Bytes} {r : CommandRow},
      (s.commands.lookup k).map (fun c => (⟨c, cIdentifier k⟩ : CommandRow)) = some r →
        s.commands.lookup k = some r.toCommandInfo ∧ r.key = k ∧ r.identifier = cIdentifier k := by
    intro k r hk
    obtain ⟨c, hc, rfl⟩ := Option.map_eq_some_iff.mp hk
    exact ⟨hc, (h.filed k c hc).1, rfl⟩
  have hsorted : (s.commands.keys.insertionSort (· ≤ ·)).Pairwise (· < ·) := by
    have : IsTrans Bytes (· ≤ ·) := ⟨fun _ _ _ => List.le_trans⟩
    have : Std.Total fun a b : Bytes => a ≤ b := ⟨List.le_total⟩
    have hne : (s.commands.keys.insertionSort (· ≤ ·)).Nodup :=
      (List.perm_insertionSort _ _).nodup_iff.mpr s.commands.keys_nodup
    refine ((List.pairwise_insertionSort (· ≤ ·) s.commands.keys).and hne).imp fun hab => ?_
    exact (List.le_iff_lt_or_eq.mp hab.1).resolve_right hab.2
  constructor
  · refine List.pairwise_filterMap.mpr (hsorted.imp fun {a a'} hlt => ?_)
    intro r hr r' hr'
    rw [(hrow hr).2.1, (hrow hr').2.1]
    exact hlt
  · intro r
    rw [List.mem_filterMap]
    constructor
    · rintro ⟨k, -, hk⟩
      obtain ⟨hlookup, rfl, hid⟩ := hrow hk
      exact ⟨hlookup, hid⟩
    · rintro ⟨hlookup, hid⟩
      refine ⟨r.key, ?_, ?_⟩
      · rw [List.mem_insertionSort, ← AList.mem_keys, ← AList.lookup_isSome, hlookup]
        rfl
      · rw [hlookup, Option.map_some, ← hid]

/-- Under the condition, the order of the keys is the order of the search. -/
theorem before_of_key_lt {defs : List Definition} (hwf : WellFormed defs) (ho : OrderSafe defs)
    {d d' : Definition} (hd : d ∈ defs) (hd' : d' ∈ defs) (h : d.cmd.key < d'.cmd.key) :
    d.cmd.Before d'.cmd := by
  by_cases hname : d.cmd.name = d'.cmd.name
  · have hmix := hwf.noMix d hd d' hd' hname
    unfold CommandInfo.key at h
    cases hs : d.cmd.subcmd with
    | none =>
      rw [hs, hmix.mp hs, hname] at h
      exact absurd h (List.lt_irrefl _)
    | some s =>
      cases hs' : d'.cmd.subcmd with
      | none => exact absurd (hmix.mpr hs') (by rw [hs]; exact Option.some_ne_none s)
      | some s' =>
        rw [hs, hs', hname] at h
        have htail := (append_lt_append_iff _ _ _).mp h
        rcases List.cons_lt_cons_iff.mp htail with habs | ⟨-, hss⟩
        · exact absurd habs (UInt8.lt_irrefl _)
        · exact Or.inr ⟨hname, s, s', hs, hs', hss⟩
  · refine Or.inl ?_
    by_contra hnot
    have hgt : d'.cmd.name < d.cmd.name :=
      (List.le_iff_lt_or_eq.mp (List.not_lt.mp hnot)).resolve_right (Ne.symm hname)
    refine List.lt_asymm h ?_
    by_cases hp : d'.cmd.name <+: d.cmd.name
    · by_cases hs : d'.cmd.subcmd = none
      · -- a name without subcommand comes before its extensions
        have hkey : d'.cmd.key = d'.cmd.name := by rw [CommandInfo.key, hs]
        have hpre : d'.cmd.key <+: d.cmd.key := by
          rw [hkey]
          exact hp.trans d.cmd.name_prefix_key
        refine lt_of_proper_prefix hpre fun heq => ?_
        exact List.lt_irrefl _ (heq ▸ h)
      · exact ho d' hd' d hd hs hp (Ne.symm hname)
    · obtain ⟨u, hu⟩ := d'.cmd.name_prefix_key
      obtain ⟨v, hv⟩ := d.cmd.name_prefix_key
      rw [← hu, ← hv]
      exact append_lt_append hgt hp u v

/-- Under the condition, commands with the same key are the same. -/
theorem same_of_key_eq {defs : List Definition} (hwf : WellFormed defs) (ho : OrderSafe defs)
    {d d' : Definition} (hd : d ∈ defs) (hd' : d' ∈ defs) (h : d.cmd.key = d'.cmd.key) :
    d.cmd.name = d'.cmd.name ∧ d.cmd.subcmd = d'.cmd.subcmd := by
  have hlonger : ∀ {x y : Definition}, x ∈ defs → y ∈ defs → x.cmd.key = y.cmd.key →
      x.cmd.name <+: y.cmd.name → x.cmd.name = y.cmd.name := by
    intro x y hx hy hkey hp
    by_contra hne
    by_cases hs : x.cmd.subcmd = none
    · have hxkey : x.cmd.key = x.cmd.name := by rw [CommandInfo.key, hs]
      refine hne (hp.eq_of_length_le ?_)
      rw [← hxkey, hkey]
      exact y.cmd.name_prefix_key.length_le
    · exact List.lt_irrefl _ (hkey ▸ ho x hx y hy hs hp hne)
  have hname : d.cmd.name = d'.cmd.name := by
    have hp := d.cmd.name_prefix_key
    rw [h] at hp
    rcases List.prefix_or_prefix_of_prefix hp d'.cmd.name_prefix_key with hp | hp
    · exact hlonger hd hd' h hp
    · exact (hlonger hd' hd h.symm hp).symm
  refine ⟨hname, ?_⟩
  have hmix := hwf.noMix d hd d' hd' hname
  unfold CommandInfo.key at h
  cases hs : d.cmd.subcmd with
  | none => exact (hmix.mp hs).symm
  | some s =>
    cases hs' : d'.cmd.subcmd with
    | none => exact absurd (hmix.mpr hs') (by rw [hs]; exact Option.some_ne_none s)
    | some s' =>
      rw [hs, hs', hname] at h
      rw [(List.cons.inj (List.append_cancel_left h)).2]

/-- The key of a row that was asked for by name and subcommand. -/
theorem key_congr {c c' : CommandInfo} (hname : c.name = c'.name) (hsub : c.subcmd = c'.subcmd) :
    c.key = c'.key := by
  unfold CommandInfo.key
  rw [hname, hsub]

/-- The rows are declared apart exactly if the keys of the commands that have one are. -/
theorem distinct_iff {defs : List Definition} (hwf : WellFormed defs)
    (hkept : ∀ d ∈ defs, KeyKept defs d.cmd.key) :
    ((generateTable defs).Pairwise fun r r' => r.identifier ≠ r'.identifier) ↔
      IdentifiersApart defs := by
  have h := collectCommands_holds hwf
  obtain ⟨hkeys, hmem⟩ := generateTable_keys hwf
  constructor
  · intro hdistinct d hd d' hd' hid
    have hrow : ∀ x ∈ defs, ∃ r ∈ generateTable defs, r.key = x.cmd.key := by
      intro x hx
      obtain ⟨c, hc⟩ := Option.ne_none_iff_exists'.mp ((h.kept x.cmd.key).mpr (hkept x hx))
      have hkey := (h.filed _ _ hc).1
      refine ⟨⟨c, cIdentifier c.key⟩, (hmem _).mpr ⟨?_, rfl⟩, hkey⟩
      rw [hkey]
      exact hc
    obtain ⟨r, hr, hrkey⟩ := hrow d hd
    obtain ⟨r', hr', hrkey'⟩ := hrow d' hd'
    by_contra hne
    have : Std.Symm fun x y : CommandRow => x.identifier ≠ y.identifier := ⟨fun _ _ => Ne.symm⟩
    refine hdistinct.forall hr hr' ?_ ?_
    · rintro rfl
      exact hne (hrkey.symm.trans hrkey')
    · rw [((hmem r).mp hr).2, ((hmem r').mp hr').2, hrkey, hrkey', hid]
  · intro hapart
    refine hkeys.imp_of_mem fun {r r'} hr hr' hlt hid => ?_
    obtain ⟨hlookup, hrid⟩ := (hmem r).mp hr
    obtain ⟨hlookup', hrid'⟩ := (hmem r').mp hr'
    obtain ⟨d, hd, hdr⟩ := (h.filed _ _ hlookup).2
    obtain ⟨d', hd', hdr'⟩ := (h.filed _ _ hlookup').2
    have heq := hapart d hd d' hd'
    rw [hdr, hdr', ← hrid, ← hrid'] at heq
    exact List.lt_irrefl _ (heq hid ▸ hlt)

/-- **Every command put through the generator can be looked up if and only if** the name of
no command with subcommands begins the name of another that the joined keys put before it,
no command is dropped because its joined key is the name of a later one, and no two keys
become the same identifier. -/
theorem searchable_iff {defs : List Definition} (hwf : WellFormed defs) :
    Searchable defs ↔
      OrderSafe defs ∧ (∀ d ∈ defs, KeyKept defs d.cmd.key) ∧ IdentifiersApart defs := by
  have h := collectCommands_holds hwf
  obtain ⟨hkeys, hmem⟩ := generateTable_keys hwf
  constructor
  · intro hs
    have hkept : ∀ d ∈ defs, KeyKept defs d.cmd.key := by
      intro d hd
      obtain ⟨r, hr, hrname, hrsub, -⟩ := hs.found d hd
      rw [← h.kept, ← key_congr hrname hrsub, ((hmem r).mp hr).1]
      exact Option.some_ne_none _
    refine ⟨fun d hd d' hd' hsub hp hne => ?_, hkept, (distinct_iff hwf hkept).mp hs.distinct⟩
    obtain ⟨r, hr, hrname, hrsub, -⟩ := hs.found d hd
    obtain ⟨r', hr', hrname', hrsub', -⟩ := hs.found d' hd'
    rw [← key_congr hrname hrsub, ← key_congr hrname' hrsub']
    -- the two rows stand in the order of their names
    have hlt : r.name < r'.name := by
      rw [hrname, hrname']
      exact lt_of_proper_prefix hp hne
    have hboth : (generateTable defs).Pairwise fun x y : CommandRow =>
        (x.Before y.toCommandInfo ∧ x.key < y.key) ∨ (y.Before x.toCommandInfo ∧ y.key < x.key) :=
      (hs.sorted.and hkeys).imp Or.inl
    have : Std.Symm fun x y : CommandRow => (x.Before y.toCommandInfo ∧ x.key < y.key) ∨
      (y.Before x.toCommandInfo ∧ y.key < x.key) := ⟨fun _ _ => Or.symm⟩
    rcases hboth.forall hr hr' (fun heq => List.lt_irrefl _ (heq ▸ hlt)) with hb | hb
    · exact hb.2
    · rcases hb.1 with hgt | ⟨heq, -⟩
      · exact absurd hgt (List.lt_asymm hlt)
      · exact absurd (heq ▸ hlt) (List.lt_irrefl _)
  · rintro ⟨ho, hkept, hapart⟩
    have hgiven : ∀ r ∈ generateTable defs, ∃ d ∈ defs, d.cmd = r.toCommandInfo := fun r hr =>
      (h.filed r.key _ ((hmem r).mp hr).1).2
    have hsorted : (generateTable defs).Pairwise fun r r' => r.Before r'.toCommandInfo := by
      refine hkeys.imp_of_mem fun {r r'} hr hr' hlt => ?_
      obtain ⟨d, hd, hdr⟩ := hgiven r hr
      obtain ⟨d', hd', hdr'⟩ := hgiven r' hr'
      rw [← hdr, ← hdr'] at hlt ⊢
      exact before_of_key_lt hwf ho hd hd' hlt
    refine ⟨(distinct_iff hwf hkept).mpr hapart, hsorted, fun d hd => ?_⟩
    obtain ⟨c, hc⟩ := Option.ne_none_iff_exists'.mp ((h.kept d.cmd.key).mpr (hkept d hd))
    obtain ⟨hkey, d', hd', rfl⟩ := h.filed _ _ hc
    obtain ⟨hname, hsub⟩ := same_of_key_eq hwf ho hd' hd hkey
    have hrow : (⟨d'.cmd, cIdentifier d'.cmd.key⟩ : CommandRow) ∈ generateTable defs := by
      refine (hmem _).mpr ⟨?_, rfl⟩
      rw [hkey]
      exact hc
    refine ⟨_, hrow, hname, hsub, ?_⟩
    rw [← hname, ← hsub]
    refine lookupIn_of_sorted hsorted (fun r hr => ?_) (fun r hr => ?_) hrow
    · obtain ⟨e, he, her⟩ := hgiven r hr
      rw [← her]
      exact hwf.name e he
    · obtain ⟨e, he, her⟩ := hgiven r hr
      rw [← her]
      exact hwf.subcmd e he

/-! ### Sets of definitions -/

/-- A command without keys. -/
def keyless (name : String) (subcmd : Option String) : Definition :=
  .json ⟨ascii name, subcmd.map ascii, -1, .none, 0⟩

/-- Commands of Redis and of a module. -/
def plainDefs : List Definition :=
  [keyless "GET" none, keyless "ACL" (some "CAT"), keyless "GETEX" none, keyless "FT.SEARCH" none,
    keyless "ACL" (some "LOG")]

theorem searchable_iff_plain : Searchable plainDefs := by
  have hwf : WellFormed plainDefs := ⟨by decide +kernel, by decide +kernel, by decide +kernel⟩
  refine (searchable_iff hwf).mpr ⟨by decide, fun d hd => keyKept_of_mem hd ?_, by decide +kernel⟩
  revert d
  decide

/-- `FOO BAR` and `FOOX`: the joined keys are in the other order. -/
def fooDefs : List Definition := [keyless "FOO" (some "BAR"), keyless "FOOX" none]

/-- `FOO.BAR` and `FOO-BAR`: both become `FOO_BAR`. -/
def dottedDefs : List Definition := [keyless "FOO.BAR" none, keyless "FOO-BAR" none]

/-- **A command with a subcommand is not found behind another whose name is longer, and two
names that differ in punctuation only declare one enumerator twice.** -/
theorem fooDefs_not_searchable :
    (WellFormed fooDefs ∧
      lookupIn (generateTable fooDefs) (ascii "FOO") (some (ascii "BAR")) = none ∧
      ¬ Searchable fooDefs) ∧
    WellFormed dottedDefs ∧
      (generateTable dottedDefs).map (fun r => r.identifier) = [ascii "FOO_BAR", ascii "FOO_BAR"] ∧
      ¬ Searchable dottedDefs := by
  have hnone : lookupIn (generateTable fooDefs) (ascii "FOO") (some (ascii "BAR")) = none := by
    decide +kernel
  have htwice : (generateTable dottedDefs).map (fun r => r.identifier) =
      [ascii "FOO_BAR", ascii "FOO_BAR"] := by
    decide +kernel
  refine ⟨⟨⟨by decide +kernel, by decide +kernel, by decide +kernel⟩, hnone, fun h => ?_⟩,
    ⟨by decide +kernel, by decide +kernel, by decide +kernel⟩, htwice, fun h => ?_⟩
  · obtain ⟨r, -, -, -, hr⟩ := h.found (keyless "FOO" (some "BAR")) (by decide)
    exact absurd (hr.symm.trans hnone) (Option.some_ne_none r)
  · have hapart := List.pairwise_map.mpr h.distinct
    rw [htwice] at hapart
    exact (List.pairwise_cons.mp hapart).1 _ (List.mem_singleton_self _) rfl
