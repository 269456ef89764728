/-
# Formatting a command and finding its keys

`redisFormatCommandArgv` writes a command as an array of bulk strings.  A bulk string
carries its length, so arguments are arbitrary bytes.  `redis_parse_cmd` reads them one
after the other: here it is shown which commands it accepts, and that the keys it finds
are the arguments they were written from.
-/
import HiredisCluster.Command
import HiredisCluster.Numerals

/-! ## The encoder -/

/-- A bulk string. -/
def encodeBulk (a : Bytes) : Bytes := 36 :: decimal a.length ++ [13, 10] ++ a ++ [13, 10]

/-- Bulk strings one after the other. -/
def encodeArgs (args : List Bytes) : Bytes := args.flatMap encodeBulk

/-- The RESP encoding of a command, as `redisFormatCommandArgv` makes it. -/
def encodeCommand (argv : List Bytes) : Bytes :=
  42 :: decimal argv.length ++ [13, 10] ++ encodeArgs argv

/-! ## Numbers -/

theorem parseUint_numeral {s : Bytes} (hs : ∀ b ∈ s, isDigit b = true) {b : UInt8}
    (hb : isDigit b = false) (rest : Bytes) : ∀ {acc : ℕ} (pos : ℕ), numeral acc s < 2 ^ 32 →
      parseUint acc pos (s ++ b :: rest) = (numeral acc s, ⟨pos + s.length, b :: rest⟩) := by
  induction s with
  | nil =>
    intro acc pos _
    rw [List.nil_append, parseUint, hb]
    rfl
  | cons d s ih =>
    intro acc pos h
    have hnext : acc * 10 + digitVal d < 2 ^ 32 := Nat.lt_of_le_of_lt (le_numeral s _) h
    rw [List.cons_append, parseUint, if_pos (hs d List.mem_cons_self), Nat.mod_eq_of_lt hnext,
      ih (fun b hb => hs b (List.mem_cons_of_mem _ hb)) (pos + 1) h, numeral_cons,
      List.length_cons]
    congr 2
    omega

theorem parseUint_decimal {n : ℕ} (h : n < 2 ^ 32) (pos : ℕ) (rest : Bytes) :
    parseUint 0 pos (decimal n ++ 13 :: rest) = (n, ⟨pos + (decimal n).length, 13 :: rest⟩) := by
  have hparse := parseUint_numeral (fun b hb => isDigit_of_mem_decimal (n := n) hb)
    (b := 13) (by decide) rest pos (by rwa [numeral_decimal])
  rwa [numeral_decimal] at hparse

/-! ## Reading arguments -/

/-- An argument that was read is `a`. -/
structure Holds (buf : Bytes) (arg : Arg) (a : Bytes) : Prop where
  bytes : arg.bytes buf = a
  len : arg.len = a.length

/-- What follows the cursor are the arguments `args`, and nothing else. -/
structure Ahead (buf : Bytes) (c : Cursor) (args : List Bytes) : Prop where
  rest : c.rest = encodeArgs args
  drop : buf.drop c.pos = c.rest
  short : ∀ a ∈ args, a.length < 2 ^ 32

theorem Ahead.bulk_nil {buf : Bytes} {c : Cursor} (h : Ahead buf c []) :
    ∃ e, redisParseBulk c = .error e := by
  obtain ⟨pos, rest⟩ := c
  obtain rfl : rest = [] := h.rest
  exact ⟨none, rfl⟩

/-- A bulk string is read back, whatever its bytes are. -/
theorem redisParseBulk_encode {a : Bytes} (ha : a.length < 2 ^ 32) (pos : ℕ) (rest : Bytes) :
    redisParseBulk ⟨pos, encodeBulk a ++ rest⟩ =
      .ok (⟨pos + 1 + (decimal a.length).length + 2, a.length⟩,
        ⟨pos + (encodeBulk a).length, rest⟩) := by
  have hsplit : encodeBulk a ++ rest =
      36 :: (decimal a.length ++ 13 :: (10 :: (a ++ 13 :: 10 :: rest))) := by
    simp [encodeBulk]
  have hlen : pos + 1 + (decimal a.length).length + 2 + a.length + 2 =
      pos + (encodeBulk a).length := by
    simp only [encodeBulk, List.length_append, List.length_cons, List.length_nil]
    omega
  rw [hsplit, redisParseBulk]
  simp only [Cursor.expect, if_true, parseUint_decimal ha, Cursor.crlf, List.drop_left]
  rw [← hlen]

theorem Ahead.bulk_cons {buf : Bytes} {c : Cursor} {a : Bytes} {args : List Bytes}
    (h : Ahead buf c (a :: args)) : ∃ arg c', redisParseBulk c = .ok (arg, c') ∧
      Holds buf arg a ∧ Ahead buf c' args := by
  obtain ⟨pos, rest⟩ := c
  have hrest : rest = encodeBulk a ++ encodeArgs args := h.rest
  subst hrest
  have hdrop : buf.drop pos = encodeBulk a ++ encodeArgs args := h.drop
  refine ⟨_, _, redisParseBulk_encode (h.short a List.mem_cons_self) pos _, ⟨?_, rfl⟩,
    rfl, ?_, fun b hb => h.short b (List.mem_cons_of_mem _ hb)⟩
  · -- the payload starts after the header of the bulk string
    have hhead : encodeBulk a ++ encodeArgs args =
        (36 :: decimal a.length ++ [13, 10]) ++ (a ++ ([13, 10] ++ encodeArgs args)) := by
      simp [encodeBulk]
    have hpos : pos + 1 + (decimal a.length).length + 2 =
        pos + (36 :: decimal a.length ++ [13, 10]).length := by
      simp only [List.length_append, List.length_cons, List.length_nil]
      omega
    rw [Arg.bytes, hpos, ← List.drop_drop, hdrop, hhead, List.drop_left, List.take_left]
  · rw [← List.drop_drop, hdrop, List.drop_left]

/-! ## The keys -/

/-- Every second argument, starting with the first. -/
def everyOther : List Bytes → List Bytes
  | [] => []
  | [a] => [a]
  | a :: _ :: args => a :: everyOther args

theorem skipArgs_ahead {buf : Bytes} (info : CmdDef) (n : ℕ) : ∀ {arg : Arg} {c : Cursor}
    {a : Bytes} {args : List Bytes}, Holds buf arg a → Ahead buf c args →
      match (a :: args).drop n with
      | [] => ∃ e, skipArgs info n arg c = .error e
      | b :: bs => ∃ arg' c', skipArgs info n arg c = .ok (arg', c') ∧ Holds buf arg' b ∧
          Ahead buf c' bs := by
  induction n with
  | zero => exact fun ha hc => ⟨_, _, rfl, ha, hc⟩
  | succ n ih =>
    intro arg c a args ha hc
    cases args with
    | nil =>
      obtain ⟨e, he⟩ := hc.bulk_nil
      rw [List.drop_succ_cons, List.drop_nil]
      exact ⟨.keys info, by rw [skipArgs, he]⟩
    | cons b bs =>
      obtain ⟨arg', c', hbulk, hb, hbs⟩ := hc.bulk_cons
      rw [List.drop_succ_cons, skipArgs, hbulk]
      exact ih hb hbs

/-- The keys among the arguments from index `i` on. -/
def moreKeys (kvx : Bool) : ℕ → List Bytes → List Bytes
  | _, [] => []
  | i, a :: args => if kvx ∧ i % 2 = 0 then moreKeys kvx (i + 1) args
      else a :: moreKeys kvx (i + 1) args

theorem Holds.keyPos_bytes {buf : Bytes} {arg : Arg} {a : Bytes} (h : Holds buf arg a) :
    arg.keyPos.bytes buf = a := by
  rw [KeyPos.bytes, Arg.keyPos, Nat.add_sub_cancel_left]
  exact h.bytes

theorem parseMoreKeys_ahead {buf : Bytes} (info : CmdDef) (args : List Bytes) : ∀ (i : ℕ)
    {c : Cursor}, Ahead buf c args → ∃ keys, parseMoreKeys info args.length i c = .ok keys ∧
      keys.map (KeyPos.bytes buf) = moreKeys (redisArgkvx info.type) i args := by
  induction args with
  | nil => exact fun i c _ => ⟨[], rfl, rfl⟩
  | cons a args ih =>
    intro i c hc
    obtain ⟨arg, c', hbulk, ha, hc'⟩ := hc.bulk_cons
    obtain ⟨keys, hkeys, hbytes⟩ := ih (i + 1) hc'
    rw [List.length_cons, parseMoreKeys, hbulk]
    simp only [hkeys, moreKeys]
    by_cases hskip : redisArgkvx info.type = true ∧ i % 2 = 0
    · exact ⟨keys, by rw [if_pos hskip], by rw [if_pos hskip, hbytes]⟩
    · refine ⟨arg.keyPos :: keys, by rw [if_neg hskip], ?_⟩
      rw [if_neg hskip, List.map_cons, ha.keyPos_bytes, hbytes]

theorem moreKeys_all (args : List Bytes) : ∀ i, moreKeys false i args = args := by
  induction args with
  | nil => exact fun i => rfl
  | cons a args ih =>
    intro i
    rw [moreKeys, if_neg (by simp), ih]

theorem moreKeys_everyOther : ∀ (a : Bytes) (args : List Bytes) (i : ℕ), i % 2 = 0 →
    a :: moreKeys true i args = everyOther (a :: args)
  | _, [], _, _ => rfl
  | _, [_], i, hi => by
    rw [moreKeys, if_pos ⟨rfl, hi⟩]
    rfl
  | a, _ :: b :: args, i, hi => by
    have hnext := moreKeys_everyOther b args (i + 2) (by omega)
    rw [moreKeys, if_pos ⟨rfl, hi⟩, moreKeys, if_neg (by simp; omega), everyOther, ← hnext]

/-! ## The command table -/

/-- What the parser relies on in a row of the table. -/
structure CmdDef.Sound (info : CmdDef) : Prop where
  unknown : info.firstkeymethod = .unknown → info.type = .xread ∨ info.type = .xreadgroup
  firstkeypos : info.firstkeymethod = .index ∨ info.firstkeymethod = .keynum → 1 ≤ info.firstkeypos
  splittable : redisArgx info.type = true ∨ redisArgkvx info.type = true →
    info.firstkeymethod = .index ∧ info.firstkeypos = 1
  migrate : info.type = .migrate → info.firstkeymethod = .index ∧ info.firstkeypos = 3

instance (info : CmdDef) : Decidable info.Sound :=
  decidable_of_iff (_ ∧ _ ∧ _ ∧ _) ⟨fun ⟨u, p, s, m⟩ => ⟨u, p, s, m⟩, fun ⟨u, p, s, m⟩ => ⟨u, p, s, m⟩⟩

theorem redisCommands_sound : ∀ info ∈ redisCommands, info.Sound := by
  decide +kernel

theorem lookupLoop_mem {ρ : Type} {name : ρ → Bytes} {subname : ρ → Option Bytes} {table : List ρ}
    {cmd : Bytes} {subcmd : Option Bytes} {c : ρ} (fuel : ℕ) : ∀ {left right : ℕ},
      lookupLoop name subname table cmd subcmd fuel left right = some c → c ∈ table := by
  induction fuel with
  | zero => exact fun h => by cases h
  | succ fuel ih =>
    intro left right h
    unfold lookupLoop at h
    dsimp only at h
    repeat' split at h
    all_goals try exact ih h
    all_goals cases h
    all_goals exact List.mem_of_getElem? (by assumption)

/-- The row of a command, as `redis_lookup_cmd` finds it. -/
def commandInfo : List Bytes → Option CmdDef
  | [] => none
  | arg0 :: args => redisLookupCmd arg0 args.head?

theorem commandInfo_sound {argv : List Bytes} {info : CmdDef} (h : commandInfo argv = some info) :
    info.Sound := by
  cases argv with
  | nil => cases h
  | cons a args => exact redisCommands_sound info (lookupLoop_mem _ h)

/-! ## What the parser is to find -/

/-- The number of arguments satisfies the arity; a negative one is a minimum. -/
def CmdDef.ArityHolds (info : CmdDef) (argc : ℕ) : Prop :=
  if 0 ≤ info.arity then (argc : ℤ) = info.arity else -info.arity ≤ argc

instance (info : CmdDef) (argc : ℕ) : Decidable (info.ArityHolds argc) :=
  inferInstanceAs (Decidable (ite _ _ _))

/-- The command has no keys, or it says that it has none. -/
def CmdDef.NoKeys (info : CmdDef) (argv : List Bytes) : Prop :=
  info.firstkeymethod = .none ∨
    info.firstkeymethod = .keynum ∧ argv[info.firstkeypos.toNat]? = some (ascii "0")

instance (info : CmdDef) (argv : List Bytes) : Decidable (info.NoKeys argv) :=
  inferInstanceAs (Decidable (_ ∨ _))

/-- The index of the first key. -/
def CmdDef.firstKey (info : CmdDef) : ℕ :=
  if info.firstkeymethod = .keynum then info.firstkeypos.toNat + 1 else info.firstkeypos.toNat

/-- The keys of a command. -/
def CmdDef.keysOf (info : CmdDef) (argv : List Bytes) : List Bytes :=
  if info.NoKeys argv then []
  else if redisArgx info.type then argv.drop 1
  else if redisArgkvx info.type then everyOther (argv.drop 1)
  else argv[info.firstKey]?.toList

/-- The commands that are accepted. -/
structure CmdDef.Accepts (info : CmdDef) (argv : List Bytes) : Prop where
  arity : info.ArityHolds argv.length
  firstKey : ¬ info.NoKeys argv → info.firstKey < argv.length
  migrate : info.type = .migrate → argv[info.firstKey]? ≠ some []
  mset : info.type = .mset → argv.length % 2 = 1

/-- A positive decimal numeral without leading zero. -/
def PositiveNumeral (a : Bytes) : Prop :=
  (∀ b ∈ a, isDigit b = true) ∧ ∃ b bs, a = b :: bs ∧ b ≠ 48

theorem strncmp_zero_numeral {a : Bytes} (ha : PositiveNumeral a) :
    strncmp (ascii "0") a ≠ .eq := by
  obtain ⟨_, b, bs, rfl, hb⟩ := ha
  show (if (48 : UInt8) = b then _ else compare 48 b) ≠ .eq
  rw [if_neg (Ne.symm hb)]
  exact fun h => hb (Std.compare_eq_iff_eq.mp h).symm

theorem PositiveNumeral.ne_zero {a : Bytes} (ha : PositiveNumeral a) : a ≠ ascii "0" := by
  rintro rfl
  exact strncmp_zero_numeral ha (by decide)

/-! ## From the first key on -/

/-- The parser accepts a command just if `P`, and the keys it finds are then `keys`. -/
def Yields (buf : Bytes) (info : CmdDef) (narg : ℕ) (r : Except ParseError Parsed) (P : Prop)
    (keys : List Bytes) : Prop :=
  (P ∧ ∃ ks, r = .ok ⟨info.type, narg, ks⟩ ∧ ks.map (KeyPos.bytes buf) = keys) ∨
    (¬ P ∧ ∃ e, r = .error e)

/-- The keys when `a` is the first one and `args` follow. -/
def CmdDef.keysFrom (info : CmdDef) (a : Bytes) (args : List Bytes) : List Bytes :=
  if redisArgx info.type then a :: args
  else if redisArgkvx info.type then everyOther (a :: args)
  else [a]

/-- The first key `a` has been read and `args` follow. -/
theorem parseKeysFrom_ahead {buf : Bytes} {info : CmdDef} (hs : info.Sound) {narg : ℕ} {arg : Arg}
    {c : Cursor} {a : Bytes} {args : List Bytes} (ha : Holds buf arg a) (hc : Ahead buf c args)
    (hnarg : redisArgx info.type = true ∨ redisArgkvx info.type = true → narg = args.length + 2) :
    Yields buf info narg (parseKeysFrom info narg arg c)
      ((info.type = .migrate → a ≠ []) ∧ (info.type = .mset → narg % 2 = 1))
      (info.keysFrom a args) := by
  have hempty : arg.len = 0 ↔ a = [] := by rw [ha.len, List.length_eq_zero_iff]
  have hmset : redisArgkvx info.type = true ↔ info.type = .mset := by simp [redisArgkvx]
  unfold parseKeysFrom
  by_cases hmig : info.type = .migrate ∧ a = []
  · obtain ⟨hm, hpos⟩ := hs.migrate hmig.1
    rw [if_pos ⟨hmig.1, hempty.mpr hmig.2, hm, hpos⟩]
    exact .inr ⟨fun h => h.1 hmig.1 hmig.2, _, rfl⟩
  · rw [if_neg fun h => hmig ⟨h.1, hempty.mp h.2.1⟩]
    have hmigrate : info.type = .migrate → a ≠ [] := fun h h' => hmig ⟨h, h'⟩
    by_cases hsplit : (redisArgx info.type || redisArgkvx info.type) = true
    · rw [if_pos hsplit]
      have hlen := hnarg (by simpa using hsplit)
      by_cases hodd : redisArgkvx info.type = true ∧ narg % 2 = 0
      · rw [if_pos hodd]
        refine .inr ⟨fun h => ?_, _, rfl⟩
        have := h.2 (hmset.mp hodd.1)
        omega
      · obtain ⟨keys, hkeys, hbytes⟩ := parseMoreKeys_ahead info args 2 hc
        rw [if_neg hodd, show narg - 2 = args.length by omega, hkeys]
        refine .inl ⟨⟨hmigrate, fun h => ?_⟩, arg.keyPos :: keys, rfl, ?_⟩
        · have hne : ¬ narg % 2 = 0 := fun h0 => hodd ⟨hmset.mpr h, h0⟩
          omega
        · rw [List.map_cons, ha.keyPos_bytes, hbytes, CmdDef.keysFrom]
          by_cases hkv : redisArgkvx info.type = true
          · have hx : redisArgx info.type = false := by simp [redisArgx, hmset.mp hkv]
            rw [hkv, hx]
            exact moreKeys_everyOther a args 2 rfl
          · have hx : redisArgx info.type = true := by simpa [hkv] using hsplit
            rw [if_pos hx, Bool.eq_false_iff.mpr hkv, moreKeys_all]
    · rw [if_neg hsplit]
      rw [Bool.or_eq_true, not_or] at hsplit
      refine .inl ⟨⟨hmigrate, fun h => absurd (hmset.mpr h) hsplit.2⟩, [arg.keyPos], rfl, ?_⟩
      rw [List.map_singleton, ha.keyPos_bytes, CmdDef.keysFrom, if_neg hsplit.1, if_neg hsplit.2]

/-! ## Whole commands -/

theorem Yields.congr {buf : Bytes} {info : CmdDef} {narg : ℕ} {r : Except ParseError Parsed}
    {P P' : Prop} {keys keys' : List Bytes} (h : Yields buf info narg r P keys) (hP : P ↔ P')
    (hkeys : keys = keys') : Yields buf info narg r P' keys' := by
  subst hkeys
  rcases h with ⟨hp, hok⟩ | ⟨hp, herr⟩
  · exact .inl ⟨hP.mp hp, hok⟩
  · exact .inr ⟨fun hp' => hp (hP.mpr hp'), herr⟩

/-- What is asked of the arguments after the arity. -/
def CmdDef.KeysThere (info : CmdDef) (argv : List Bytes) : Prop :=
  (¬ info.NoKeys argv → info.firstKey < argv.length) ∧
    (info.type = .migrate → argv[info.firstKey]? ≠ some []) ∧
    (info.type = .mset → argv.length % 2 = 1)

theorem CmdDef.Sound.not_splittable {info : CmdDef} (hs : info.Sound)
    (h : info.firstkeymethod = .keynum) :
    redisArgx info.type = false ∧ redisArgkvx info.type = false ∧ info.type ≠ .migrate ∧
      info.type ≠ .mset := by
  have hno : ∀ {m : KeyMethod}, m = .index → info.firstkeymethod ≠ m := by
    rintro _ rfl h'
    rw [h] at h'
    cases h'
  refine ⟨Bool.eq_false_iff.mpr fun hx => hno rfl (hs.splittable (.inl hx)).1,
    Bool.eq_false_iff.mpr fun hx => hno rfl (hs.splittable (.inr hx)).1,
    fun hm => hno rfl (hs.migrate hm).1, fun hm => hno rfl (hs.splittable (.inr ?_)).1⟩
  simp [redisArgkvx, hm]

section Keys

variable {buf : Bytes} {info : CmdDef} {arg1 : Arg} {c : Cursor} {a0 a1 : Bytes}
  {args : List Bytes}

/-- The argument `n` places after the first one. -/
theorem getElem?_of_drop {n : ℕ} {b : Bytes} {bs : List Bytes} (h : (a1 :: args).drop n = b :: bs) :
    (a0 :: a1 :: args)[n + 1]? = some b := by
  rw [List.getElem?_cons_succ, ← List.head?_drop, h]
  rfl

theorem parseKeys_index (hs : info.Sound) (hm : info.firstkeymethod = .index)
    (ha : Holds buf arg1 a1) (hc : Ahead buf c args) :
    Yields buf info (args.length + 2) (parseKeys buf info (args.length + 2) arg1 c)
      (info.KeysThere (a0 :: a1 :: args)) (info.keysOf (a0 :: a1 :: args)) := by
  obtain ⟨n, hn⟩ : ∃ n : ℕ, info.firstkeypos = n + 1 :=
    ⟨(info.firstkeypos - 1).toNat, by have := hs.firstkeypos (.inl hm); omega⟩
  have hfirst : info.firstKey = n + 1 := by
    rw [CmdDef.firstKey, if_neg (by rw [hm]; decide)]
    omega
  have hkeys : ¬ info.NoKeys (a0 :: a1 :: args) := by simp [CmdDef.NoKeys, hm]
  have hskip := skipArgs_ahead info n ha hc
  unfold parseKeys
  rw [hm, show (info.firstkeypos - 1).toNat = n by omega]
  cases hdrop : (a1 :: args).drop n with
  | nil =>
    rw [hdrop] at hskip
    obtain ⟨e, he⟩ := hskip
    refine .inr ⟨fun h => ?_, e, by rw [he]⟩
    have hlt := h.1 hkeys
    have hge := List.drop_eq_nil_iff.mp hdrop
    rw [hfirst] at hlt
    simp only [List.length_cons] at hlt hge
    omega
  | cons b bs =>
    rw [hdrop] at hskip
    obtain ⟨arg, c', he, hb, hbs⟩ := hskip
    simp only [he]
    have hthere : (a0 :: a1 :: args)[n + 1]? = some b := getElem?_of_drop hdrop
    have hone : redisArgx info.type = true ∨ redisArgkvx info.type = true →
        b :: bs = a1 :: args := by
      intro hsplit
      have hn0 : n = 0 := by have := (hs.splittable hsplit).2; omega
      rw [← hdrop, hn0, List.drop_zero]
    refine (parseKeysFrom_ahead hs hb hbs fun hsplit => ?_).congr ?_ ?_
    · rw [← (List.cons.inj (hone hsplit)).2]
    · rw [CmdDef.KeysThere, hfirst, hthere]
      exact ⟨fun h => ⟨fun _ => (List.getElem?_eq_some_iff.mp hthere).1,
        fun hmig he => h.1 hmig (Option.some.inj he), h.2⟩,
        fun h => ⟨fun hmig he => h.2.1 hmig (congrArg some he), h.2.2⟩⟩
    · rw [CmdDef.keysOf, if_neg hkeys, hfirst, hthere, CmdDef.keysFrom]
      by_cases hsplit : redisArgx info.type = true ∨ redisArgkvx info.type = true
      · rw [hone hsplit]
        rcases hsplit with hx | hx <;> simp [hx]
      · rw [not_or] at hsplit
        rw [if_neg hsplit.1, if_neg hsplit.2, if_neg hsplit.1, if_neg hsplit.2]
        rfl

theorem parseKeys_keynum (hs : info.Sound) (hm : info.firstkeymethod = .keynum)
    (ha : Holds buf arg1 a1) (hc : Ahead buf c args)
    (hnum : ∀ a, (a0 :: a1 :: args)[info.firstkeypos.toNat]? = some a →
      a = ascii "0" ∨ PositiveNumeral a) :
    Yields buf info (args.length + 2) (parseKeys buf info (args.length + 2) arg1 c)
      (info.KeysThere (a0 :: a1 :: args)) (info.keysOf (a0 :: a1 :: args)) := by
  obtain ⟨n, hn⟩ : ∃ n : ℕ, info.firstkeypos = n + 1 :=
    ⟨(info.firstkeypos - 1).toNat, by have := hs.firstkeypos (.inr hm); omega⟩
  have htoNat : info.firstkeypos.toNat = n + 1 := by omega
  obtain ⟨hx, hkvx, hmigrate, hmset⟩ := hs.not_splittable hm
  have hfirst : info.firstKey = n + 2 := by
    rw [CmdDef.firstKey, if_pos hm, htoNat]
  have hskip := skipArgs_ahead info n ha hc
  unfold parseKeys
  rw [hm, show (info.firstkeypos - 1).toNat = n by omega]
  cases hdrop : (a1 :: args).drop n with
  | nil =>
    rw [hdrop] at hskip
    obtain ⟨e, he⟩ := hskip
    have hge := List.drop_eq_nil_iff.mp hdrop
    refine .inr ⟨fun h => ?_, e, by rw [he]⟩
    have hkeys : ¬ info.NoKeys (a0 :: a1 :: args) := by
      rintro (h' | h')
      · rw [hm] at h'
        cases h'
      · have hlt := (List.getElem?_eq_some_iff.mp h'.2).1
        rw [htoNat] at hlt
        simp only [List.length_cons] at hlt hge
        omega
    have hlt := h.1 hkeys
    rw [hfirst] at hlt
    simp only [List.length_cons] at hlt hge
    omega
  | cons b bs =>
    rw [hdrop] at hskip
    obtain ⟨arg, c', he, hb, hbs⟩ := hskip
    simp only [he, hb.bytes]
    have hthere : (a0 :: a1 :: args)[n + 1]? = some b := getElem?_of_drop hdrop
    rcases hnum b (by rw [htoNat]; exact hthere) with rfl | hpos
    · -- `numkeys` is zero
      have hno : info.NoKeys (a0 :: a1 :: args) := .inr ⟨hm, by rw [htoNat]; exact hthere⟩
      rw [if_pos (by decide)]
      refine .inl ⟨⟨fun h => absurd hno h, fun h => absurd h hmigrate, fun h => absurd h hmset⟩,
        [], rfl, ?_⟩
      rw [CmdDef.keysOf, if_pos hno]
      rfl
    · have hkeys : ¬ info.NoKeys (a0 :: a1 :: args) := by
        rintro (h' | h')
        · rw [hm] at h'
          cases h'
        · rw [htoNat, hthere] at h'
          exact hpos.ne_zero (Option.some.inj h'.2)
      rw [if_neg (strncmp_zero_numeral hpos)]
      have hnext : (a0 :: a1 :: args)[n + 2]? = bs.head? := by
        rw [List.getElem?_cons_succ, ← List.head?_drop, ← List.drop_drop, hdrop]
        rfl
      cases bs with
      | nil =>
        obtain ⟨e, he⟩ := hbs.bulk_nil
        refine .inr ⟨fun h => ?_, .keys info, by rw [he]⟩
        have hlt := h.1 hkeys
        rw [hfirst] at hlt
        rw [List.getElem?_eq_getElem hlt] at hnext
        cases hnext
      | cons k ks =>
        obtain ⟨arg', c'', he, hk, hks⟩ := hbs.bulk_cons
        simp only [he]
        refine (parseKeysFrom_ahead hs hk hks fun h => ?_).congr ?_ ?_
        · rw [hx, hkvx] at h
          simp at h
        · exact ⟨fun _ => ⟨fun _ => hfirst ▸ (List.getElem?_eq_some_iff.mp hnext).1,
            fun h => absurd h hmigrate, fun h => absurd h hmset⟩,
            fun _ => ⟨fun h => absurd h hmigrate, fun h => absurd h hmset⟩⟩
        · rw [CmdDef.keysOf, if_neg hkeys, hfirst, hnext, CmdDef.keysFrom, hx, hkvx]
          rfl

end Keys

theorem arityOk_iff (info : CmdDef) {argc : ℕ} (h : argc < 2 ^ 31) :
    arityOk info argc = true ↔ info.ArityHolds argc := by
  unfold arityOk CmdDef.ArityHolds
  rw [toInt32_of_lt h]
  split <;> exact decide_eq_true_iff

theorem CmdDef.accepts_iff {info : CmdDef} {argv : List Bytes} :
    info.Accepts argv ↔ info.ArityHolds argv.length ∧ info.KeysThere argv :=
  ⟨fun h => ⟨h.arity, h.firstKey, h.migrate, h.mset⟩, fun h => ⟨h.1, h.2.1, h.2.2.1, h.2.2.2⟩⟩

/-- The arguments are within the bounds of the length fields. -/
theorem encodeCommand_bounds {argv : List Bytes} {n : ℕ} (h : (encodeCommand argv).length < n) :
    argv.length < n ∧ ∀ a ∈ argv, a.length < n := by
  have hargs : argv.length ≤ (encodeArgs argv).length ∧
      ∀ a ∈ argv, a.length ≤ (encodeArgs argv).length := by
    clear h
    induction argv with
    | nil => exact ⟨Nat.le_refl _, by simp⟩
    | cons a argv ih =>
      have hlen : (encodeArgs (a :: argv)).length =
          (encodeBulk a).length + (encodeArgs argv).length := by
        rw [encodeArgs, List.flatMap_cons, List.length_append]
        rfl
      have hbulk : a.length < (encodeBulk a).length := by
        simp only [encodeBulk, List.length_append, List.length_cons, List.length_nil]
        omega
      refine ⟨by rw [hlen, List.length_cons]; omega, fun b hb => ?_⟩
      rcases List.mem_cons.mp hb with rfl | hb
      · omega
      · have := ih.2 b hb
        omega
  have hle : (encodeArgs argv).length ≤ (encodeCommand argv).length := by
    simp only [encodeCommand, List.length_append]
    omega
  exact ⟨by omega, fun a ha => by have := hargs.2 a ha; omega⟩

theorem parseHeader_eq {argv : List Bytes} (hne : argv ≠ []) (hlen : argv.length < 2 ^ 32) :
    parseHeader (encodeCommand argv) = some (argv.length,
      ⟨(42 :: decimal argv.length ++ [13, 10]).length, encodeArgs argv⟩) := by
  have hsplit : encodeCommand argv = 42 :: (decimal argv.length ++ 13 :: (10 :: encodeArgs argv)) := by
    simp [encodeCommand]
  have hpos : argv.length ≠ 0 := fun h => hne (List.length_eq_zero_iff.mp h)
  have hstart : (42 :: decimal argv.length ++ [13, 10]).length =
      0 + 1 + (decimal argv.length).length + 2 := by
    simp only [List.length_append, List.length_cons, List.length_nil]
    omega
  rw [hsplit, hstart, parseHeader]
  simp [Cursor.expect, parseUint_decimal hlen, Cursor.crlf, hpos]

theorem parseHeader_encode {argv : List Bytes} (hne : argv ≠ [])
    (hlen : (encodeCommand argv).length < 2 ^ 31) :
    ∃ c, parseHeader (encodeCommand argv) = some (argv.length, c) ∧
      Ahead (encodeCommand argv) c argv := by
  obtain ⟨hargc, hargs⟩ := encodeCommand_bounds hlen
  refine ⟨_, parseHeader_eq hne (by omega), rfl, ?_, fun a ha => ?_⟩
  · have hhead : encodeCommand argv = (42 :: decimal argv.length ++ [13, 10]) ++ encodeArgs argv := rfl
    rw [hhead, List.drop_left]
  · have := hargs a ha
    omega

/-- A command without keys. -/
theorem CmdDef.Sound.keysThere_none {info : CmdDef} (hs : info.Sound)
    (hm : info.firstkeymethod = .none) (argv : List Bytes) :
    info.KeysThere argv ∧ info.keysOf argv = [] := by
  have hno : info.NoKeys argv := .inl hm
  have hindex : info.firstkeymethod ≠ .index := by
    rw [hm]
    decide
  refine ⟨⟨fun h => absurd hno h, fun h => absurd (hs.migrate h).1 hindex, fun h => ?_⟩, ?_⟩
  · exact absurd (hs.splittable (.inr (by simp [redisArgkvx, h]))).1 hindex
  · rw [CmdDef.keysOf, if_pos hno]

/-- A command with keys that has no arguments. -/
theorem CmdDef.Sound.not_keysThere_single {info : CmdDef} (hs : info.Sound)
    (hm : info.firstkeymethod = .index ∨ info.firstkeymethod = .keynum) (a0 : Bytes) :
    ¬ info.KeysThere [a0] := by
  have hpos := hs.firstkeypos hm
  have hkeys : ¬ info.NoKeys [a0] := by
    rintro (h | ⟨_, h⟩)
    · rcases hm with hm | hm <;> rw [hm] at h <;> cases h
    · have hlt := (List.getElem?_eq_some_iff.mp h).1
      rw [List.length_singleton] at hlt
      omega
  intro h
  have hlt := h.1 hkeys
  rw [List.length_singleton, CmdDef.firstKey] at hlt
  split at hlt <;> omega

/-- The name has been looked up. -/
theorem parseNamed_eq {buf : Bytes} {narg : ℕ} {arg0 : Arg} {arg1 : Option Arg} {c : Cursor}
    {info : CmdDef}
    (hlookup : redisLookupCmd (arg0.bytes buf) (arg1.map (Arg.bytes buf)) = some info)
    (har : arityOk info narg = true) (hm : info.firstkeymethod ≠ .none) :
    parseNamed buf narg arg0 arg1 c =
      arg1.elim (.error (.keys info)) fun arg1 => parseKeys buf info narg arg1 c := by
  unfold parseNamed
  rw [hlookup]
  dsimp only
  rw [if_pos har]
  cases hmethod : info.firstkeymethod with
  | none => exact absurd hmethod hm
  | _ => cases arg1 <;> rfl

/-- The arguments that the name is looked up with have been read. -/
theorem parseNamed_yields {buf : Bytes} {argv : List Bytes} {arg0 : Arg} {arg1 : Option Arg}
    {c : Cursor} {info : CmdDef} (hs : info.Sound) (hargc : argv.length < 2 ^ 31)
    (hlookup : redisLookupCmd (arg0.bytes buf) (arg1.map (Arg.bytes buf)) = some info)
    (hrest : info.firstkeymethod ≠ .none → Yields buf info argv.length
      (arg1.elim (.error (.keys info)) fun arg1 => parseKeys buf info argv.length arg1 c)
      (info.KeysThere argv) (info.keysOf argv)) :
    Yields buf info argv.length (parseNamed buf argv.length arg0 arg1 c)
      (info.Accepts argv) (info.keysOf argv) := by
  have harity := arityOk_iff info hargc
  by_cases har : arityOk info argv.length = true
  · have hiff : info.KeysThere argv ↔ info.Accepts argv := by
      rw [CmdDef.accepts_iff]
      exact ⟨fun h => ⟨harity.mp har, h⟩, fun h => h.2⟩
    by_cases hm : info.firstkeymethod = .none
    · obtain ⟨hthere, hkeys⟩ := hs.keysThere_none hm argv
      unfold parseNamed
      rw [hlookup]
      dsimp only
      rw [if_pos har, hm]
      exact .inl ⟨hiff.mp hthere, [], rfl, by rw [hkeys]; rfl⟩
    · rw [parseNamed_eq hlookup har hm]
      exact (hrest hm).congr hiff rfl
  · unfold parseNamed
    rw [hlookup]
    dsimp only
    rw [if_neg har]
    exact .inr ⟨fun h => har (harity.mpr h.arity), _, rfl⟩

/-- The parser on a whole command. -/
theorem redisParseCmd_yields {argv : List Bytes} {info : CmdDef}
    (hlen : (encodeCommand argv).length < 2 ^ 31) (hinfo : commandInfo argv = some info)
    (hx : info.type ≠ .xread) (hxg : info.type ≠ .xreadgroup)
    (hnum : info.firstkeymethod = .keynum → ∀ a, argv[info.firstkeypos.toNat]? = some a →
      a = ascii "0" ∨ PositiveNumeral a) :
    Yields (encodeCommand argv) info argv.length (redisParseCmd (encodeCommand argv))
      (info.Accepts argv) (info.keysOf argv) := by
  have hs := commandInfo_sound hinfo
  have hargc := (encodeCommand_bounds hlen).1
  have hkeyed : info.firstkeymethod ≠ .none →
      info.firstkeymethod = .index ∨ info.firstkeymethod = .keynum := by
    intro hm
    have hmethod : info.firstkeymethod ≠ .unknown := fun h => (hs.unknown h).elim hx hxg
    cases h : info.firstkeymethod with
    | none => exact absurd h hm
    | unknown => exact absurd h hmethod
    | index => exact .inl rfl
    | keynum => exact .inr rfl
  cases argv with
  | nil => cases hinfo
  | cons a0 rest =>
    obtain ⟨c, hhead, hc⟩ := parseHeader_encode (List.cons_ne_nil a0 rest) hlen
    obtain ⟨arg0, c0, hbulk0, ha0, hc0⟩ := hc.bulk_cons
    rw [redisParseCmd, hhead]
    dsimp only
    rw [hbulk0]
    dsimp only
    cases rest with
    | nil =>
      rw [if_neg (by simp)]
      refine parseNamed_yields hs hargc (by rw [ha0.bytes]; exact hinfo) fun hm => ?_
      exact .inr ⟨hs.not_keysThere_single (hkeyed hm) a0, _, rfl⟩
    | cons a1 args =>
      obtain ⟨arg1, c1, hbulk1, ha1, hc1⟩ := hc0.bulk_cons
      rw [if_pos (by simp), hbulk1]
      dsimp only
      refine parseNamed_yields hs hargc ?_ fun hm => ?_
      · rw [ha0.bytes, Option.map_some, ha1.bytes]
        exact hinfo
      · rcases hkeyed hm with h | h
        · exact parseKeys_index hs h ha1 hc1
        · exact parseKeys_keynum hs h ha1 hc1 (hnum h)

/-- **Key extraction undoes command formatting**: the parser accepts the encoding of `argv`
just if the arity, the first key, the key of MIGRATE and the pairs of MSET are right, and
the keys it records are then those of the command, byte for byte. -/
theorem redisParseCmd_encodeCommand {argv : List Bytes} {info : CmdDef}
    (hlen : (encodeCommand argv).length < 2 ^ 31) (hinfo : commandInfo argv = some info)
    (hx : info.type ≠ .xread) (hxg : info.type ≠ .xreadgroup)
    (hnum : info.firstkeymethod = .keynum → ∀ a, argv[info.firstkeypos.toNat]? = some a →
      a = ascii "0" ∨ PositiveNumeral a) :
    ((∃ p, redisParseCmd (encodeCommand argv) = .ok p) ↔ info.Accepts argv) ∧
      ∀ p, redisParseCmd (encodeCommand argv) = .ok p → p.type = info.type ∧
        p.narg = argv.length ∧ p.keys.map (KeyPos.bytes (encodeCommand argv)) = info.keysOf argv := by
  rcases redisParseCmd_yields hlen hinfo hx hxg hnum with ⟨hacc, ks, hok, hks⟩ | ⟨hno, e, herr⟩
  · refine ⟨⟨fun _ => hacc, fun _ => ⟨_, hok⟩⟩, fun p hp => ?_⟩
    rw [hok] at hp
    cases hp
    exact ⟨rfl, rfl, hks⟩
  · refine ⟨⟨?_, fun h => absurd h hno⟩, ?_⟩
    · rintro ⟨p, hp⟩
      rw [herr] at hp
      cases hp
    · intro p hp
      rw [herr] at hp
      cases hp

/-- `MSET` with a key that looks like a bulk string. -/
def crlfMset : List Bytes :=
  [ascii "mset", [36, 49, 13, 10], [42, 0], ascii "k", []]

theorem redisParseCmd_encodeCommand_mset :
    ∃ info, commandInfo crlfMset = some info ∧ info.Accepts crlfMset ∧
      ∃ p, redisParseCmd (encodeCommand crlfMset) = .ok p ∧
        p.keys.map (KeyPos.bytes (encodeCommand crlfMset)) = [[36, 49, 13, 10], ascii "k"] := by
  have hinfo : commandInfo crlfMset = some ⟨.mset, "MSET", none, .index, 1, -3⟩ := by
    decide +kernel
  have hspec := redisParseCmd_encodeCommand (by decide +kernel) hinfo
    (by decide) (by decide) (fun h => by cases h)
  have hacc : CmdDef.Accepts ⟨.mset, "MSET", none, .index, 1, -3⟩ crlfMset :=
    ⟨by decide, by decide, by decide, by decide⟩
  obtain ⟨p, hp⟩ := hspec.1.mpr hacc
  exact ⟨_, hinfo, hacc, p, hp, (hspec.2 p hp).2.2.trans (by decide)⟩
