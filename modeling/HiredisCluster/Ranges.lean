/-
# The keys of an arbitrary buffer

Whatever the buffer is, the keys that `redis_parse_cmd` records lie in it: one behind the
other, each followed by a line end.  Their number depends on the command and on the number
of arguments only.

`redisParseCmd_inside` is proved along the parser: each of its loops goes from a cursor on
the buffer to another one further on.
-/
import HiredisCluster.Bulks
import HiredisCluster.Lookup
import HiredisCluster.Encoding

/-! ## Keys one behind the other -/

/-- The keys stand behind `lo`, in order, and each is followed by a line end. -/
structure Ranged (buf : Bytes) (lo : ℕ) (keys : List KeyPos) : Prop where
  inside : ∀ k ∈ keys, lo < k.start ∧ k.start ≤ k.stop ∧ ∃ rest, buf.drop k.stop = 13 :: 10 :: rest
  ordered : keys.Pairwise fun k k' => k.stop < k'.start

theorem ranged_nil (buf : Bytes) (lo : ℕ) : Ranged buf lo [] :=
  ⟨fun k hk => (by cases hk), List.Pairwise.nil⟩

theorem Ranged.mono {buf : Bytes} {lo lo' : ℕ} {keys : List KeyPos} (h : Ranged buf lo keys)
    (hlo : lo' ≤ lo) : Ranged buf lo' keys :=
  ⟨fun k hk => ⟨Nat.lt_of_le_of_lt hlo (h.inside k hk).1, (h.inside k hk).2⟩, h.ordered⟩

/-- An argument that has been read is a key in front of those behind the cursor. -/
theorem Behind.ranged {buf : Bytes} {lo : ℕ} {a : Arg} {c : Cursor} {keys : List KeyPos}
    (h : Behind buf lo a c) (hkeys : Ranged buf c.pos keys) :
    Ranged buf lo (a.keyPos :: keys) := by
  constructor
  · intro k hk
    rcases List.mem_cons.mp hk with rfl | hk
    · exact ⟨h.start, Nat.le_add_right _ _, h.complete⟩
    · exact ⟨Nat.lt_trans h.lt_pos (hkeys.inside k hk).1, (hkeys.inside k hk).2⟩
  · refine List.pairwise_cons.mpr ⟨fun k hk => ?_, hkeys.ordered⟩
    have hstart := (hkeys.inside k hk).1
    have hpos := h.pos
    change a.start + a.len < k.start
    omega

theorem Behind.ranged_single {buf : Bytes} {lo : ℕ} {a : Arg} {c : Cursor}
    (h : Behind buf lo a c) : Ranged buf lo [a.keyPos] := h.ranged (ranged_nil buf c.pos)

/-! ## The loops of the parser -/

theorem skipArgs_behind {buf : Bytes} {info : CmdDef} {lo : ℕ} (n : ℕ) : ∀ {a b : Arg}
    {c d : Cursor}, Behind buf lo a c → skipArgs info n a c = .ok (b, d) → Behind buf lo b d := by
  induction n with
  | zero =>
    intro a b c d h hs
    cases hs
    exact h
  | succ n ih =>
    intro a b c d h hs
    unfold skipArgs at hs
    cases hr : redisParseBulk c with
    | error e =>
      rw [hr] at hs
      cases hs
    | ok r =>
      rw [hr] at hs
      exact ih ((redisParseBulk_ok h.on hr).2.mono (Nat.le_of_lt h.lt_pos)) hs

/-- One argument of those from index `i` on. -/
theorem parseMoreKeys_succ {info : CmdDef} {n i : ℕ} {c : Cursor} {keys : List KeyPos}
    (h : parseMoreKeys info (n + 1) i c = .ok keys) :
    ∃ a c' keys', redisParseBulk c = .ok (a, c') ∧ parseMoreKeys info n (i + 1) c' = .ok keys' ∧
      keys = if redisArgkvx info.type ∧ i % 2 = 0 then keys' else a.keyPos :: keys' := by
  unfold parseMoreKeys at h
  cases hr : redisParseBulk c with
  | error e =>
    rw [hr] at h
    cases h
  | ok r =>
    rw [hr] at h
    dsimp only at h
    cases hmore : parseMoreKeys info n (i + 1) r.2 with
    | error e =>
      rw [hmore] at h
      cases h
    | ok keys' =>
      rw [hmore] at h
      dsimp only at h
      refine ⟨r.1, r.2, keys', rfl, hmore, ?_⟩
      by_cases hvalue : redisArgkvx info.type = true ∧ i % 2 = 0
      · rw [if_pos hvalue] at h ⊢
        cases h
        rfl
      · rw [if_neg hvalue] at h ⊢
        cases h
        rfl

theorem parseMoreKeys_ranged {buf : Bytes} {info : CmdDef} (n : ℕ) : ∀ {i : ℕ} {c : Cursor}
    {keys : List KeyPos}, c.On buf → parseMoreKeys info n i c = .ok keys →
      Ranged buf c.pos keys := by
  induction n with
  | zero =>
    intro i c keys _ h
    cases h
    exact ranged_nil buf c.pos
  | succ n ih =>
    intro i c keys hc h
    obtain ⟨a, c', keys', hr, hmore, rfl⟩ := parseMoreKeys_succ h
    have hb := (redisParseBulk_ok hc hr).2
    have hkeys := ih hb.on hmore
    split
    · exact hkeys.mono (Nat.le_of_lt hb.lt_pos)
    · exact hb.ranged hkeys

/-- How many keys there are among `n` arguments from index `i` on. -/
theorem parseMoreKeys_length {info : CmdDef} (n : ℕ) : ∀ {i : ℕ} {c : Cursor}
    {keys : List KeyPos}, parseMoreKeys info n i c = .ok keys →
      keys.length = if redisArgkvx info.type then (n + i % 2) / 2 else n := by
  induction n with
  | zero =>
    intro i c keys h
    cases h
    have hi : (0 + i % 2) / 2 = 0 := by omega
    rw [hi, ite_self]
    rfl
  | succ n ih =>
    intro i c keys h
    obtain ⟨a, c', keys', -, hmore, rfl⟩ := parseMoreKeys_succ h
    have hlen := ih hmore
    by_cases hkvx : redisArgkvx info.type = true
    · rw [if_pos hkvx] at hlen ⊢
      by_cases hi : i % 2 = 0
      · rw [if_pos ⟨hkvx, hi⟩]
        omega
      · rw [if_neg fun h => hi h.2, List.length_cons]
        omega
    · rw [if_neg hkvx] at hlen ⊢
      rw [if_neg fun h => hkvx h.1, List.length_cons, hlen]

/-- A complete bulk string stands at offset `i`. -/
def BulkAt (buf : Bytes) (i : ℕ) : Prop :=
  ∃ digits v, BulkAnnounced buf i digits v ∧ Complete buf v

theorem Behind.bulkAt {buf : Bytes} {i : ℕ} {a : Arg} {c : Cursor} (h : Behind buf i a c)
    (hann : ∃ digits, BulkAnnounced buf i digits a) : BulkAt buf i :=
  hann.elim fun digits hd => ⟨digits, a, hd, h.complete⟩

/-- Among pairs, from a value on: the value is there, and a value follows every key. -/
theorem parseMoreKeys_values {buf : Bytes} {info : CmdDef} (hkvx : redisArgkvx info.type = true)
    (m : ℕ) : ∀ {i : ℕ} {c : Cursor} {keys : List KeyPos}, i % 2 = 0 → c.On buf →
      parseMoreKeys info (2 * m + 1) i c = .ok keys →
      BulkAt buf c.pos ∧ ∀ k ∈ keys, BulkAt buf (k.stop + 2) := by
  induction m with
  | zero =>
    intro i c keys hi hc h
    obtain ⟨a, c', keys', hr, hmore, rfl⟩ := parseMoreKeys_succ h
    obtain ⟨hann, hb⟩ := redisParseBulk_ok hc hr
    cases hmore
    rw [if_pos ⟨hkvx, hi⟩]
    exact ⟨hb.bulkAt hann, fun k hk => (by cases hk)⟩
  | succ m ih =>
    intro i c keys hi hc h
    obtain ⟨v, c₁, keys₁, hr₁, hmore₁, rfl⟩ := parseMoreKeys_succ h
    obtain ⟨hann₁, hb₁⟩ := redisParseBulk_ok hc hr₁
    obtain ⟨a, c₂, keys₂, hr₂, hmore₂, rfl⟩ := parseMoreKeys_succ (n := 2 * m + 1) hmore₁
    obtain ⟨-, hb₂⟩ := redisParseBulk_ok hb₁.on hr₂
    obtain ⟨hvalue, hkeys⟩ := ih (i := i + 1 + 1) (by omega) hb₂.on hmore₂
    rw [if_pos ⟨hkvx, hi⟩, if_neg fun h => by omega]
    refine ⟨hb₁.bulkAt hann₁, fun k hk => ?_⟩
    rcases List.mem_cons.mp hk with rfl | hk
    · rw [hb₂.pos] at hvalue
      exact hvalue
    · exact hkeys k hk

theorem parseAfterKeyword_ranged {buf : Bytes} {info : CmdDef} {narg : ℕ} {keyword : String}
    {startfrom : ℤ} {p : Parsed} (n : ℕ) : ∀ {argidx : ℤ} {c : Cursor}, c.On buf →
      parseAfterKeyword buf info narg keyword startfrom n argidx c = .ok p →
      ∃ a : Arg, p = ⟨info.type, narg, [a.keyPos]⟩ ∧ Ranged buf c.pos [a.keyPos] := by
  induction n with
  | zero =>
    intro argidx c _ h
    cases h
  | succ n ih =>
    intro argidx c hc h
    unfold parseAfterKeyword at h
    cases hr : redisParseBulk c with
    | error e =>
      rw [hr] at h
      cases h
    | ok r =>
      rw [hr] at h
      dsimp only at h
      have hb := (redisParseBulk_ok hc hr).2
      -- the search goes on behind the argument
      have hnext : parseAfterKeyword buf info narg keyword startfrom n (argidx + 1) r.2 = .ok p →
          ∃ a : Arg, p = ⟨info.type, narg, [a.keyPos]⟩ ∧ Ranged buf c.pos [a.keyPos] := fun h => by
        obtain ⟨a, hp, hrange⟩ := ih hb.on h
        exact ⟨a, hp, hrange.mono (Nat.le_of_lt hb.lt_pos)⟩
      by_cases hidx : argidx < startfrom
      · rw [if_pos hidx] at h
        exact hnext h
      · rw [if_neg hidx] at h
        by_cases hword : sameWord keyword (r.1.bytes buf) = true
        · rw [if_pos hword] at h
          cases hr' : redisParseBulk r.2 with
          | error e =>
            rw [hr'] at h
            cases h
          | ok r' =>
            rw [hr'] at h
            cases h
            have hb' := (redisParseBulk_ok hb.on hr').2
            exact ⟨r'.1, rfl, hb'.ranged_single.mono (Nat.le_of_lt hb.lt_pos)⟩
        · rw [if_neg hword] at h
          exact hnext h

/-! ## The parser -/

/-- Keys in the buffer, as many as the command has. -/
structure Keyed (buf : Bytes) (p : Parsed) : Prop where
  ranged : Ranged buf 0 p.keys
  args : redisArgx p.type = true → p.keys.length = p.narg - 1
  pairs : redisArgkvx p.type = true → p.keys.length = (p.narg - 1) / 2
  other : redisArgx p.type = false → redisArgkvx p.type = false → p.keys.length ≤ 1
  values : redisArgkvx p.type = true → ∀ k ∈ p.keys, BulkAt buf (k.stop + 2)

/-- At most one key, of a command that is not split. -/
theorem keyed_of_unsplit {buf : Bytes} {type : CmdType} {narg : ℕ} {keys : List KeyPos}
    (hargx : ¬ redisArgx type = true) (hkvx : ¬ redisArgkvx type = true) (h : Ranged buf 0 keys)
    (hlen : keys.length ≤ 1) : Keyed buf ⟨type, narg, keys⟩ :=
  ⟨h, fun hx => absurd hx hargx, fun hx => absurd hx hkvx, fun _ _ => hlen,
    fun hx => absurd hx hkvx⟩

/-- MSET is not among the commands of keys only. -/
theorem not_argx_of_argkvx {t : CmdType} (h : redisArgkvx t = true) : ¬ redisArgx t = true := by
  obtain rfl : t = .mset := by simpa [redisArgkvx] using h
  decide

/-- From the first key on. -/
theorem parseKeysFrom_keyed {buf : Bytes} {info : CmdDef} {narg : ℕ} {arg : Arg} {c : Cursor}
    {p : Parsed} (hnarg : 2 ≤ narg) (hb : Behind buf 0 arg c)
    (h : parseKeysFrom info narg arg c = .ok p) : Keyed buf p ∧ p.narg = narg := by
  unfold parseKeysFrom at h
  split at h
  · cases h
  · by_cases hsplit : (redisArgx info.type || redisArgkvx info.type) = true
    · rw [if_pos hsplit] at h
      split at h
      · cases h
      · rename_i hodd
        cases hmore : parseMoreKeys info (narg - 2) 2 c with
        | error e =>
          rw [hmore] at h
          cases h
        | ok keys =>
          rw [hmore] at h
          cases h
          have hlen := parseMoreKeys_length _ hmore
          refine ⟨⟨hb.ranged (parseMoreKeys_ranged _ hb.on hmore), fun hx => ?_, fun hx => ?_,
            fun hx hx' => ?_, fun hx => ?_⟩, rfl⟩
          · have hkvx : ¬ redisArgkvx info.type = true := fun h => not_argx_of_argkvx h hx
            rw [if_neg hkvx] at hlen
            rw [List.length_cons]
            dsimp only
            omega
          · have hkvx : redisArgkvx info.type = true := hx
            rw [if_pos hkvx] at hlen
            have hnotEven : ¬ narg % 2 = 0 := fun h0 => hodd ⟨hkvx, h0⟩
            rw [List.length_cons]
            dsimp only
            omega
          · rw [show redisArgx info.type = false from hx,
              show redisArgkvx info.type = false from hx'] at hsplit
            cases hsplit
          · have hkvx : redisArgkvx info.type = true := hx
            have hpairs : narg - 2 = 2 * ((narg - 3) / 2) + 1 := by
              have hnotEven : ¬ narg % 2 = 0 := fun h0 => hodd ⟨hkvx, h0⟩
              omega
            rw [hpairs] at hmore
            obtain ⟨hvalue, hkeys⟩ := parseMoreKeys_values hkvx _ (by decide) hb.on hmore
            refine List.forall_mem_cons.mpr ⟨?_, hkeys⟩
            rw [hb.pos] at hvalue
            exact hvalue
    · rw [if_neg hsplit] at h
      cases h
      rw [Bool.or_eq_true, not_or] at hsplit
      exact ⟨keyed_of_unsplit hsplit.1 hsplit.2 hb.ranged_single (Nat.le_refl 1), rfl⟩

/-- A command without keys. -/
theorem keyed_nil {buf : Bytes} {info : CmdDef} (hs : info.Sound) {narg : ℕ}
    (hm : info.firstkeymethod ≠ .index) : Keyed buf ⟨info.type, narg, []⟩ :=
  keyed_of_unsplit (fun hx => hm (hs.splittable (Or.inl hx)).1)
    (fun hx => hm (hs.splittable (Or.inr hx)).1) (ranged_nil buf 0) (Nat.zero_le 1)

theorem parseKeys_keyed {buf : Bytes} {info : CmdDef} (hs : info.Sound) {narg : ℕ} {arg1 : Arg}
    {c : Cursor} {p : Parsed} (hnarg : 2 ≤ narg) (hb : Behind buf 0 arg1 c)
    (h : parseKeys buf info narg arg1 c = .ok p) : Keyed buf p ∧ p.narg = narg := by
  have hkeyword : ∀ {startfrom : ℤ}, info.firstkeymethod = .unknown →
      parseAfterKeyword buf info narg "STREAMS" startfrom ((toInt32 narg).toNat - 2) 1 c = .ok p →
      Keyed buf p ∧ p.narg = narg := fun hm h => by
    obtain ⟨a, rfl, hrange⟩ := parseAfterKeyword_ranged _ hb.on h
    have hindex : info.firstkeymethod ≠ .index := by rw [hm]; decide
    exact ⟨keyed_of_unsplit (fun hx => hindex (hs.splittable (Or.inl hx)).1)
      (fun hx => hindex (hs.splittable (Or.inr hx)).1) (hrange.mono (Nat.zero_le _))
      (Nat.le_refl 1), rfl⟩
  unfold parseKeys at h
  cases hm : info.firstkeymethod with
  | none =>
    rw [hm] at h
    cases h
    exact ⟨keyed_nil hs (by rw [hm]; decide), rfl⟩
  | unknown =>
    rw [hm] at h
    dsimp only at h
    split at h
    · exact hkeyword hm h
    · split at h
      · exact hkeyword hm h
      · cases h
  | index =>
    rw [hm] at h
    dsimp only at h
    cases hskip : skipArgs info (info.firstkeypos - 1).toNat arg1 c with
    | error e =>
      rw [hskip] at h
      cases h
    | ok r =>
      rw [hskip] at h
      exact parseKeysFrom_keyed hnarg (skipArgs_behind _ hb hskip) h
  | keynum =>
    rw [hm] at h
    dsimp only at h
    cases hskip : skipArgs info (info.firstkeypos - 1).toNat arg1 c with
    | error e =>
      rw [hskip] at h
      cases h
    | ok r =>
      rw [hskip] at h
      have hb' := skipArgs_behind _ hb hskip
      dsimp only at h
      split at h
      · cases h
        exact ⟨keyed_nil hs (by rw [hm]; decide), rfl⟩
      · cases hr : redisParseBulk r.2 with
        | error e =>
          rw [hr] at h
          cases h
        | ok r' =>
          rw [hr] at h
          exact parseKeysFrom_keyed hnarg
            ((redisParseBulk_ok hb'.on hr).2.mono (Nat.zero_le _)) h

theorem redisLookupCmd_sound {arg0 : Bytes} {arg1 : Option Bytes} {info : CmdDef}
    (h : redisLookupCmd arg0 arg1 = some info) : info.Sound :=
  redisCommands_sound info ((redisLookupCmd_eq_some_iff arg0 arg1 info).mp h).1

theorem parseNamed_keyed {buf : Bytes} {narg : ℕ} {arg0 : Arg} {arg1 : Option Arg} {c : Cursor}
    {p : Parsed} (hb : ∀ a, arg1 = some a → 2 ≤ narg ∧ Behind buf 0 a c)
    (h : parseNamed buf narg arg0 arg1 c = .ok p) : Keyed buf p ∧ p.narg = narg := by
  unfold parseNamed at h
  cases hinfo : redisLookupCmd (arg0.bytes buf) (arg1.map (Arg.bytes buf)) with
  | none =>
    rw [hinfo] at h
    cases h
  | some info =>
    rw [hinfo] at h
    have hs := redisLookupCmd_sound hinfo
    dsimp only at h
    split at h
    · split at h
      · rename_i hm
        cases h
        exact ⟨keyed_nil hs (by rw [hm]; decide), rfl⟩
      · cases h
      · obtain ⟨hnarg, hb⟩ := hb _ rfl
        exact parseKeys_keyed hs hnarg hb h
    · cases h

/-- What the keys of a parsed command are, whatever the buffer was. -/
structure KeysInside (buf : Bytes) (p : Parsed) : Prop where
  inside : ∀ k ∈ p.keys, 0 < k.start ∧ k.start ≤ k.stop ∧ k.stop + 2 ≤ buf.length
  followed : ∀ k ∈ p.keys, (buf.drop k.stop).take 2 = [13, 10]
  ordered : p.keys.Pairwise fun k k' => k.start < k'.start ∧ k.stop < k'.start
  narg : ∃ digits, NumberLine buf 0 42 digits ∧ p.narg = uint32 digits
  args : p.type = .mget ∨ p.type = .del ∨ p.type = .exists → p.keys.length = p.narg - 1
  pairs : p.type = .mset → p.keys.length = (p.narg - 1) / 2
  other : p.type ≠ .mget → p.type ≠ .del → p.type ≠ .exists → p.type ≠ .mset →
    p.keys.length ≤ 1

theorem Keyed.inside {buf : Bytes} {p : Parsed} (h : Keyed buf p) {digits : Bytes}
    (hd : Headed buf digits p.narg) : KeysInside buf p where
  inside k hk := by
    obtain ⟨hstart, hstop, rest, hrest⟩ := h.ranged.inside k hk
    have hlen := length_of_drop hrest (by simp)
    simp only [List.length_cons] at hlen
    exact ⟨hstart, hstop, by omega⟩
  followed k hk := by
    obtain ⟨-, -, rest, hrest⟩ := h.ranged.inside k hk
    rw [hrest]
    rfl
  ordered := h.ranged.ordered.imp_of_mem fun {k k'} hk _ hlt =>
    ⟨Nat.lt_of_le_of_lt (h.ranged.inside k hk).2.1 hlt, hlt⟩
  narg := ⟨digits, hd.line, hd.count⟩
  args ht := h.args (by rcases ht with ht | ht | ht <;> rw [ht] <;> decide)
  pairs ht := h.pairs (by rw [ht]; decide)
  other hmget hdel hexists hmset := h.other
    (by simp [redisArgx, hmget, hdel, hexists]) (by simp [redisArgkvx, hmset])

/-- The header and the keys of a parsed command. -/
theorem redisParseCmd_keyed {buf : Bytes} {p : Parsed} (h : redisParseCmd buf = .ok p) :
    Keyed buf p ∧ ∃ digits, Headed buf digits p.narg := by
  unfold redisParseCmd at h
  cases hhead : parseHeader buf with
  | none =>
    rw [hhead] at h
    cases h
  | some r =>
    obtain ⟨narg, c⟩ := r
    rw [hhead] at h
    obtain ⟨digits, hd, -, hon⟩ := parseHeader_some hhead
    suffices hk : Keyed buf p ∧ p.narg = narg by
      obtain ⟨hk, rfl⟩ := hk
      exact ⟨hk, digits, hd⟩
    dsimp only at h
    cases hr₀ : redisParseBulk c with
    | error e =>
      rw [hr₀] at h
      cases e with
      | none => cases h
      | some a => cases h
    | ok r₀ =>
      rw [hr₀] at h
      have hb₀ := (redisParseBulk_ok hon hr₀).2
      dsimp only at h
      by_cases hnarg : narg > 1
      · rw [if_pos hnarg] at h
        cases hr₁ : redisParseBulk r₀.2 with
        | error e =>
          rw [hr₁] at h
          cases h
        | ok r₁ =>
          rw [hr₁] at h
          refine parseNamed_keyed (fun a ha => ?_) h
          obtain rfl := Option.some.inj ha
          exact ⟨hnarg, (redisParseBulk_ok hb₀.on hr₁).2.mono (Nat.zero_le _)⟩
      · rw [if_neg hnarg] at h
        exact parseNamed_keyed (fun a ha => by cases ha) h

/-- **Parsed keys lie inside the command**, whatever buffer was parsed. -/
theorem redisParseCmd_inside {buf : Bytes} {p : Parsed} (h : redisParseCmd buf = .ok p) :
    KeysInside buf p := by
  obtain ⟨hk, digits, hd⟩ := redisParseCmd_keyed h
  exact hk.inside hd

/-- `DEL` with a key whose length has a leading zero, and with something behind it. -/
theorem redisParseCmd_inside_del :
    KeysInside (ascii "*2\r\n$3\r\ndel\r\n$02\r\nab\r\nrest")
      ⟨.del, 2, [{ start := 18, stop := 20 }]⟩ :=
  redisParseCmd_inside (by decide +kernel)
