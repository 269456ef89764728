/-
# What the error text quotes

When `redis_parse_cmd` fails before the command is known, its error text quotes the first
two arguments as far as they were found.  `redis_parse_bulk` publishes where an argument
starts and how long it is announced to be before it knows that the bytes are there, and the
text is made by `%.*s`: it reads up to the announced length or to a NUL, and a length that
is negative as an `int` is no bound at all.

`quotesOwn_iff` says for which buffers only their own bytes are read.
-/
import HiredisCluster.Ranges

/-! ## Reading the arguments -/

/-- The first two arguments at the error exit, as far as they have been published. -/
def firstArgs (buf : Bytes) : Option Arg × Option Arg :=
  match parseHeader buf with
  | none => (none, none)
  | some (narg, c) =>
    match redisParseBulk c with
    | .error arg0 => (arg0, none)
    | .ok (arg0, c) =>
      if narg > 1 then
        match redisParseBulk c with
        | .error arg1 => (some arg0, arg1)
        | .ok (arg1, _) => (some arg0, some arg1)
      else (some arg0, none)

/-- The arguments that the error text quotes. -/
def ParseError.quoted (buf : Bytes) : ParseError → List Arg
  | .unknown _ _ => (firstArgs buf).1.toList ++ (firstArgs buf).2.toList
  | _ => []

/-- How many of `n` bytes `%.*s` takes: the precision is an `int`, and a negative one counts
as none. -/
def Arg.limit (a : Arg) (n : ℕ) : ℕ := if toInt32 a.len < 0 then n else min n a.len

/-- The characters that `%.*s` prints from a memory that begins with the command. -/
def Arg.printed (mem : Bytes) (a : Arg) : Bytes :=
  (cstr (mem.drop a.start)).take (a.limit (cstr (mem.drop a.start)).length)

/-- How many bytes it reads for that; the NUL that ends them is one of them. -/
def Arg.bytesRead (mem : Bytes) (a : Arg) : ℕ :=
  a.limit ((cstr (mem.drop a.start)).length + 1)

/-- `errstr`, made from the memory. -/
def ParseError.textIn (mem buf : Bytes) : ParseError → Bytes
  | .unknown _ _ =>
    match firstArgs buf with
    | (some arg0, some arg1) =>
      (ascii "Unknown command " ++ arg0.printed mem ++ 32 :: arg1.printed mem).take 99
    | (some arg0, none) => (ascii "Unknown command " ++ arg0.printed mem).take 99
    | (none, _) => ParseError.malformed.text
  | e => e.text

/-- Whatever follows the buffer in memory, only bytes of the buffer are read to quote, and
the text does not depend on it. -/
structure QuotesOwn (buf : Bytes) (e : ParseError) : Prop where
  inside : ∀ beyond, ∀ a ∈ e.quoted buf, a.start + a.bytesRead (buf ++ beyond) ≤ buf.length
  same : ∀ beyond, e.textIn (buf ++ beyond) buf = e.textIn buf buf

/-! ## One argument -/

/-- The announced bytes are there and their number is not negative, or a NUL comes first. -/
def Bounded (buf : Bytes) (a : Arg) : Prop :=
  a.len < 2 ^ 31 ∧ a.start + a.len ≤ buf.length ∨ 0 ∈ buf.drop a.start

theorem limit_of_lt {a : Arg} (h : a.len < 2 ^ 31) (n : ℕ) : a.limit n = min n a.len := by
  unfold Arg.limit
  rw [toInt32_of_lt h, if_neg (by omega)]

theorem limit_of_ge {a : Arg} (hlen : a.len < 2 ^ 32) (h : 2 ^ 31 ≤ a.len) (n : ℕ) :
    a.limit n = n := by
  have hmod : (a.len : ℤ) % (2 ^ 32 : ℕ) = a.len := Int.emod_eq_of_lt (by omega) (by omega)
  unfold Arg.limit toInt32 wrap32
  rw [Int.bmod_neg _ _ (by rw [hmod]; omega), hmod, if_pos (by omega)]

theorem limit_le (a : Arg) (n : ℕ) : a.limit n ≤ n := by
  unfold Arg.limit
  split
  · exact le_rfl
  · exact Nat.min_le_left n a.len

/-- What follows a NUL is not seen. -/
theorem cstr_append {s : Bytes} (h : 0 ∈ s) (t : Bytes) : cstr (s ++ t) = cstr s := by
  induction s with
  | nil => cases h
  | cons b s ih =>
    by_cases hb : b = 0
    · subst hb
      rfl
    · have hmem : 0 ∈ s := (List.mem_cons.mp h).resolve_left fun h0 => hb h0.symm
      rw [List.cons_append, cstr_cons hb, cstr_cons hb, ih hmem]

theorem length_cstr_lt {s : Bytes} (h : 0 ∈ s) : (cstr s).length < s.length := by
  induction s with
  | nil => cases h
  | cons b s ih =>
    by_cases hb : b = 0
    · subst hb
      exact Nat.succ_pos _
    · have hmem : 0 ∈ s := (List.mem_cons.mp h).resolve_left fun h0 => hb h0.symm
      rw [cstr_cons hb, List.length_cons, List.length_cons]
      exact Nat.succ_lt_succ (ih hmem)

section Argument

variable {buf : Bytes} {a : Arg} (hstart : a.start ≤ buf.length)
include hstart

theorem drop_append_start (beyond : Bytes) :
    (buf ++ beyond).drop a.start = buf.drop a.start ++ beyond :=
  List.drop_append_of_le_length hstart

/-- A bounded argument is read from the buffer. -/
theorem Bounded.inside (h : Bounded buf a) (beyond : Bytes) :
    a.start + a.bytesRead (buf ++ beyond) ≤ buf.length := by
  unfold Arg.bytesRead
  rw [drop_append_start hstart]
  rcases h with ⟨hlt, hstop⟩ | hnul
  · rw [limit_of_lt hlt]
    omega
  · rw [cstr_append hnul]
    have hc := length_cstr_lt hnul
    have hle := limit_le a ((cstr (buf.drop a.start)).length + 1)
    rw [List.length_drop] at hc
    omega

/-- So what is printed does not depend on what follows the buffer. -/
theorem Bounded.printed (h : Bounded buf a) (beyond : Bytes) :
    a.printed (buf ++ beyond) = a.printed buf := by
  unfold Arg.printed
  rw [drop_append_start hstart]
  rcases h with ⟨hlt, hstop⟩ | hnul
  · have hlen : a.len ≤ (buf.drop a.start).length := by
      rw [List.length_drop]
      omega
    have htake : ∀ s : Bytes, (cstr s).take (a.limit (cstr s).length) = cstr (s.take a.len) :=
      fun s => by
        rw [limit_of_lt hlt, Nat.min_comm, ← List.take_eq_take_min]
        exact List.take_takeWhile
    rw [htake, htake, List.take_append_of_le_length hlen]
  · rw [cstr_append hnul]

/-- An argument that is not bounded is read beyond the buffer. -/
theorem bounded_of_inside (hlen : a.len < 2 ^ 32)
    (h : a.start + a.bytesRead (buf ++ []) ≤ buf.length) : Bounded buf a := by
  by_contra hn
  obtain ⟨hlt, hnul⟩ := not_or.mp hn
  unfold Arg.bytesRead at h
  rw [List.append_nil, cstr_of_noNul hnul, List.length_drop] at h
  by_cases hneg : a.len < 2 ^ 31
  · rw [limit_of_lt hneg] at h
    have hstop : ¬ a.start + a.len ≤ buf.length := fun hle => hlt ⟨hneg, hle⟩
    omega
  · rw [limit_of_ge hlen (by omega)] at h
    omega

end Argument

/-! ## The error exit -/

/-- The first two arguments, or the only one, are there. -/
inductive ArgsAt (buf : Bytes) : Arg → Option Arg → Prop where
  | one {digits d₀ : Bytes} {a₀ : Arg} (hd : Headed buf digits 1)
      (h₀ : BulkAnnounced buf (digits.length + 3) d₀ a₀) (hend₀ : Complete buf a₀) :
      ArgsAt buf a₀ none
  | two {digits d₀ d₁ : Bytes} {narg : ℕ} {a₀ a₁ : Arg} (hd : Headed buf digits narg)
      (hn : 1 < narg) (h₀ : BulkAnnounced buf (digits.length + 3) d₀ a₀) (hend₀ : Complete buf a₀)
      (h₁ : BulkAnnounced buf (a₀.start + a₀.len + 2) d₁ a₁) (hend₁ : Complete buf a₁) :
      ArgsAt buf a₀ (some a₁)

/-- The command of the buffer is in the table. -/
def KnownCommand (buf : Bytes) : Prop :=
  ∃ a₀ a₁, ArgsAt buf a₀ a₁ ∧ redisLookupCmd (a₀.bytes buf) (a₁.map (Arg.bytes buf)) ≠ none

/-- One of the first two arguments is announced. -/
inductive FirstAnnounced (buf : Bytes) : Arg → Prop where
  | arg0 {digits d₀ : Bytes} {narg : ℕ} {a₀ : Arg} (hd : Headed buf digits narg)
      (h₀ : BulkAnnounced buf (digits.length + 3) d₀ a₀) : FirstAnnounced buf a₀
  | arg1 {digits d₀ d₁ : Bytes} {narg : ℕ} {a₀ a₁ : Arg} (hd : Headed buf digits narg)
      (hn : 1 < narg) (h₀ : BulkAnnounced buf (digits.length + 3) d₀ a₀) (hend₀ : Complete buf a₀)
      (h₁ : BulkAnnounced buf (a₀.start + a₀.len + 2) d₁ a₁) : FirstAnnounced buf a₁

theorem FirstAnnounced.bounds {buf : Bytes} {a : Arg} (h : FirstAnnounced buf a) :
    a.start ≤ buf.length ∧ a.len < 2 ^ 32 := by
  cases h with
  | arg0 hd h₀ => exact ⟨h₀.start_le.2, h₀.len ▸ uint32_lt _⟩
  | arg1 hd hn h₀ hend₀ h₁ => exact ⟨h₁.start_le.2, h₁.len ▸ uint32_lt _⟩

/-- The ways in which the first arguments are read, with what becomes of the command. -/
inductive CommandView (buf : Bytes) :
    Except ParseError Parsed → Option Arg × Option Arg → Prop where
  | noHeader (h : ∀ digits narg, ¬ Headed buf digits narg) :
      CommandView buf (.error .malformed) (none, none)
  | noArg {digits : Bytes} {narg : ℕ} (hd : Headed buf digits narg)
      (h : ∀ d a, ¬ BulkAnnounced buf (digits.length + 3) d a) :
      CommandView buf (.error .malformed) (none, none)
  | cutArg0 {digits d₀ : Bytes} {narg : ℕ} {a₀ : Arg} (hd : Headed buf digits narg)
      (h₀ : BulkAnnounced buf (digits.length + 3) d₀ a₀) (hcut : ¬ Complete buf a₀) :
      CommandView buf (.error (.unknown (a₀.bytes buf) none)) (some a₀, none)
  | noArg1 {digits d₀ : Bytes} {narg : ℕ} {a₀ : Arg} (hd : Headed buf digits narg)
      (hn : 1 < narg) (h₀ : BulkAnnounced buf (digits.length + 3) d₀ a₀) (hend₀ : Complete buf a₀)
      (h : ∀ d a, ¬ BulkAnnounced buf (a₀.start + a₀.len + 2) d a) :
      CommandView buf (.error (.unknown (a₀.bytes buf) none)) (some a₀, none)
  | cutArg1 {digits d₀ d₁ : Bytes} {narg : ℕ} {a₀ a₁ : Arg} (hd : Headed buf digits narg)
      (hn : 1 < narg) (h₀ : BulkAnnounced buf (digits.length + 3) d₀ a₀) (hend₀ : Complete buf a₀)
      (h₁ : BulkAnnounced buf (a₀.start + a₀.len + 2) d₁ a₁) (hcut : ¬ Complete buf a₁) :
      CommandView buf (.error (.unknown (a₀.bytes buf) (some (a₁.bytes buf))))
        (some a₀, some a₁)
  | named {narg : ℕ} {a₀ : Arg} {a₁ : Option Arg} {c : Cursor} (h : ArgsAt buf a₀ a₁) :
      CommandView buf (parseNamed buf narg a₀ a₁ c) (some a₀, a₁)

theorem redisParseCmd_view (buf : Bytes) :
    CommandView buf (redisParseCmd buf) (firstArgs buf) := by
  unfold redisParseCmd firstArgs
  cases hhead : parseHeader buf with
  | none => exact .noHeader (parseHeader_none hhead)
  | some r =>
    obtain ⟨narg, c⟩ := r
    obtain ⟨digits, hd, hpos, hon⟩ := parseHeader_some hhead
    have hspec := redisParseBulk_spec hon
    rw [hpos] at hspec
    dsimp only
    cases hr₀ : redisParseBulk c with
    | error e =>
      rw [hr₀] at hspec
      cases hspec with
      | missing hno => exact .noArg hd hno
      | cut h₀ hcut => exact .cutArg0 hd h₀ hcut
    | ok r₀ =>
      obtain ⟨a₀, c₀⟩ := r₀
      rw [hr₀] at hspec
      cases hspec with
      | read h₀ hend₀ hpos₀ hon₀ =>
        dsimp only
        by_cases hn : narg > 1
        · rw [if_pos hn, if_pos hn]
          have hspec₁ := redisParseBulk_spec hon₀
          rw [hpos₀] at hspec₁
          cases hr₁ : redisParseBulk c₀ with
          | error e =>
            rw [hr₁] at hspec₁
            cases hspec₁ with
            | missing hno => exact .noArg1 hd hn h₀ hend₀ hno
            | cut h₁ hcut => exact .cutArg1 hd hn h₀ hend₀ h₁ hcut
          | ok r₁ =>
            rw [hr₁] at hspec₁
            cases hspec₁ with
            | read h₁ hend₁ _ _ => exact .named (.two hd hn h₀ hend₀ h₁ hend₁)
        · rw [if_neg hn, if_neg hn]
          obtain rfl : narg = 1 := by
            have hpos := hd.pos
            omega
          exact .named (.one hd h₀ hend₀)

/-- The published arguments are those that are announced. -/
theorem mem_firstArgs_iff {buf : Bytes} {a : Arg} :
    a ∈ (firstArgs buf).1.toList ++ (firstArgs buf).2.toList ↔ FirstAnnounced buf a := by
  constructor
  · intro hmem
    have hview := redisParseCmd_view buf
    generalize redisParseCmd buf = r at hview
    generalize firstArgs buf = args at hview hmem
    cases hview with
    | noHeader _ => cases hmem
    | noArg _ _ => cases hmem
    | cutArg0 hd h₀ _ =>
      obtain rfl : a = _ := by simpa using hmem
      exact .arg0 hd h₀
    | noArg1 hd _ h₀ _ _ =>
      obtain rfl : a = _ := by simpa using hmem
      exact .arg0 hd h₀
    | cutArg1 hd hn h₀ hend₀ h₁ _ =>
      rcases List.mem_pair.mp hmem with rfl | rfl
      · exact .arg0 hd h₀
      · exact .arg1 hd hn h₀ hend₀ h₁
    | named hargs =>
      cases hargs with
      | one hd h₀ _ =>
        obtain rfl : a = _ := by simpa using hmem
        exact .arg0 hd h₀
      | two hd hn h₀ hend₀ h₁ _ =>
        rcases List.mem_pair.mp hmem with rfl | rfl
        · exact .arg0 hd h₀
        · exact .arg1 hd hn h₀ hend₀ h₁
  · intro hann
    unfold firstArgs
    cases hann with
    | arg0 hd h₀ =>
      obtain ⟨c, hhead, hpos, hon⟩ := parseHeader_of_headed hd
      rw [← hpos] at h₀
      rw [hhead]
      dsimp only
      rcases redisParseBulk_of_announced hon h₀ with ⟨c', hr⟩ | hr
      · rw [hr]
        dsimp only
        split
        · split
          · exact List.mem_cons_self
          · exact List.mem_cons_self
        · exact List.mem_cons_self
      · rw [hr]
        exact List.mem_cons_self
    | arg1 hd hn h₀ hend₀ h₁ =>
      obtain ⟨c, hhead, hpos, hon⟩ := parseHeader_of_headed hd
      rw [← hpos] at h₀
      obtain ⟨c', hr⟩ := redisParseBulk_of_complete hon h₀ hend₀
      have hb := (redisParseBulk_ok hon hr).2
      rw [← hb.pos] at h₁
      rw [hhead]
      dsimp only
      rw [hr]
      dsimp only
      rw [if_pos hn]
      rcases redisParseBulk_of_announced hb.on h₁ with ⟨c'', hr'⟩ | hr'
      · rw [hr']
        exact List.mem_append_right _ List.mem_cons_self
      · rw [hr']
        exact List.mem_append_right _ List.mem_cons_self

/-- What is announced first is there, and what is announced next as well. -/
theorem ArgsAt.complete {buf digits d : Bytes} {narg : ℕ} {a b₀ : Arg} {b₁ : Option Arg}
    (h : ArgsAt buf b₀ b₁) (hd : Headed buf digits narg)
    (hann : BulkAnnounced buf (digits.length + 3) d a) : Complete buf a ∧
      (1 < narg → ∃ d₁ a₁, BulkAnnounced buf (a.start + a.len + 2) d₁ a₁ ∧ Complete buf a₁) := by
  cases h with
  | one hd' h₀ hend₀ =>
    obtain ⟨rfl, rfl⟩ := hd.unique hd'
    obtain rfl := (hann.unique h₀).2
    exact ⟨hend₀, fun hn => absurd hn (Nat.lt_irrefl 1)⟩
  | two hd' _ h₀ hend₀ h₁ hend₁ =>
    obtain ⟨rfl, -⟩ := hd.unique hd'
    obtain rfl := (hann.unique h₀).2
    exact ⟨hend₀, fun _ => ⟨_, _, h₁, hend₁⟩⟩

theorem ArgsAt.unique {buf : Bytes} {a₀ b₀ : Arg} {a₁ b₁ : Option Arg} (h : ArgsAt buf a₀ a₁)
    (h' : ArgsAt buf b₀ b₁) : a₀ = b₀ ∧ a₁ = b₁ := by
  cases h with
  | one hd h₀ hend₀ =>
    cases h' with
    | one hd' h₀' _ =>
      obtain ⟨rfl, -⟩ := hd.unique hd'
      exact ⟨(h₀.unique h₀').2, rfl⟩
    | two hd' hn' _ _ _ _ =>
      obtain ⟨-, rfl⟩ := hd.unique hd'
      exact absurd hn' (Nat.lt_irrefl 1)
  | two hd hn h₀ hend₀ h₁ hend₁ =>
    cases h' with
    | one hd' _ _ =>
      obtain ⟨-, rfl⟩ := hd.unique hd'
      exact absurd hn (Nat.lt_irrefl 1)
    | two hd' _ h₀' _ h₁' _ =>
      obtain ⟨rfl, -⟩ := hd.unique hd'
      obtain rfl := (h₀.unique h₀').2
      exact ⟨rfl, by rw [(h₁.unique h₁').2]⟩

/-! ### Errors after the lookup -/

theorem skipArgs_error {info : CmdDef} (n : ℕ) : ∀ {a : Arg} {c : Cursor} {e : ParseError},
    skipArgs info n a c = .error e → e = .keys info := by
  induction n with
  | zero =>
    intro a c e h
    cases h
  | succ n ih =>
    intro a c e h
    unfold skipArgs at h
    cases hr : redisParseBulk c with
    | error _ =>
      rw [hr] at h
      cases h
      rfl
    | ok r =>
      rw [hr] at h
      exact ih h

theorem parseMoreKeys_error {info : CmdDef} (n : ℕ) : ∀ {i : ℕ} {c : Cursor} {e : ParseError},
    parseMoreKeys info n i c = .error e → e = .keys info := by
  induction n with
  | zero =>
    intro i c e h
    cases h
  | succ n ih =>
    intro i c e h
    unfold parseMoreKeys at h
    cases hr : redisParseBulk c with
    | error _ =>
      rw [hr] at h
      cases h
      rfl
    | ok r =>
      rw [hr] at h
      dsimp only at h
      cases hmore : parseMoreKeys info n (i + 1) r.2 with
      | error e' =>
        rw [hmore] at h
        cases h
        exact ih hmore
      | ok keys =>
        rw [hmore] at h
        dsimp only at h
        split at h
        · cases h
        · cases h

theorem parseAfterKeyword_error {buf : Bytes} {info : CmdDef} {narg : ℕ} {keyword : String}
    {startfrom : ℤ} (n : ℕ) : ∀ {argidx : ℤ} {c : Cursor} {e : ParseError},
      parseAfterKeyword buf info narg keyword startfrom n argidx c = .error e →
      e = .keys info := by
  induction n with
  | zero =>
    intro argidx c e h
    cases h
    rfl
  | succ n ih =>
    intro argidx c e h
    unfold parseAfterKeyword at h
    split at h
    · cases h
      rfl
    · split at h
      · exact ih h
      · split at h
        · split at h
          · cases h
            rfl
          · cases h
        · exact ih h

theorem parseKeysFrom_error {info : CmdDef} {narg : ℕ} {arg : Arg} {c : Cursor} {e : ParseError}
    (h : parseKeysFrom info narg arg c = .error e) : e = .keys info := by
  unfold parseKeysFrom at h
  split at h
  · cases h
    rfl
  · split at h
    · split at h
      · cases h
        rfl
      · split at h
        · rename_i hmore
          cases h
          exact parseMoreKeys_error _ hmore
        · cases h
    · cases h

/-- Once the command is known, its name is in every error. -/
theorem parseKeys_error {buf : Bytes} {info : CmdDef} {narg : ℕ} {arg1 : Arg} {c : Cursor}
    {e : ParseError} (h : parseKeys buf info narg arg1 c = .error e) : e = .keys info := by
  unfold parseKeys at h
  split at h
  · cases h
  · split at h
    · exact parseAfterKeyword_error _ h
    · split at h
      · exact parseAfterKeyword_error _ h
      · cases h
        rfl
  · split at h
    · rename_i hskip
      cases h
      exact skipArgs_error _ hskip
    · exact parseKeysFrom_error h
  · split at h
    · rename_i hskip
      cases h
      exact skipArgs_error _ hskip
    · split at h
      · cases h
      · split at h
        · cases h
          rfl
        · exact parseKeysFrom_error h

/-- The errors of a command whose name has been read. -/
theorem parseNamed_error {buf : Bytes} {narg : ℕ} {a₀ : Arg} {a₁ : Option Arg} {c : Cursor}
    {e : ParseError} (h : parseNamed buf narg a₀ a₁ c = .error e) :
    (∃ info, redisLookupCmd (a₀.bytes buf) (a₁.map (Arg.bytes buf)) = some info ∧
      e = .keys info) ∨
    redisLookupCmd (a₀.bytes buf) (a₁.map (Arg.bytes buf)) = none ∧
      e = .unknown (a₀.bytes buf) (a₁.map (Arg.bytes buf)) := by
  unfold parseNamed at h
  cases hinfo : redisLookupCmd (a₀.bytes buf) (a₁.map (Arg.bytes buf)) with
  | none =>
    rw [hinfo] at h
    cases h
    exact Or.inr ⟨rfl, rfl⟩
  | some info =>
    rw [hinfo] at h
    refine Or.inl ⟨info, rfl, ?_⟩
    dsimp only at h
    split at h
    · split at h
      · cases h
      · cases h
        rfl
      · exact parseKeys_error h
    · cases h
      rfl

/-- What the error is about, by what is in the buffer. -/
inductive ErrorExit (buf : Bytes) : ParseError → Prop where
  | malformed (h : firstArgs buf = (none, none)) : ErrorExit buf .malformed
  | unknown {a₀ : Arg} {a₁ : Option Arg} (h : firstArgs buf = (some a₀, a₁))
      (hno : ¬ KnownCommand buf) :
      ErrorExit buf (.unknown (a₀.bytes buf) (a₁.map (Arg.bytes buf)))
  | keys {info : CmdDef} (h : KnownCommand buf) : ErrorExit buf (.keys info)

theorem redisParseCmd_error {buf : Bytes} {e : ParseError} (h : redisParseCmd buf = .error e) :
    ErrorExit buf e := by
  have hview := redisParseCmd_view buf
  rw [h] at hview
  generalize hr : (Except.error e : Except ParseError Parsed) = r at hview
  generalize hargs : firstArgs buf = args at hview
  cases hview with
  | noHeader _ =>
    cases hr
    exact .malformed hargs
  | noArg _ _ =>
    cases hr
    exact .malformed hargs
  | cutArg0 hd h₀ hcut =>
    cases hr
    exact @ErrorExit.unknown buf _ none hargs fun ⟨_, _, hat, _⟩ => hcut (hat.complete hd h₀).1
  | noArg1 hd hn h₀ _ hno =>
    cases hr
    refine @ErrorExit.unknown buf _ none hargs fun ⟨_, _, hat, _⟩ => ?_
    obtain ⟨d₁, a₁, hann, -⟩ := (hat.complete hd h₀).2 hn
    exact hno d₁ a₁ hann
  | cutArg1 hd hn h₀ _ h₁ hcut =>
    cases hr
    refine @ErrorExit.unknown buf _ (some _) hargs fun ⟨_, _, hat, _⟩ => hcut ?_
    obtain ⟨d₁, b₁, hann, hend⟩ := (hat.complete hd h₀).2 hn
    exact (h₁.unique hann).2 ▸ hend
  | named hat =>
    rcases parseNamed_error hr.symm with ⟨info, hinfo, rfl⟩ | ⟨hinfo, rfl⟩
    · exact .keys ⟨_, _, hat, by rw [hinfo]; exact Option.some_ne_none info⟩
    · refine .unknown hargs fun ⟨b₀, b₁, hat', hne⟩ => ?_
      obtain ⟨rfl, rfl⟩ := hat.unique hat'
      exact hne hinfo

/-! ## What is quoted -/

/-- An error that quotes nothing. -/
theorem quotesOwn_of_quoted_nil {buf : Bytes} {e : ParseError} (hq : e.quoted buf = [])
    (hsame : ∀ mem, e.textIn mem buf = e.textIn buf buf) : QuotesOwn buf e :=
  ⟨fun _ _ ha => absurd (hq ▸ ha) List.not_mem_nil, fun _ => hsame _⟩

/-- **The error text quotes only bytes of the command** exactly if the command is known, or
if the first two arguments, as far as they are announced, are bounded. -/
theorem quotesOwn_iff {buf : Bytes} {e : ParseError} (h : redisParseCmd buf = .error e) :
    QuotesOwn buf e ↔ KnownCommand buf ∨ ∀ a, FirstAnnounced buf a → Bounded buf a := by
  cases redisParseCmd_error h with
  | malformed hargs =>
    refine iff_of_true (quotesOwn_of_quoted_nil rfl fun mem => rfl) (Or.inr fun a ha => ?_)
    rw [← mem_firstArgs_iff, hargs] at ha
    cases ha
  | keys hknown =>
    exact iff_of_true (quotesOwn_of_quoted_nil rfl fun mem => rfl) (Or.inl hknown)
  | @unknown a₀ a₁ hargs hno =>
    rw [or_iff_right hno]
    constructor
    · intro hown a ha
      obtain ⟨hstart, hlen⟩ := ha.bounds
      exact bounded_of_inside hstart hlen (hown.inside [] a (mem_firstArgs_iff.mpr ha))
    · intro hb
      have hquoted : ∀ a ∈ (firstArgs buf).1.toList ++ (firstArgs buf).2.toList,
          a.start ≤ buf.length ∧ Bounded buf a := fun a ha =>
        ⟨(mem_firstArgs_iff.mp ha).bounds.1, hb a (mem_firstArgs_iff.mp ha)⟩
      refine ⟨fun beyond a ha => (hquoted a ha).2.inside (hquoted a ha).1 beyond, fun beyond => ?_⟩
      have hprinted : ∀ a ∈ (firstArgs buf).1.toList ++ (firstArgs buf).2.toList,
          a.printed (buf ++ beyond) = a.printed buf := fun a ha =>
        (hquoted a ha).2.printed (hquoted a ha).1 beyond
      unfold ParseError.textIn
      rw [hargs] at hprinted ⊢
      cases a₁ with
      | none =>
        dsimp only
        rw [hprinted a₀ (by simp)]
      | some a₁ =>
        dsimp only
        rw [hprinted a₀ (by simp), hprinted a₁ (by simp)]

/-- An unknown command that is complete. -/
def unknownFoo : Bytes := ascii "*1\r\n$3\r\nFOO\r\n"

theorem quotesOwn_unknownFoo : QuotesOwn unknownFoo (.unknown (ascii "FOO") none) :=
  (quotesOwn_iff (by decide +kernel)).mpr (Or.inr fun a ha => by
    have hargs : (firstArgs unknownFoo).1.toList ++ (firstArgs unknownFoo).2.toList = [⟨8, 3⟩] := by
      decide +kernel
    rw [← mem_firstArgs_iff, hargs] at ha
    obtain rfl := List.mem_singleton.mp ha
    exact Or.inl (by decide +kernel))

/-- The name is announced with five bytes, of which two are there. -/
def cutName : Bytes := ascii "*1\r\n$5\r\nab"

theorem cutName_not_quotesOwn : redisParseCmd cutName = .error (.unknown (ascii "ab") none) ∧
    ¬ QuotesOwn cutName (.unknown (ascii "ab") none) := by
  refine ⟨by decide +kernel, fun h => ?_⟩
  have hargs : (⟨8, 5⟩ : Arg) ∈ ParseError.quoted cutName (.unknown (ascii "ab") none) := by
    decide +kernel
  exact absurd (h.inside [] _ hargs) (by decide +kernel)

/-! ## Behind a NUL -/

theorem cstr_append_nul (s t : Bytes) : cstr (s ++ 0 :: t) = cstr s := by
  induction s with
  | nil => rfl
  | cons b s ih =>
    by_cases hb : b = 0
    · subst hb
      rfl
    · rw [List.cons_append, cstr_cons hb, cstr_cons hb, ih]

/-- If a NUL follows the buffer, an argument is printed as far as it is there. -/
theorem printed_nul {buf : Bytes} (hbuf : buf.length < 2 ^ 31) {a : Arg}
    (ha : FirstAnnounced buf a) (beyond : Bytes) :
    a.printed (buf ++ 0 :: beyond) = cstr (a.bytes buf) := by
  obtain ⟨hstart, hlen⟩ := ha.bounds
  unfold Arg.printed Arg.bytes
  rw [drop_append_start hstart, cstr_append_nul]
  have htake : cstr ((buf.drop a.start).take a.len) = (cstr (buf.drop a.start)).take a.len :=
    List.take_takeWhile.symm
  rw [htake]
  by_cases hneg : a.len < 2 ^ 31
  · rw [limit_of_lt hneg, Nat.min_comm, ← List.take_eq_take_min]
  · have hc : (cstr (buf.drop a.start)).length ≤ (buf.drop a.start).length :=
      (List.takeWhile_prefix _).length_le
    rw [List.length_drop] at hc
    rw [limit_of_ge hlen (by omega), List.take_length, List.take_of_length_le (by omega)]

/-- **The error text of the model** is what is made from a buffer that a NUL follows. -/
theorem textIn_eq_text {buf : Bytes} (hbuf : buf.length < 2 ^ 31) {e : ParseError}
    (h : redisParseCmd buf = .error e) (beyond : Bytes) :
    e.textIn (buf ++ 0 :: beyond) buf = e.text := by
  cases redisParseCmd_error h with
  | malformed _ => rfl
  | keys _ => rfl
  | @unknown a₀ a₁ hargs _ =>
    have hprinted : ∀ a ∈ (firstArgs buf).1.toList ++ (firstArgs buf).2.toList,
        a.printed (buf ++ 0 :: beyond) = cstr (a.bytes buf) := fun a ha =>
      printed_nul hbuf (mem_firstArgs_iff.mp ha) beyond
    unfold ParseError.textIn ParseError.text
    rw [hargs] at hprinted ⊢
    cases a₁ with
    | none =>
      dsimp only [Option.map_none]
      rw [hprinted a₀ (by simp)]
    | some a₁ =>
      dsimp only [Option.map_some]
      rw [hprinted a₀ (by simp), hprinted a₁ (by simp)]
