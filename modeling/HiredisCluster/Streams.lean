/-
# The first key of XREAD and XREADGROUP

The key of these commands follows the keyword STREAMS.  The parser does not look at the
first place where the keyword may stand, and it takes every argument for the keyword that
is a beginning of it, the empty one too.  Elsewhere the first stream is found.
-/
import HiredisCluster.Encoding
import Mathlib.Order.Nat
import Mathlib.Tactic.IntervalCases

/-! ## Places in the encoding -/

/-- Where the argument `i` of a command begins in its encoding, or the encoding ends. -/
def argOffset (argv : List Bytes) (i : ℕ) : ℕ :=
  (42 :: decimal argv.length ++ [13, 10]).length + (encodeArgs (argv.take i)).length

/-- The cursor before the argument `i`. -/
def cursorAt (argv : List Bytes) (i : ℕ) : Cursor := ⟨argOffset argv i, encodeArgs (argv.drop i)⟩

/-- The payload of the argument `i`. -/
def argAt (argv : List Bytes) (i : ℕ) : Arg :=
  let a := argv.getD i []
  ⟨argOffset argv i + 1 + (decimal a.length).length + 2, a.length⟩

theorem argOffset_succ {argv : List Bytes} {i : ℕ} {a : Bytes} (h : argv[i]? = some a) :
    argOffset argv (i + 1) = argOffset argv i + (encodeBulk a).length := by
  have htake : encodeArgs (argv.take (i + 1)) = encodeArgs (argv.take i) ++ encodeBulk a := by
    rw [List.take_add_one, h, encodeArgs, List.flatMap_append]
    simp [encodeArgs]
  rw [argOffset, argOffset, htake]
  simp only [List.length_append]
  omega

theorem argOffset_le (argv : List Bytes) {i j : ℕ} (h : i ≤ j) :
    argOffset argv i ≤ argOffset argv j := by
  have htake : argv.take j = argv.take i ++ (argv.drop i).take (j - i) := by
    rw [← List.take_add, Nat.add_sub_cancel' h]
  rw [argOffset, argOffset, htake, encodeArgs, encodeArgs, List.flatMap_append]
  simp only [List.length_append]
  omega

/-- Different arguments are different places. -/
theorem argAt_injective {argv : List Bytes} {i j : ℕ} (hi : i < argv.length) (hj : j < argv.length)
    (h : (argAt argv i).start = (argAt argv j).start) : i = j := by
  have hlt : ∀ {i j : ℕ}, i < argv.length → i < j → (argAt argv i).start < (argAt argv j).start := by
    intro i j hi hij
    have hle := argOffset_le argv (show i + 1 ≤ j from hij)
    rw [argOffset_succ (List.getElem?_eq_getElem hi)] at hle
    have hd : argv.getD i [] = argv[i] := by simp [List.getD, hi]
    simp only [argAt, hd, encodeBulk, List.length_append, List.length_cons] at hle ⊢
    omega
  rcases Nat.lt_trichotomy i j with hij | hij | hij
  · exact absurd h (Nat.ne_of_lt (hlt hi hij))
  · exact hij
  · exact absurd h.symm (Nat.ne_of_lt (hlt hj hij))

theorem drop_argOffset (argv : List Bytes) (i : ℕ) :
    (encodeCommand argv).drop (argOffset argv i) = encodeArgs (argv.drop i) := by
  have hsplit : encodeCommand argv = (42 :: decimal argv.length ++ [13, 10]) ++
      (encodeArgs (argv.take i) ++ encodeArgs (argv.drop i)) := by
    rw [encodeArgs, encodeArgs, ← List.flatMap_append, List.take_append_drop]
    rfl
  rw [argOffset, hsplit, ← List.drop_drop, List.drop_left, List.drop_left]

section Parsing

variable {argv : List Bytes} (hlen : (encodeCommand argv).length < 2 ^ 31)

include hlen

/-- Each argument is read where it stands. -/
theorem redisParseBulk_at {i : ℕ} (hi : i < argv.length) :
    redisParseBulk (cursorAt argv i) = .ok (argAt argv i, cursorAt argv (i + 1)) ∧
      Holds (encodeCommand argv) (argAt argv i) argv[i] := by
  have hd : argv.getD i [] = argv[i] := by simp [List.getD, hi]
  have hdrop : argv.drop i = argv[i] :: argv.drop (i + 1) := List.drop_eq_getElem_cons hi
  have hshort : argv[i].length < 2 ^ 32 :=
    Nat.lt_trans ((encodeCommand_bounds hlen).2 _ (List.getElem_mem hi)) (by decide)
  have hbulk : redisParseBulk (cursorAt argv i) = .ok (argAt argv i, cursorAt argv (i + 1)) := by
    have hargs : encodeArgs (argv.drop i) = encodeBulk argv[i] ++ encodeArgs (argv.drop (i + 1)) := by
      rw [hdrop]
      rfl
    rw [cursorAt, hargs, redisParseBulk_encode hshort, cursorAt, argAt, hd,
      argOffset_succ (List.getElem?_eq_getElem hi)]
  have hahead : Ahead (encodeCommand argv) (cursorAt argv i) (argv[i] :: argv.drop (i + 1)) := by
    refine ⟨by rw [← hdrop]; rfl, drop_argOffset argv i, fun a ha => ?_⟩
    rw [← hdrop] at ha
    exact Nat.lt_trans ((encodeCommand_bounds hlen).2 a (List.mem_of_mem_drop ha)) (by decide)
  obtain ⟨arg, c', hok, hholds, -⟩ := hahead.bulk_cons
  rw [hbulk] at hok
  cases hok
  exact ⟨hbulk, hholds⟩

omit hlen in
theorem redisParseBulk_end {i : ℕ} (hi : argv.length ≤ i) :
    ∃ e, redisParseBulk (cursorAt argv i) = .error e := by
  refine ⟨none, ?_⟩
  rw [cursorAt, List.drop_eq_nil_of_le hi]
  rfl

/-! ## The search -/

/-- The argument `i` is the keyword, ignoring case. -/
def KeywordAt (argv : List Bytes) (i : ℕ) : Prop := argv[i]?.map toUpper = some (ascii "STREAMS")

instance (argv : List Bytes) (i : ℕ) : Decidable (KeywordAt argv i) :=
  inferInstanceAs (Decidable (_ = _))

/-- The argument `i` is taken for the keyword: the comparison stops at its end. -/
def LookalikeAt (argv : List Bytes) (i : ℕ) : Prop :=
  argv[i]?.any (sameWord "STREAMS") = true

instance (argv : List Bytes) (i : ℕ) : Decidable (LookalikeAt argv i) :=
  inferInstanceAs (Decidable (_ = _))

omit hlen in
theorem KeywordAt.lookalike {i : ℕ} (h : KeywordAt argv i) : LookalikeAt argv i := by
  obtain ⟨a, ha, hup⟩ := Option.map_eq_some_iff.mp h
  rw [LookalikeAt, ha, Option.any_some, sameWord, hup]
  decide

omit hlen in
theorem LookalikeAt.lt {i : ℕ} (h : LookalikeAt argv i) : i < argv.length := by
  by_contra hge
  rw [LookalikeAt, List.getElem?_eq_none (Nat.not_lt.mp hge)] at h
  cases h

omit hlen in
theorem KeywordAt.lt {i : ℕ} (h : KeywordAt argv i) : i < argv.length := h.lookalike.lt

variable {info : CmdDef} {narg startfrom : ℕ}

theorem sameWord_at {i : ℕ} (hi : i < argv.length) :
    sameWord "STREAMS" ((argAt argv i).bytes (encodeCommand argv)) = true ↔ LookalikeAt argv i := by
  rw [(redisParseBulk_at hlen hi).2.bytes, LookalikeAt, List.getElem?_eq_getElem hi, Option.any_some]

/-- No argument that is looked at is taken for the keyword. -/
theorem parseAfterKeyword_absent (n : ℕ) : ∀ {i : ℕ}, 1 ≤ i → i + n = argv.length →
    (∀ j, i ≤ j → startfrom < j → ¬ LookalikeAt argv j) →
    parseAfterKeyword (encodeCommand argv) info narg "STREAMS" startfrom n ((i : ℤ) - 1)
      (cursorAt argv i) = .error (.keys info) := by
  induction n with
  | zero => exact fun _ _ _ => rfl
  | succ n ih =>
    intro i hi hn hno
    have hlt : i < argv.length := by omega
    have hnext : (i : ℤ) - 1 + 1 = ((i + 1 : ℕ) : ℤ) - 1 := by omega
    have hrest := ih (i := i + 1) (by omega) (by omega) fun j hj => hno j (by omega)
    rw [parseAfterKeyword, (redisParseBulk_at hlen hlt).1]
    dsimp only
    split
    · rw [hnext, hrest]
    · have hmiss : ¬ sameWord "STREAMS" ((argAt argv i).bytes (encodeCommand argv)) = true :=
        fun h => hno i (Nat.le_refl i) (by omega) ((sameWord_at hlen hlt).mp h)
      rw [if_neg hmiss, hnext, hrest]

/-- The first argument that is looked at and taken for the keyword decides. -/
theorem parseAfterKeyword_found {j : ℕ} (hstart : startfrom < j) (hj : LookalikeAt argv j) (n : ℕ) :
    ∀ {i : ℕ}, 1 ≤ i → i ≤ j → i + n = argv.length →
      (∀ m, i ≤ m → m < j → startfrom < m → ¬ LookalikeAt argv m) →
      parseAfterKeyword (encodeCommand argv) info narg "STREAMS" startfrom n ((i : ℤ) - 1)
        (cursorAt argv i) = if j + 1 < argv.length then
          .ok ⟨info.type, narg, [(argAt argv (j + 1)).keyPos]⟩ else .error (.keys info) := by
  have hjlt := hj.lt
  induction n with
  | zero => intro i _ hij hn; omega
  | succ n ih =>
    intro i hi hij hn hno
    have hlt : i < argv.length := by omega
    have hnext : (i : ℤ) - 1 + 1 = ((i + 1 : ℕ) : ℤ) - 1 := by omega
    rw [parseAfterKeyword, (redisParseBulk_at hlen hlt).1]
    dsimp only
    rcases Nat.lt_or_eq_of_le hij with hij | rfl
    · have hrest := ih (i := i + 1) (by omega) hij (by omega) fun m hm => hno m (by omega)
      split
      · rw [hnext, hrest]
      · have hmiss : ¬ sameWord "STREAMS" ((argAt argv i).bytes (encodeCommand argv)) = true :=
          fun h => hno i (Nat.le_refl i) hij (by omega) ((sameWord_at hlen hlt).mp h)
        rw [if_neg hmiss, hnext, hrest]
    · rw [if_neg (by omega), if_pos ((sameWord_at hlen hlt).mpr hj)]
      by_cases hmore : i + 1 < argv.length
      · rw [(redisParseBulk_at hlen hmore).1, if_pos hmore]
      · have hend : argv.length ≤ i + 1 := Nat.not_lt.mp hmore
        obtain ⟨e, he⟩ := redisParseBulk_end hend
        rw [he, if_neg hmore]

end Parsing

/-! ## Whole commands -/

/-- The first place where the keyword may stand. -/
def streamsFrom : CmdType → Option ℕ
  | .xread => some 1
  | .xreadgroup => some 4
  | _ => none

/-- The argument `i` is the first keyword from `startfrom` on. -/
def FirstKeyword (startfrom : ℕ) (argv : List Bytes) (i : ℕ) : Prop :=
  startfrom ≤ i ∧ KeywordAt argv i ∧ ∀ j, startfrom ≤ j → j < i → ¬ KeywordAt argv j

/-- The key found is the argument after the first keyword, and without a keyword the
command is refused. -/
def StreamsRouted (startfrom : ℕ) (argv : List Bytes) : Prop :=
  (∀ i, FirstKeyword startfrom argv i → i + 1 < argv.length →
    ∃ p, redisParseCmd (encodeCommand argv) = .ok p ∧ p.keys = [(argAt argv (i + 1)).keyPos]) ∧
  ((∀ i, startfrom ≤ i → ¬ KeywordAt argv i) → ∃ e, redisParseCmd (encodeCommand argv) = .error e)

/-- The keyword does not stand in the first place, and what looks like it and has an
argument after it is the keyword, or comes after it. -/
def KeywordClear (startfrom : ℕ) (argv : List Bytes) : Prop :=
  ¬ KeywordAt argv startfrom ∧ ∀ j, startfrom < j → j + 1 < argv.length → LookalikeAt argv j →
    ∃ i, startfrom < i ∧ i ≤ j ∧ KeywordAt argv i

/-- The rows of the two commands. -/
theorem streams_row : ∀ info ∈ redisCommands, ∀ n, streamsFrom info.type = some n →
    info.firstkeymethod = .unknown ∧ info.arity < -2 - n ∧
      info.type = (if n = 1 then .xread else .xreadgroup) := by
  intro info hinfo n
  have h : ∀ info ∈ redisCommands, (streamsFrom info.type).all (fun n : ℕ =>
      info.firstkeymethod = .unknown ∧ info.arity < -2 - (n : ℤ) ∧
        info.type = (if n = 1 then .xread else .xreadgroup)) = true := by decide +kernel
  intro hn
  have := h info hinfo
  rw [hn] at this
  simpa using this

section Whole

variable {argv : List Bytes} {info : CmdDef} {startfrom : ℕ}
  (hlen : (encodeCommand argv).length < 2 ^ 31) (hinfo : commandInfo argv = some info)
  (hfrom : streamsFrom info.type = some startfrom) (har : info.ArityHolds argv.length)

include hlen hinfo hfrom har

/-- There are arguments enough. -/
theorem streams_argc : startfrom + 2 < argv.length := by
  obtain ⟨a, args, rfl⟩ : ∃ a args, argv = a :: args := by
    cases argv with
    | nil => cases hinfo
    | cons a args => exact ⟨a, args, rfl⟩
  obtain ⟨-, harity, -⟩ := streams_row info (lookupLoop_mem _ hinfo) _ hfrom
  rw [CmdDef.ArityHolds, if_neg (by omega)] at har
  omega

/-- The whole parse is the search for the keyword. -/
theorem redisParseCmd_streams : redisParseCmd (encodeCommand argv) =
    parseAfterKeyword (encodeCommand argv) info argv.length "STREAMS" startfrom
      (argv.length - 2) ((2 : ℕ) - 1) (cursorAt argv 2) := by
  have hargc := streams_argc hlen hinfo hfrom har
  have hlt := (encodeCommand_bounds hlen).1
  obtain ⟨a0, a1, args, rfl⟩ : ∃ a0 a1 args, argv = a0 :: a1 :: args := by
    rcases argv with _ | ⟨a0, _ | ⟨a1, args⟩⟩
    · exact absurd hargc (by simp)
    · exact absurd hargc (by simp)
    · exact ⟨a0, a1, args, rfl⟩
  obtain ⟨hmethod, -, htype⟩ := streams_row info (lookupLoop_mem _ hinfo) _ hfrom
  obtain ⟨hbulk0, ha0⟩ := redisParseBulk_at hlen (show 0 < (a0 :: a1 :: args).length by simp)
  obtain ⟨hbulk1, ha1⟩ := redisParseBulk_at hlen (show 1 < (a0 :: a1 :: args).length by simp)
  have hlookup : redisLookupCmd ((argAt (a0 :: a1 :: args) 0).bytes (encodeCommand (a0 :: a1 :: args)))
      ((some (argAt (a0 :: a1 :: args) 1)).map (Arg.bytes (encodeCommand (a0 :: a1 :: args)))) =
        some info := by
    have hlook : redisLookupCmd a0 (some a1) = some info := hinfo
    rw [ha0.bytes, Option.map_some, ha1.bytes, List.getElem_cons_zero, List.getElem_cons_succ,
      List.getElem_cons_zero, hlook]
  have hcursor : Cursor.mk (42 :: decimal (a0 :: a1 :: args).length ++ [13, 10]).length
      (encodeArgs (a0 :: a1 :: args)) = cursorAt (a0 :: a1 :: args) 0 := rfl
  rw [redisParseCmd, parseHeader_eq (List.cons_ne_nil _ _) (Nat.lt_trans hlt (by decide)), hcursor]
  dsimp only
  rw [hbulk0]
  dsimp only
  rw [if_pos (by simp), hbulk1]
  dsimp only
  rw [parseNamed_eq hlookup ((arityOk_iff info hlt).mpr har) (by rw [hmethod]; decide),
    Option.elim_some, parseKeys, hmethod, toInt32_of_lt hlt, Int.toNat_natCast]
  dsimp only
  by_cases hone : startfrom = 1
  · rw [if_pos hone] at htype
    rw [if_pos htype, hone]
    rfl
  · rw [if_neg hone] at htype
    rw [htype] at hfrom
    obtain rfl := Option.some.inj hfrom
    rw [if_neg (by rw [htype]; decide), if_pos htype]
    rfl

/-- The search has a first lookalike, after which the key stands, or none. -/
theorem redisParseCmd_search :
    (∃ j, startfrom < j ∧ LookalikeAt argv j ∧
      (∀ m, startfrom < m → m < j → ¬ LookalikeAt argv m) ∧
      redisParseCmd (encodeCommand argv) = if j + 1 < argv.length then
        .ok ⟨info.type, argv.length, [(argAt argv (j + 1)).keyPos]⟩ else .error (.keys info)) ∨
    (∀ j, startfrom < j → ¬ LookalikeAt argv j) ∧
      redisParseCmd (encodeCommand argv) = .error (.keys info) := by
  have hargc := streams_argc hlen hinfo hfrom har
  have hone : 1 ≤ startfrom := by
    unfold streamsFrom at hfrom
    split at hfrom <;> simp at hfrom <;> omega
  rw [redisParseCmd_streams hlen hinfo hfrom har]
  by_cases h : ∃ j, startfrom < j ∧ LookalikeAt argv j
  · obtain ⟨hj, hlook⟩ := Nat.find_spec h
    have hfirst : ∀ m, startfrom < m → m < Nat.find h → ¬ LookalikeAt argv m :=
      fun m hm hlt hlook => Nat.find_min h hlt ⟨hm, hlook⟩
    exact .inl ⟨Nat.find h, hj, hlook, hfirst, parseAfterKeyword_found hlen hj hlook _ (by omega)
      (by omega) (by omega) fun m _ hlt hm => hfirst m hm hlt⟩
  · have hno : ∀ j, startfrom < j → ¬ LookalikeAt argv j := fun j hj hlook => h ⟨j, hj, hlook⟩
    exact .inr ⟨hno, parseAfterKeyword_absent hlen _ (by omega) (by omega) fun j _ => hno j⟩

/-- **XREAD and XREADGROUP are routed by the first stream key if and only if** the keyword
is the last argument, or it is clear what it is. -/
theorem streams_routed_iff : StreamsRouted startfrom argv ↔
    FirstKeyword startfrom argv (argv.length - 1) ∨ KeywordClear startfrom argv := by
  have hargc := streams_argc hlen hinfo hfrom har
  have hsearch := redisParseCmd_search hlen hinfo hfrom har
  constructor
  · rintro ⟨hkey, hnone⟩
    by_cases hlast : FirstKeyword startfrom argv (argv.length - 1)
    · exact .inl hlast
    right
    -- the key that is found tells where the search stopped
    have hsame : ∀ i, FirstKeyword startfrom argv i → startfrom < i ∧
        ∀ m, startfrom < m → m < i → ¬ LookalikeAt argv m := by
      intro i hi
      have hmore : i + 1 < argv.length := by
        have hlt := hi.2.1.lt
        by_contra hge
        have hend : i = argv.length - 1 := by omega
        exact hlast (hend ▸ hi)
      obtain ⟨p, hp, hkeys⟩ := hkey i hi hmore
      rcases hsearch with ⟨j, hj, -, hfirst, hres⟩ | ⟨-, hres⟩
      · rw [hp] at hres
        split at hres
        · rename_i hmore'
          cases hres
          have hstart := congrArg KeyPos.start (List.singleton_inj.mp hkeys)
          have hij := argAt_injective hmore' hmore hstart
          obtain rfl : j = i := by omega
          exact ⟨hj, hfirst⟩
        · cases hres
      · rw [hp] at hres
        cases hres
    constructor
    · intro hat
      have := (hsame startfrom ⟨Nat.le_refl _, hat, fun j h h' => by omega⟩).1
      omega
    · intro j hj hmore hlook
      by_cases hex : ∃ i, startfrom ≤ i ∧ KeywordAt argv i
      · obtain ⟨hle, hat⟩ := Nat.find_spec hex
        have hi : FirstKeyword startfrom argv (Nat.find hex) :=
          ⟨hle, hat, fun m hm hlt hm' => Nat.find_min hex hlt ⟨hm, hm'⟩⟩
        obtain ⟨hlt, hfirst⟩ := hsame _ hi
        refine ⟨Nat.find hex, hlt, ?_, hat⟩
        by_contra hge
        exact hfirst j hj (by omega) hlook
      · obtain ⟨e, he⟩ := hnone fun i hi hat => hex ⟨i, hi, hat⟩
        rcases hsearch with ⟨j', hj', hlook', hfirst, hres⟩ | ⟨hno, -⟩
        · have hle : j' ≤ j := by
            by_contra hgt
            exact hfirst j hj (by omega) hlook
          rw [he, if_pos (by omega)] at hres
          cases hres
        · exact absurd hlook (hno j hj)
  · rintro (hlast | ⟨hstart, hclear⟩)
    · refine ⟨fun i hi hmore => ?_, fun hno => absurd hlast.2.1 (hno _ hlast.1)⟩
      exact absurd hi.2.1 (hlast.2.2 i hi.1 (by omega))
    · refine ⟨fun i hi hmore => ?_, fun hno => ?_⟩
      · have hlt : startfrom < i := by
          refine lt_of_le_of_ne hi.1 fun heq => hstart ?_
          rw [heq]
          exact hi.2.1
        have hfirst : ∀ m, startfrom < m → m < i → ¬ LookalikeAt argv m := by
          intro m hm hmi hlook
          obtain ⟨i', hi', hle, hat⟩ := hclear m hm (by omega) hlook
          exact hi.2.2 i' (by omega) (by omega) hat
        rcases hsearch with ⟨j, hj, hlook, hfirst', hres⟩ | ⟨hno, -⟩
        · have hij : j = i := by
            rcases Nat.lt_trichotomy j i with h | h | h
            · exact absurd hlook (hfirst j hj h)
            · exact h
            · exact absurd hi.2.1.lookalike (hfirst' i hlt h)
          rw [hij, if_pos hmore] at hres
          exact ⟨_, hres, rfl⟩
        · exact absurd hi.2.1.lookalike (hno i hlt)
      · rcases hsearch with ⟨j, hj, hlook, -, hres⟩ | ⟨-, hres⟩
        · by_cases hmore : j + 1 < argv.length
          · obtain ⟨i, hi, -, hat⟩ := hclear j hj hmore hlook
            exact absurd hat (hno i (by omega))
          · rw [if_neg hmore] at hres
            exact ⟨_, hres⟩
        · exact ⟨_, hres⟩

end Whole

/-- `XREAD COUNT 1 STREAMS k 0`. -/
def xreadCount : List Bytes :=
  [ascii "XREAD", ascii "COUNT", ascii "1", ascii "streams", ascii "k", ascii "0"]

theorem streams_routed_iff_count : StreamsRouted 1 xreadCount := by
  have hinfo : commandInfo xreadCount = some ⟨.xread, "XREAD", none, .unknown, 0, -4⟩ := by
    decide +kernel
  refine (streams_routed_iff (by decide +kernel) hinfo rfl (by decide)).mpr
    (.inr ⟨by decide, fun j hj hmore hlook => ?_⟩)
  have hlt : j < 6 := Nat.lt_of_succ_lt hmore
  have hthree : j = 3 := by
    revert hlook
    interval_cases j <;> decide
  exact ⟨3, by decide, Nat.le_of_eq hthree.symm, by decide⟩

/-- `XREAD STREAMS k 0`, without options. -/
def xreadPlain : List Bytes := [ascii "XREAD", ascii "STREAMS", ascii "k", ascii "0"]

/-- **The keyword is not seen in the first place where it may stand.** -/
theorem xreadPlain_not_routed :
    commandInfo xreadPlain = some ⟨.xread, "XREAD", none, .unknown, 0, -4⟩ ∧
      CmdDef.ArityHolds ⟨.xread, "XREAD", none, .unknown, 0, -4⟩ xreadPlain.length ∧
      ¬ StreamsRouted 1 xreadPlain := by
  refine ⟨by decide +kernel, by decide, fun h => ?_⟩
  have herr : (redisParseCmd (encodeCommand xreadPlain)).toOption = none := by decide +kernel
  obtain ⟨p, hp, -⟩ := h.1 1 ⟨Nat.le_refl 1, by decide, fun j h h' => by omega⟩ (by decide)
  rw [hp] at herr
  cases herr
