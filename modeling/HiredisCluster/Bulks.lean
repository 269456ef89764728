/-
# Bulk strings in an arbitrary buffer

A bulk string is announced by a line with its length, and it is complete if a line end
follows behind as many bytes.  `redis_parse_bulk` reads what is announced and complete; the
length is computed in `uint32_t`, and a line without any digit announces an empty string.

`redisParseBulk_spec` is what the results on malformed commands use of it.
-/
import HiredisCluster.Command
import HiredisCluster.Numerals

/-! ## Numbers -/

theorem numeral_mod (m : ℕ) (s : Bytes) : ∀ acc, numeral (acc % m) s % m = numeral acc s % m := by
  induction s with
  | nil => exact fun acc => Nat.mod_mod acc m
  | cons b s ih =>
    intro acc
    rw [numeral_cons, numeral_cons, ← ih (acc % m * 10 + digitVal b), ← ih (acc * 10 + digitVal b)]
    congr 1
    rw [Nat.add_mod, Nat.mul_mod, Nat.mod_mod, ← Nat.mul_mod, ← Nat.add_mod]

/-- The number that digits spell in `uint32_t` arithmetic. -/
def uint32 (digits : Bytes) : ℕ := numeral 0 digits % 2 ^ 32

theorem uint32_lt (digits : Bytes) : uint32 digits < 2 ^ 32 := Nat.mod_lt _ (by decide)

theorem parseUint_eq (s : Bytes) : ∀ {acc : ℕ} (pos : ℕ), acc < 2 ^ 32 →
    parseUint acc pos s = (numeral acc (s.takeWhile isDigit) % 2 ^ 32,
      ⟨pos + (s.takeWhile isDigit).length, s.dropWhile isDigit⟩) := by
  induction s with
  | nil =>
    intro acc pos h
    rw [parseUint, List.takeWhile_nil, List.dropWhile_nil, numeral, List.foldl_nil,
      Nat.mod_eq_of_lt h]
    rfl
  | cons b s ih =>
    intro acc pos h
    rw [parseUint]
    by_cases hb : isDigit b = true
    · rw [if_pos hb, ih (pos + 1) (Nat.mod_lt _ (by decide)), List.takeWhile_cons_of_pos hb,
        List.dropWhile_cons_of_pos hb, numeral_mod, numeral_cons, List.length_cons,
        Nat.add_right_comm, Nat.add_assoc]
    · rw [if_neg hb, List.takeWhile_cons_of_neg hb, List.dropWhile_cons_of_neg hb, numeral,
        List.foldl_nil, Nat.mod_eq_of_lt h]
      rfl

/-- Digits are read up to the first other byte. -/
theorem takeWhile_digits {digits : Bytes} (hd : ∀ b ∈ digits, isDigit b = true) {x : UInt8}
    (hx : isDigit x = false) (rest : Bytes) :
    (digits ++ x :: rest).takeWhile isDigit = digits ∧
      (digits ++ x :: rest).dropWhile isDigit = x :: rest := by
  rw [List.takeWhile_append_of_pos hd, List.dropWhile_append_of_pos hd,
    List.takeWhile_cons_of_neg (by simp [hx]), List.dropWhile_cons_of_neg (by simp [hx]),
    List.append_nil]
  exact ⟨rfl, rfl⟩

/-! ## Cursors -/

/-- What a cursor has still to read is the rest of the buffer. -/
structure Cursor.On (buf : Bytes) (c : Cursor) : Prop where
  rest : c.rest = buf.drop c.pos
  pos : c.pos ≤ buf.length

theorem Cursor.on_start (buf : Bytes) : Cursor.On buf ⟨0, buf⟩ := ⟨rfl, Nat.zero_le _⟩

/-- Where something stands in the rest of the buffer, the buffer goes on at least as long. -/
theorem length_of_drop {buf s : Bytes} {i : ℕ} (h : buf.drop i = s) (hs : s ≠ []) :
    i + s.length = buf.length := by
  have hlen := congrArg List.length h
  have hpos := List.length_pos_iff.mpr hs
  rw [List.length_drop] at hlen
  omega

theorem drop_add {buf s t : Bytes} {i : ℕ} (h : buf.drop i = s ++ t) :
    buf.drop (i + s.length) = t := by
  rw [← List.drop_drop, h, List.drop_left]

/-- A cursor that moves over `s`. -/
theorem Cursor.On.advance {buf s t : Bytes} {c : Cursor} (hc : c.On buf)
    (h : c.rest = s ++ t) : Cursor.On buf ⟨c.pos + s.length, t⟩ := by
  have hdrop : buf.drop c.pos = s ++ t := hc.rest.symm.trans h
  refine ⟨(drop_add hdrop).symm, ?_⟩
  have hlen := congrArg List.length hdrop
  rw [List.length_drop, List.length_append] at hlen
  have hpos := hc.pos
  change c.pos + s.length ≤ buf.length
  omega

theorem Cursor.expect_eq_some {c c' : Cursor} {b : UInt8} (h : c.expect b = some c') :
    c.rest = b :: c'.rest ∧ c'.pos = c.pos + 1 := by
  unfold Cursor.expect at h
  cases hrest : c.rest with
  | nil =>
    rw [hrest] at h
    cases h
  | cons x xs =>
    rw [hrest] at h
    dsimp only at h
    by_cases hx : x = b
    · rw [if_pos hx] at h
      obtain rfl := Option.some.inj h
      exact ⟨by rw [hx], rfl⟩
    · rw [if_neg hx] at h
      cases h

theorem Cursor.expect_cons (pos : ℕ) (b : UInt8) (rest : Bytes) :
    Cursor.expect ⟨pos, b :: rest⟩ b = some ⟨pos + 1, rest⟩ := if_pos rfl

theorem Cursor.crlf_eq_some {c c' : Cursor} (h : c.crlf = some c') :
    c.rest = 13 :: 10 :: c'.rest ∧ c'.pos = c.pos + 2 := by
  unfold Cursor.crlf at h
  cases hcr : c.expect 13 with
  | none =>
    rw [hcr] at h
    cases h
  | some d =>
    rw [hcr] at h
    obtain ⟨hrest, hpos⟩ := Cursor.expect_eq_some hcr
    obtain ⟨hrest', hpos'⟩ := Cursor.expect_eq_some h
    exact ⟨by rw [hrest, hrest'], by omega⟩

theorem Cursor.crlf_cons (pos : ℕ) (rest : Bytes) :
    Cursor.crlf ⟨pos, 13 :: 10 :: rest⟩ = some ⟨pos + 2, rest⟩ := rfl

/-! ## Lines with a number -/

/-- At offset `i` there is a line of `lead` and `digits`. -/
structure NumberLine (buf : Bytes) (i : ℕ) (lead : UInt8) (digits : Bytes) : Prop where
  line : ∃ rest, buf.drop i = lead :: (digits ++ 13 :: 10 :: rest)
  allDigits : ∀ b ∈ digits, isDigit b = true

theorem NumberLine.unique {buf : Bytes} {i : ℕ} {lead : UInt8} {digits digits' : Bytes}
    (h : NumberLine buf i lead digits) (h' : NumberLine buf i lead digits') : digits = digits' := by
  obtain ⟨rest, hline⟩ := h.line
  obtain ⟨rest', hline'⟩ := h'.line
  have htail := (List.cons.inj (hline.symm.trans hline')).2
  rw [← (takeWhile_digits h.allDigits (x := 13) rfl (10 :: rest)).1, htail]
  exact (takeWhile_digits h'.allDigits rfl (10 :: rest')).1

/-- The line, its end included, lies in the buffer. -/
theorem NumberLine.le_length {buf : Bytes} {i : ℕ} {lead : UInt8} {digits : Bytes}
    (h : NumberLine buf i lead digits) : i + digits.length + 3 ≤ buf.length := by
  obtain ⟨rest, hline⟩ := h.line
  have hlen := length_of_drop hline (by simp)
  simp only [List.length_append, List.length_cons] at hlen
  omega

/-- Read a line with a number. -/
def readNumber (lead : UInt8) (c : Cursor) : Option (ℕ × Cursor) :=
  match c.expect lead with
  | none => none
  | some c => (parseUint 0 c.pos c.rest).2.crlf.map fun c' => ((parseUint 0 c.pos c.rest).1, c')

/-- What is found at offset `i` where a line with a number is expected. -/
inductive NumberResult (buf : Bytes) (i : ℕ) (lead : UInt8) : Option (ℕ × Cursor) → Prop where
  | read {digits : Bytes} {c : Cursor} (h : NumberLine buf i lead digits)
      (hpos : c.pos = i + digits.length + 3) (hc : c.On buf) :
      NumberResult buf i lead (some (uint32 digits, c))
  | missing (h : ∀ digits, ¬ NumberLine buf i lead digits) : NumberResult buf i lead none

theorem readNumber_spec (lead : UInt8) {buf : Bytes} {c : Cursor} (hc : c.On buf) :
    NumberResult buf c.pos lead (readNumber lead c) := by
  unfold readNumber
  cases hlead : c.expect lead with
  | none =>
    refine .missing fun digits h => ?_
    obtain ⟨rest, hline⟩ := h.line
    obtain ⟨pos, crest⟩ := c
    obtain rfl : crest = _ := hc.rest.trans hline
    rw [Cursor.expect_cons] at hlead
    cases hlead
  | some c₁ =>
    obtain ⟨hrest₁, hpos₁⟩ := Cursor.expect_eq_some hlead
    dsimp only
    rw [parseUint_eq c₁.rest c₁.pos (by decide)]
    dsimp only
    cases hcr : Cursor.crlf ⟨c₁.pos + (c₁.rest.takeWhile isDigit).length,
        c₁.rest.dropWhile isDigit⟩ with
    | none =>
      refine .missing fun digits h => ?_
      obtain ⟨rest, hline⟩ := h.line
      rw [← hc.rest, hrest₁] at hline
      have htail := (List.cons.inj hline).2
      rw [htail, (takeWhile_digits h.allDigits rfl (10 :: rest)).2, Cursor.crlf_cons] at hcr
      cases hcr
    | some c₂ =>
      obtain ⟨hrest₂, hpos₂⟩ := Cursor.crlf_eq_some hcr
      have hline : c.rest = lead :: (c₁.rest.takeWhile isDigit ++ 13 :: 10 :: c₂.rest) := by
        have hdrop : c₁.rest.dropWhile isDigit = 13 :: 10 :: c₂.rest := hrest₂
        rw [hrest₁, ← hdrop, List.takeWhile_append_dropWhile]
      have hpos : c₂.pos = c.pos + (c₁.rest.takeWhile isDigit).length + 3 := by
        rw [hpos₂, hpos₁]
        dsimp only
        omega
      refine .read ⟨⟨c₂.rest, hc.rest ▸ hline⟩, fun b hb => List.mem_takeWhile_imp hb⟩ hpos ?_
      have hon := hc.advance (s := lead :: (c₁.rest.takeWhile isDigit ++ [13, 10]))
        (t := c₂.rest) (by rw [hline]; simp)
      have hadd : c.pos + (lead :: (c₁.rest.takeWhile isDigit ++ [13, 10])).length = c₂.pos := by
        simp only [List.length_cons, List.length_append, List.length_nil]
        omega
      rwa [hadd] at hon

/-! ## Bulk strings -/

/-- At offset `i`, `digits` announce the bulk string `a`. -/
structure BulkAnnounced (buf : Bytes) (i : ℕ) (digits : Bytes) (a : Arg) : Prop where
  line : NumberLine buf i 36 digits
  start : a.start = i + digits.length + 3
  len : a.len = uint32 digits

/-- A line end follows the bulk string. -/
def Complete (buf : Bytes) (a : Arg) : Prop :=
  ∃ rest, buf.drop (a.start + a.len) = 13 :: 10 :: rest

theorem BulkAnnounced.start_le {buf : Bytes} {i : ℕ} {digits : Bytes} {a : Arg}
    (h : BulkAnnounced buf i digits a) : i < a.start ∧ a.start ≤ buf.length := by
  have hline := h.line.le_length
  have hstart := h.start
  omega

/-- What is announced at an offset is determined. -/
theorem BulkAnnounced.unique {buf : Bytes} {i : ℕ} {digits digits' : Bytes} {a a' : Arg}
    (h : BulkAnnounced buf i digits a) (h' : BulkAnnounced buf i digits' a') :
    digits = digits' ∧ a = a' := by
  obtain rfl := h.line.unique h'.line
  refine ⟨rfl, ?_⟩
  obtain ⟨start, len⟩ := a
  obtain ⟨start', len'⟩ := a'
  rw [Arg.mk.injEq]
  exact ⟨h.start.trans h'.start.symm, h.len.trans h'.len.symm⟩

theorem Complete.stop_le {buf : Bytes} {a : Arg} (h : Complete buf a) :
    a.start + a.len + 2 ≤ buf.length := by
  obtain ⟨rest, hdrop⟩ := h
  have hlen := length_of_drop hdrop (by simp)
  simp only [List.length_cons] at hlen
  omega

/-- `redis_parse_bulk` reads the line with the length, and then looks for the line end. -/
theorem redisParseBulk_eq (c : Cursor) : redisParseBulk c =
    match readNumber 36 c with
    | none => .error none
    | some (len, c) =>
      match Cursor.crlf ⟨c.pos + len, c.rest.drop len⟩ with
      | none => .error (some ⟨c.pos, len⟩)
      | some c' => .ok (⟨c.pos, len⟩, c') := by
  unfold redisParseBulk readNumber
  cases c.expect 36 with
  | none => rfl
  | some c =>
    dsimp only
    cases (parseUint 0 c.pos c.rest).2.crlf with
    | none => rfl
    | some c' => rfl

/-- What `redis_parse_bulk` finds at offset `i`. -/
inductive BulkResult (buf : Bytes) (i : ℕ) : Except (Option Arg) (Arg × Cursor) → Prop where
  | read {digits : Bytes} {a : Arg} {c : Cursor} (h : BulkAnnounced buf i digits a)
      (hend : Complete buf a) (hpos : c.pos = a.start + a.len + 2) (hc : c.On buf) :
      BulkResult buf i (.ok (a, c))
  | cut {digits : Bytes} {a : Arg} (h : BulkAnnounced buf i digits a) (hend : ¬ Complete buf a) :
      BulkResult buf i (.error (some a))
  | missing (h : ∀ digits a, ¬ BulkAnnounced buf i digits a) : BulkResult buf i (.error none)

/-- **`redis_parse_bulk`** reads a bulk string that is announced and complete, and publishes
one that is announced only. -/
theorem redisParseBulk_spec {buf : Bytes} {c : Cursor} (hc : c.On buf) :
    BulkResult buf c.pos (redisParseBulk c) := by
  rw [redisParseBulk_eq]
  have hspec := readNumber_spec 36 hc
  cases hr : readNumber 36 c with
  | none =>
    rw [hr] at hspec
    cases hspec with
    | missing hno => exact .missing fun digits a h => hno digits h.line
  | some r =>
    rw [hr] at hspec
    cases hspec with
    | @read digits c₁ hline hpos hon =>
      have hann : BulkAnnounced buf c.pos digits ⟨c₁.pos, uint32 digits⟩ := ⟨hline, hpos, rfl⟩
      have hdrop : c₁.rest.drop (uint32 digits) = buf.drop (c₁.pos + uint32 digits) := by
        rw [hon.rest, List.drop_drop]
      dsimp only
      rw [hdrop]
      cases hend : Cursor.crlf ⟨c₁.pos + uint32 digits, buf.drop (c₁.pos + uint32 digits)⟩ with
      | none =>
        refine .cut hann ?_
        rintro ⟨rest, hrest⟩
        rw [hrest, Cursor.crlf_cons] at hend
        cases hend
      | some c₂ =>
        obtain ⟨hrest₂, hpos₂⟩ := Cursor.crlf_eq_some hend
        have hcomplete : Complete buf ⟨c₁.pos, uint32 digits⟩ := ⟨c₂.rest, hrest₂⟩
        refine .read hann hcomplete hpos₂ ⟨?_, ?_⟩
        · rw [hpos₂]
          exact (drop_add (s := [13, 10]) hrest₂).symm
        · rw [hpos₂]
          exact hcomplete.stop_le

/-- The cursor stands behind the bulk string `a`, which starts after `lo`. -/
structure Behind (buf : Bytes) (lo : ℕ) (a : Arg) (c : Cursor) : Prop where
  start : lo < a.start
  complete : Complete buf a
  pos : c.pos = a.start + a.len + 2
  on : c.On buf

theorem Behind.mono {buf : Bytes} {lo lo' : ℕ} {a : Arg} {c : Cursor} (h : Behind buf lo a c)
    (hlo : lo' ≤ lo) : Behind buf lo' a c := ⟨Nat.lt_of_le_of_lt hlo h.start, h.complete, h.pos, h.on⟩

theorem Behind.lt_pos {buf : Bytes} {lo : ℕ} {a : Arg} {c : Cursor} (h : Behind buf lo a c) :
    lo < c.pos := by
  have hstart := h.start
  have hpos := h.pos
  omega

/-- What is read was announced, and the cursor stands behind it. -/
theorem redisParseBulk_ok {buf : Bytes} {c c' : Cursor} {a : Arg} (hc : c.On buf)
    (h : redisParseBulk c = .ok (a, c')) :
    (∃ digits, BulkAnnounced buf c.pos digits a) ∧ Behind buf c.pos a c' := by
  have hspec := redisParseBulk_spec hc
  rw [h] at hspec
  cases hspec with
  | read hann hend hpos hon => exact ⟨⟨_, hann⟩, hann.start_le.1, hend, hpos, hon⟩

/-- A bulk string that is announced is published at least. -/
theorem redisParseBulk_of_announced {buf : Bytes} {c : Cursor} {digits : Bytes} {a : Arg}
    (hc : c.On buf) (hann : BulkAnnounced buf c.pos digits a) :
    (∃ c', redisParseBulk c = .ok (a, c')) ∨ redisParseBulk c = .error (some a) := by
  have hspec := redisParseBulk_spec hc
  cases hr : redisParseBulk c with
  | ok r =>
    rw [hr] at hspec
    cases hspec with
    | read hann' _ _ _ => exact Or.inl ⟨_, by rw [(hann.unique hann').2]⟩
  | error e =>
    rw [hr] at hspec
    cases hspec with
    | cut hann' _ => exact Or.inr (by rw [(hann.unique hann').2])
    | missing hno => exact absurd hann (hno _ _)

/-- A bulk string that is announced and complete is read. -/
theorem redisParseBulk_of_complete {buf : Bytes} {c : Cursor} {digits : Bytes} {a : Arg}
    (hc : c.On buf) (hann : BulkAnnounced buf c.pos digits a) (hend : Complete buf a) :
    ∃ c', redisParseBulk c = .ok (a, c') := by
  refine (redisParseBulk_of_announced hc hann).resolve_right fun hr => ?_
  have hspec := redisParseBulk_spec hc
  rw [hr] at hspec
  cases hspec with
  | cut _ hcut => exact hcut hend

/-! ## The header of a command -/

/-- `digits` give the number of arguments, which is not 0. -/
structure Headed (buf digits : Bytes) (narg : ℕ) : Prop where
  line : NumberLine buf 0 42 digits
  count : narg = uint32 digits
  pos : 0 < narg

theorem Headed.unique {buf digits digits' : Bytes} {narg narg' : ℕ} (h : Headed buf digits narg)
    (h' : Headed buf digits' narg') : digits = digits' ∧ narg = narg' := by
  obtain rfl := h.line.unique h'.line
  exact ⟨rfl, h.count.trans h'.count.symm⟩

theorem parseHeader_eq_readNumber (buf : Bytes) : parseHeader buf =
    (readNumber 42 ⟨0, buf⟩).bind fun r => if r.1 = 0 then none else some r := by
  unfold parseHeader readNumber
  cases Cursor.expect ⟨0, buf⟩ 42 with
  | none => rfl
  | some c =>
    dsimp only
    cases (parseUint 0 c.pos c.rest).2.crlf with
    | none => rfl
    | some c' => rfl

/-- The header of a command that has one. -/
theorem parseHeader_some {buf : Bytes} {narg : ℕ} {c : Cursor}
    (h : parseHeader buf = some (narg, c)) :
    ∃ digits, Headed buf digits narg ∧ c.pos = digits.length + 3 ∧ c.On buf := by
  rw [parseHeader_eq_readNumber] at h
  have hspec := readNumber_spec 42 (Cursor.on_start buf)
  cases hr : readNumber 42 ⟨0, buf⟩ with
  | none =>
    rw [hr] at h
    cases h
  | some r =>
    rw [hr] at h hspec
    cases hspec with
    | @read digits c₁ hline hpos hon =>
      rw [Option.bind_some] at h
      by_cases h0 : uint32 digits = 0
      · rw [if_pos h0] at h
        cases h
      · rw [if_neg h0] at h
        cases h
        refine ⟨digits, ⟨hline, rfl, Nat.pos_of_ne_zero h0⟩, ?_, hon⟩
        rw [hpos, Nat.zero_add]

/-- A command without header. -/
theorem parseHeader_none {buf : Bytes} (h : parseHeader buf = none) (digits : Bytes) (narg : ℕ) :
    ¬ Headed buf digits narg := by
  intro hh
  rw [parseHeader_eq_readNumber] at h
  have hspec := readNumber_spec 42 (Cursor.on_start buf)
  cases hr : readNumber 42 ⟨0, buf⟩ with
  | none =>
    rw [hr] at hspec
    cases hspec with
    | missing hno => exact hno digits hh.line
  | some r =>
    rw [hr] at h hspec
    cases hspec with
    | @read digits' c₁ hline hpos hon =>
      obtain rfl := hh.line.unique hline
      have hpos := hh.pos
      rw [hh.count] at hpos
      rw [Option.bind_some, if_neg (Nat.pos_iff_ne_zero.mp hpos)] at h
      cases h

theorem parseHeader_of_headed {buf digits : Bytes} {narg : ℕ} (hd : Headed buf digits narg) :
    ∃ c, parseHeader buf = some (narg, c) ∧ c.pos = digits.length + 3 ∧ c.On buf := by
  cases h : parseHeader buf with
  | none => exact absurd hd (parseHeader_none h digits narg)
  | some r =>
    obtain ⟨digits', hd', hpos, hon⟩ := parseHeader_some h
    obtain ⟨rfl, hnarg⟩ := hd.unique hd'
    exact ⟨r.2, by rw [hnarg], hpos, hon⟩
