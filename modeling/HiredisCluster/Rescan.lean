/-
# The values of a split MSET

`command_pre_fragment` does not keep where `redis_parse_bulk` found a value: it scans from
the end of the key for the next digits, takes them for the length of the value, and copies
as much.  The scan has no bound, and a length line without digits, which `redis_parse_bulk`
reads as an empty value, sends it on to digits that belong to something else.

`rescan_exact_iff`: the two agree on a buffer exactly if every length line has a digit, up
to digits that make up for what was skipped modulo `2 ^ 32`.
-/
import HiredisCluster.Fragment
import HiredisCluster.Ranges

/-! ## The scan -/

/-- The bytes that are skipped from `stop` on before the first digit. -/
def rescanSkipped (buf : Bytes) (stop : ℕ) : Bytes :=
  (buf.drop (stop + 1)).takeWhile fun b => !isDigit b

/-- The digits that are read. -/
def rescanDigits (buf : Bytes) (stop : ℕ) : Bytes :=
  ((buf.drop (stop + 1)).drop (rescanSkipped buf stop).length).takeWhile isDigit

/-- Where the scan ends: at the last byte that it reads. -/
def rescanEnd (buf : Bytes) (stop : ℕ) : ℕ :=
  stop + 1 + (rescanSkipped buf stop).length + (rescanDigits buf stop).length

theorem remainLen_eq (buf : Bytes) (stop : ℕ) : remainLen buf stop =
    (uint32 (rescanDigits buf stop) + 4 + (rescanEnd buf stop - stop)) % 2 ^ 32 := by
  unfold remainLen
  dsimp only
  rw [parseUint_eq _ 0 (by decide)]
  dsimp only
  congr 2
  unfold rescanEnd rescanDigits rescanSkipped
  omega

/-- After `u` the text goes on with the digits `d`, and after them with something else. -/
structure Spelled (text u d : Bytes) : Prop where
  text : ∃ x t, text = u ++ (d ++ x :: t) ∧ isDigit x = false
  skipped : ∀ b ∈ u, isDigit b = false
  nonempty : d ≠ []
  digits : ∀ b ∈ d, isDigit b = true

theorem spelled_cons_iff {b : UInt8} (hb : isDigit b = false) {text u d : Bytes} :
    Spelled (b :: text) u d ↔ ∃ u', u = b :: u' ∧ Spelled text u' d := by
  constructor
  · rintro ⟨⟨x, t, htext, hx⟩, hskipped, hne, hdigits⟩
    cases u with
    | nil =>
      obtain ⟨d₀, ds, rfl⟩ := List.exists_cons_of_ne_nil hne
      obtain rfl := (List.cons.inj htext).1
      rw [hdigits b List.mem_cons_self] at hb
      cases hb
    | cons u₀ u =>
      obtain ⟨rfl, htail⟩ := List.cons.inj htext
      exact ⟨u, rfl, ⟨x, t, htail, hx⟩, fun c hc => hskipped c (List.mem_cons_of_mem _ hc),
        hne, hdigits⟩
  · rintro ⟨u', rfl, ⟨x, t, rfl, hx⟩, hskipped, hne, hdigits⟩
    exact ⟨⟨x, t, rfl, hx⟩, List.forall_mem_cons.mpr ⟨hb, hskipped⟩, hne, hdigits⟩

theorem spelled_append_iff {p : Bytes} (hp : ∀ b ∈ p, isDigit b = false) {text : Bytes} :
    ∀ {u d : Bytes}, Spelled (p ++ text) u d ↔ ∃ u', u = p ++ u' ∧ Spelled text u' d := by
  induction p with
  | nil => exact fun {u d} => ⟨fun h => ⟨u, rfl, h⟩, fun ⟨_, hu, h⟩ => hu ▸ h⟩
  | cons b p ih =>
    intro u d
    have hp' : ∀ c ∈ p, isDigit c = false := fun c hc => hp c (List.mem_cons_of_mem _ hc)
    rw [List.cons_append, spelled_cons_iff (hp b List.mem_cons_self)]
    constructor
    · rintro ⟨u₁, rfl, h⟩
      obtain ⟨u', rfl, h'⟩ := (ih hp').mp h
      exact ⟨u', rfl, h'⟩
    · rintro ⟨u', rfl, h⟩
      exact ⟨p ++ u', rfl, (ih hp').mpr ⟨u', rfl, h⟩⟩

/-- What a command has between two arguments of which the second is empty. -/
theorem between_notDigit : ∀ b ∈ ([10, 36, 13, 10, 13, 10] : Bytes), isDigit b = false := by
  decide +kernel

/-- The scan finds the first digits if something follows them. -/
theorem Spelled.rescan {buf u d : Bytes} {stop : ℕ} (h : Spelled (buf.drop (stop + 1)) u d) :
    rescanSkipped buf stop = u ∧ rescanDigits buf stop = d ∧ rescanEnd buf stop < buf.length := by
  obtain ⟨⟨x, t, htext, hx⟩, hskipped, hne, hdigits⟩ := h
  obtain ⟨d₀, ds, rfl⟩ := List.exists_cons_of_ne_nil hne
  have hd₀ := hdigits d₀ List.mem_cons_self
  have hs : rescanSkipped buf stop = u := by
    unfold rescanSkipped
    rw [htext, List.takeWhile_append_of_pos fun b hb => by rw [hskipped b hb]; rfl,
      List.cons_append, List.takeWhile_cons_of_neg (by simp [hd₀]), List.append_nil]
  have hd : rescanDigits buf stop = d₀ :: ds := by
    unfold rescanDigits
    rw [hs, htext, List.drop_left]
    exact (takeWhile_digits hdigits hx t).1
  refine ⟨hs, hd, ?_⟩
  have hlen := length_of_drop htext (by simp)
  unfold rescanEnd
  rw [hs, hd]
  simp only [List.length_append, List.length_cons] at hlen ⊢
  omega

/-- What is left when a scan stops begins with a byte at which it stops. -/
theorem dropWhile_head {p : UInt8 → Bool} {s t : Bytes} {x : UInt8}
    (h : s.dropWhile p = x :: t) : p x = false := by
  have hhead := List.head?_dropWhile_not p s
  rw [h] at hhead
  exact hhead

/-- A scan that stays in the buffer has found digits. -/
theorem spelled_of_inside {buf : Bytes} {stop : ℕ} (h : rescanEnd buf stop < buf.length) :
    Spelled (buf.drop (stop + 1)) (rescanSkipped buf stop) (rescanDigits buf stop) := by
  have hleft : (buf.drop (stop + 1)).drop (rescanSkipped buf stop).length =
      (buf.drop (stop + 1)).dropWhile fun b => !isDigit b := by
    conv_lhs => rw [← List.takeWhile_append_dropWhile (p := fun b => !isDigit b)
      (l := buf.drop (stop + 1))]
    exact List.drop_left
  have hsplit : buf.drop (stop + 1) = rescanSkipped buf stop ++
      (rescanDigits buf stop ++ (((buf.drop (stop + 1)).dropWhile fun b => !isDigit b).dropWhile
        isDigit)) := by
    unfold rescanDigits
    rw [hleft, List.takeWhile_append_dropWhile]
    exact List.takeWhile_append_dropWhile.symm
  cases hend : ((buf.drop (stop + 1)).dropWhile fun b => !isDigit b).dropWhile isDigit with
  | nil =>
    -- the scan has read the whole buffer
    have hlen := congrArg List.length hsplit
    rw [hend, List.length_drop, List.append_nil, List.length_append] at hlen
    unfold rescanEnd at h
    omega
  | cons x t =>
    rw [hend] at hsplit
    refine ⟨⟨x, t, hsplit, dropWhile_head hend⟩, fun b hb => ?_, fun hnil => ?_,
      fun b hb => List.mem_takeWhile_imp hb⟩
    · simpa using List.mem_takeWhile_imp hb
    · unfold rescanDigits at hnil
      rw [hleft] at hnil
      have hstart : (buf.drop (stop + 1)).dropWhile (fun b => !isDigit b) = x :: t := by
        rw [← hend]
        conv_lhs => rw [← List.takeWhile_append_dropWhile (p := isDigit)
          (l := (buf.drop (stop + 1)).dropWhile fun b => !isDigit b), hnil, List.nil_append]
      have hdigit := dropWhile_head hstart
      rw [dropWhile_head hend] at hdigit
      cases hdigit

/-! ## Scan and parser -/

/-- The scan behind a key stays in the buffer, and its length is that of the rest up to the
end of the value. -/
structure RescanExact (buf : Bytes) (k : KeyPos) : Prop where
  inside : rescanEnd buf k.stop < buf.length
  exact : ∃ v c, redisParseBulk ⟨k.stop + 2, buf.drop (k.stop + 2)⟩ = .ok (v, c) ∧
    (fragmentKey .mset buf k).remainLen = c.pos - k.stop

/-- The length line of the value has a digit. -/
def HeaderDigits (buf : Bytes) (k : KeyPos) : Prop :=
  ∃ b, buf[k.stop + 3]? = some b ∧ isDigit b = true

/-- Behind a value that is empty, for its length line has no digit, the first digits `d`
come after `u`, and they spell a number that makes up for both. -/
def MadeUp (buf : Bytes) (k : KeyPos) : Prop :=
  ∃ u d, Spelled (buf.drop (k.stop + 7)) u d ∧ (numeral 0 d + u.length + d.length + 4) % 2 ^ 32 = 0

/-- What the scan reads if the digits `d` come after `u`. -/
theorem remainLen_of_spelled {buf u d : Bytes} {stop : ℕ}
    (h : Spelled (buf.drop (stop + 1)) u d) :
    remainLen buf stop = (uint32 d + 4 + (1 + u.length + d.length)) % 2 ^ 32 := by
  obtain ⟨hu, hd, -⟩ := h.rescan
  rw [remainLen_eq, rescanEnd, hu, hd]
  congr 2
  omega

section Value

variable {buf digits : Bytes} {k : KeyPos} {v : Arg} (hend : ∃ rest, buf.drop k.stop = 13 :: 10 :: rest)
  (hann : BulkAnnounced buf (k.stop + 2) digits v) (hv : Complete buf v)
include hend hann hv

/-- The value that the parser consumed ends behind its line end. -/
theorem value_parsed : ∃ c, redisParseBulk ⟨k.stop + 2, buf.drop (k.stop + 2)⟩ = .ok (v, c) ∧
    c.pos = k.stop + digits.length + uint32 digits + 7 := by
  obtain ⟨rest, hrest⟩ := hend
  have hlen := length_of_drop hrest (by simp)
  simp only [List.length_cons] at hlen
  have hon : Cursor.On buf ⟨k.stop + 2, buf.drop (k.stop + 2)⟩ := ⟨rfl, by dsimp only; omega⟩
  obtain ⟨c, hc⟩ := redisParseBulk_of_complete hon hann hv
  refine ⟨c, hc, ?_⟩
  rw [(redisParseBulk_ok hon hc).2.pos, hann.start, hann.len]
  omega

omit hv in
/-- What follows the first byte of the line end of a key. -/
theorem drop_value : ∃ rest, buf.drop (k.stop + 1) = 10 :: 36 :: (digits ++ 13 :: 10 :: rest) := by
  obtain ⟨rest, hrest⟩ := hend
  obtain ⟨rest', hrest'⟩ := hann.line.line
  have htail : rest = 36 :: (digits ++ 13 :: 10 :: rest') := by
    rw [← hrest']
    exact (drop_add (s := [13, 10]) hrest).symm
  have hnext : buf.drop (k.stop + 1) = 10 :: rest := drop_add (s := [13]) hrest
  exact ⟨rest', by rw [hnext, htail]⟩

/-- **A value with digits** is found where the parser found it. -/
theorem rescanExact_of_digits (hlen : buf.length < 2 ^ 32) (hne : digits ≠ []) :
    RescanExact buf k := by
  obtain ⟨rest, hrest⟩ := drop_value hend hann
  have hspelled : Spelled (buf.drop (k.stop + 1)) [10, 36] digits :=
    ⟨⟨13, 10 :: rest, hrest, rfl⟩,
      fun b hb => between_notDigit b (List.mem_append_left [13, 10, 13, 10] hb),
      hne, hann.line.allDigits⟩
  obtain ⟨c, hc, hpos⟩ := value_parsed hend hann hv
  refine ⟨hspelled.rescan.2.2, v, c, hc, ?_⟩
  have hstop := hv.stop_le
  rw [hann.start, hann.len] at hstop
  change remainLen buf k.stop = _
  rw [remainLen_of_spelled hspelled, hpos, List.length_cons, List.length_singleton]
  omega

/-- **A value without digits** is found by coincidence only. -/
theorem rescanExact_iff_madeUp (hnil : digits = []) : RescanExact buf k ↔ MadeUp buf k := by
  subst hnil
  obtain ⟨rest, hrest⟩ := drop_value hend hann
  obtain ⟨c, hc, hpos⟩ := value_parsed hend hann hv
  have hzero : uint32 [] = 0 := rfl
  rw [hzero, List.length_nil] at hpos
  -- what lies between the key and the end of its value
  have hline : buf.drop (k.stop + 1) = [10, 36, 13, 10, 13, 10] ++ buf.drop (k.stop + 7) := by
    obtain ⟨rest', hrest'⟩ := hv
    have hrest'' : rest = 13 :: 10 :: rest' := by
      rw [← hrest', hann.start, hann.len, hzero]
      exact (drop_add (s := [10, 36, 13, 10]) hrest).symm
    have hbehind : buf.drop (k.stop + 7) = rest' := by
      rw [hrest''] at hrest
      exact drop_add (s := [10, 36, 13, 10, 13, 10]) hrest
    rw [hrest, hrest'', hbehind]
    rfl
  have hremain : ∀ {u d : Bytes}, Spelled (buf.drop (k.stop + 7)) u d →
      remainLen buf k.stop = (uint32 d + 4 + (1 + (6 + u.length) + d.length)) % 2 ^ 32 ∧
      rescanEnd buf k.stop < buf.length := fun {u d} h => by
    have hspelled : Spelled (buf.drop (k.stop + 1)) ([10, 36, 13, 10, 13, 10] ++ u) d := by
      rw [hline]
      exact (spelled_append_iff between_notDigit).mpr ⟨u, rfl, h⟩
    rw [remainLen_of_spelled hspelled, List.length_append]
    exact ⟨rfl, hspelled.rescan.2.2⟩
  constructor
  · rintro ⟨hinside, v', c', hc', hexact⟩
    obtain rfl : c = c' := (Prod.mk.inj (Except.ok.inj (hc.symm.trans hc'))).2
    have hspelled := spelled_of_inside hinside
    rw [hline] at hspelled
    obtain ⟨u', -, h⟩ := (spelled_append_iff between_notDigit).mp hspelled
    refine ⟨u', _, h, ?_⟩
    change remainLen buf k.stop = _ at hexact
    rw [(hremain h).1, hpos, uint32] at hexact
    omega
  · rintro ⟨u, d, h, hsum⟩
    obtain ⟨hlen, hinside⟩ := hremain h
    refine ⟨hinside, v, c, hc, ?_⟩
    change remainLen buf k.stop = _
    rw [hlen, hpos, uint32]
    omega

/-- The scan agrees with the parser on one value. -/
theorem rescanExact_iff (hlen : buf.length < 2 ^ 32) :
    RescanExact buf k ↔ HeaderDigits buf k ∨ MadeUp buf k := by
  obtain ⟨rest, hrest⟩ := drop_value hend hann
  have hthird : buf[k.stop + 3]? = (digits ++ 13 :: 10 :: rest).head? := by
    rw [show k.stop + 3 = k.stop + 1 + 2 from rfl, ← List.getElem?_drop, hrest,
      List.head?_eq_getElem?]
    rfl
  by_cases hnil : digits = []
  · have hno : ¬ HeaderDigits buf k := by
      rintro ⟨b, hb, hdigit⟩
      rw [hthird, hnil] at hb
      obtain rfl := Option.some.inj hb
      cases hdigit
    rw [rescanExact_iff_madeUp hend hann hv hnil, or_iff_right hno]
  · obtain ⟨d, ds, rfl⟩ := List.exists_cons_of_ne_nil hnil
    refine iff_of_true (rescanExact_of_digits hend hann hv hlen hnil) (Or.inl ⟨d, hthird, ?_⟩)
    exact hann.line.allDigits d List.mem_cons_self

end Value

/-- **The splitter reads values where the parser did** exactly if every length line of a value
has a digit, or the first digits behind the value make up for the difference. -/
theorem rescan_exact_iff {buf : Bytes} {p : Parsed} (hlen : buf.length < 2 ^ 32)
    (h : redisParseCmd buf = .ok p) (ht : p.type = .mset) :
    (∀ k ∈ p.keys, RescanExact buf k) ↔ ∀ k ∈ p.keys, HeaderDigits buf k ∨ MadeUp buf k := by
  obtain ⟨hk, -⟩ := redisParseCmd_keyed h
  refine forall_congr' fun k => forall_congr' fun hmem => ?_
  obtain ⟨digits, v, hann, hv⟩ := hk.values (by rw [ht]; rfl) k hmem
  exact rescanExact_iff (hk.ranged.inside k hmem).2.2 hann hv hlen

/-- A value with leading zeros in its length line, and one that is empty. -/
def msetZeros : Bytes :=
  ascii "*5\r\n$4\r\nMSET\r\n$1\r\na\r\n$002\r\nxy\r\n$1\r\nb\r\n$0\r\n\r\n"

theorem rescan_exact_iff_zeros : ∃ p, redisParseCmd msetZeros = .ok p ∧ p.type = .mset ∧
    p.keys.length = 2 ∧ ∀ k ∈ p.keys, RescanExact msetZeros k := by
  have hparsed : redisParseCmd msetZeros =
      .ok ⟨.mset, 5, [{ start := 18, stop := 19 }, { start := 35, stop := 36 }]⟩ := by
    decide +kernel
  refine ⟨_, hparsed, rfl, rfl, (rescan_exact_iff (by decide) hparsed rfl).mpr ?_⟩
  have hfirst : HeaderDigits msetZeros { start := 18, stop := 19 } :=
    ⟨48, by decide +kernel, by decide⟩
  have hsecond : HeaderDigits msetZeros { start := 35, stop := 36 } :=
    ⟨48, by decide +kernel, by decide⟩
  exact List.forall_mem_cons.mpr ⟨Or.inl hfirst, List.forall_mem_singleton.mpr (Or.inl hsecond)⟩

/-- The first value is announced without a digit, and the scan takes the length of the next
key for it. -/
def msetNoDigits : Bytes :=
  ascii "*5\r\n$4\r\nMSET\r\n$1\r\na\r\n$\r\n\r\n$1\r\nb\r\n$1\r\n1\r\n"

theorem msetNoDigits_not_exact : ∃ p, redisParseCmd msetNoDigits = .ok p ∧ p.type = .mset ∧
    p.keys.length = 2 ∧ ¬ ∀ k ∈ p.keys, RescanExact msetNoDigits k := by
  refine ⟨⟨.mset, 5, [{ start := 18, stop := 19 }, { start := 30, stop := 31 }]⟩,
    by decide +kernel, rfl, rfl, fun h => ?_⟩
  obtain ⟨-, v, c, hc, hexact⟩ := h _ List.mem_cons_self
  have hparsed : (match redisParseBulk ⟨21, msetNoDigits.drop 21⟩ with
      | .ok r => r.2.pos
      | .error _ => 0) = 26 := by decide +kernel
  have hremain : (fragmentKey .mset msetNoDigits { start := 18, stop := 19 }).remainLen = 14 := by
    decide +kernel
  rw [hc] at hparsed
  rw [hremain, show c.pos = 26 from hparsed] at hexact
  cases hexact
