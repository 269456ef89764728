/-
# The bytes of a fragment

The length of a fragment is computed by one set of formulas and its bytes are written by
another.  They agree, and the bytes are the encoding of the fragment's command, as long as
no empty key is written after a number of several digits: the digits of that number stay in
the buffer behind the zero.
-/
import HiredisCluster.Cluster
import HiredisCluster.Lib.Matching

/-! ## Keys in the buffer -/

/-- The key of an item, and for MSET its value, stand in the buffer at `k`. -/
structure StandsFor (type : CmdType) (buf : Bytes) (k : KeyPos) (i : Item) : Prop where
  stop : k.stop = k.start + i.1.length
  drop : ∃ rest, buf.drop k.start =
    i.1 ++ 13 :: 10 :: ((if type = .mset then encodeBulk i.2 else []) ++ rest)
  short : i.2.length < 2 ^ 31

theorem Ahead.bulk_stands {buf : Bytes} {c : Cursor} {a : Bytes} {args : List Bytes}
    (h : Ahead buf c (a :: args)) : ∃ arg c', redisParseBulk c = .ok (arg, c') ∧
      arg.len = a.length ∧ buf.drop arg.start = a ++ 13 :: 10 :: encodeArgs args ∧
        Ahead buf c' args := by
  obtain ⟨pos, rest⟩ := c
  obtain rfl : rest = encodeBulk a ++ encodeArgs args := h.rest
  have hdrop : buf.drop pos = encodeBulk a ++ encodeArgs args := h.drop
  refine ⟨_, _, redisParseBulk_encode (h.short a List.mem_cons_self) pos _, rfl, ?_, rfl, ?_,
    fun b hb => h.short b (List.mem_cons_of_mem _ hb)⟩
  · have hhead : encodeBulk a ++ encodeArgs args =
        (36 :: decimal a.length ++ [13, 10]) ++ (a ++ 13 :: 10 :: encodeArgs args) := by
      simp [encodeBulk]
    have hpos : pos + 1 + (decimal a.length).length + 2 =
        pos + (36 :: decimal a.length ++ [13, 10]).length := by
      simp only [List.length_append, List.length_cons, List.length_nil]
      omega
    rw [hpos, ← List.drop_drop, hdrop, hhead, List.drop_left]
  · rw [← List.drop_drop, hdrop, List.drop_left]

theorem encodeArgs_cons (a : Bytes) (args : List Bytes) :
    encodeArgs (a :: args) = encodeBulk a ++ encodeArgs args := rfl

/-- The keys of a command without values. -/
theorem parseMoreKeys_stands {buf : Bytes} {info : CmdDef} (hx : redisArgkvx info.type = false)
    (args : List Bytes) : ∀ (i : ℕ) {c : Cursor}, Ahead buf c args →
      ∃ keys, parseMoreKeys info args.length i c = .ok keys ∧
        List.Forall₂ (StandsFor info.type buf) keys (args.map fun k => (k, [])) := by
  have hmset : info.type ≠ .mset := fun h => by simp [redisArgkvx, h] at hx
  induction args with
  | nil => exact fun i c _ => ⟨[], rfl, .nil⟩
  | cons a args ih =>
    intro i c hc
    obtain ⟨arg, c', hbulk, hlen, hdrop, hc'⟩ := hc.bulk_stands
    obtain ⟨keys, hkeys, hstands⟩ := ih (i + 1) hc'
    refine ⟨arg.keyPos :: keys, ?_, .cons ⟨?_, ⟨encodeArgs args, ?_⟩, by simp⟩ hstands⟩
    · rw [List.length_cons, parseMoreKeys, hbulk]
      simp only [hkeys, hx]
      simp
    · rw [Arg.keyPos, hlen]
    · rw [if_neg hmset, List.nil_append]
      exact hdrop

/-- The keys of MSET after the first value. -/
theorem parseMoreKeys_stands_pairs {buf : Bytes} {info : CmdDef} (ht : info.type = .mset) :
    ∀ (args : List Bytes) (v : Bytes) (i : ℕ) {c : Cursor}, args.length % 2 = 0 → i % 2 = 0 →
      (∀ a ∈ args, a.length < 2 ^ 31) → Ahead buf c (v :: args) →
      ∃ keys, parseMoreKeys info (args.length + 1) i c = .ok keys ∧
        List.Forall₂ (StandsFor .mset buf) keys (pairs args)
  | [], v, i, c, _, hi, _, hc => by
    obtain ⟨arg, c', hbulk, -, -, -⟩ := hc.bulk_stands
    refine ⟨[], ?_, .nil⟩
    rw [List.length_nil, parseMoreKeys, hbulk]
    simp [parseMoreKeys, redisArgkvx, ht, hi]
  | [_], _, _, _, h, _, _, _ => by simp at h
  | k :: v' :: args, v, i, c, heven, hi, hshort, hc => by
    obtain ⟨arg, c', hbulk, -, -, hc'⟩ := hc.bulk_stands
    obtain ⟨argk, c'', hbulk', hlen, hdrop, hc''⟩ := hc'.bulk_stands
    have hrest : args.length % 2 = 0 := by
      rw [List.length_cons, List.length_cons] at heven
      omega
    obtain ⟨keys, hkeys, hstands⟩ := parseMoreKeys_stands_pairs ht args v' (i + 2) hrest (by omega)
      (fun a ha => hshort a (by simp [ha])) hc''
    refine ⟨argk.keyPos :: keys, ?_, .cons ⟨?_, ⟨encodeArgs args, ?_⟩, hshort v' (by simp)⟩ hstands⟩
    · rw [List.length_cons, List.length_cons, parseMoreKeys, hbulk]
      dsimp only
      rw [parseMoreKeys, hbulk']
      dsimp only
      rw [hkeys]
      have hodd : ¬ (i + 1) % 2 = 0 := by omega
      simp [redisArgkvx, ht, hi, hodd]
    · rw [Arg.keyPos, hlen]
    · rw [if_pos rfl]
      exact hdrop

theorem splitRow_method (type : CmdType) :
    (splitRow type).firstkeymethod = .index ∧ (splitRow type).firstkeypos = 1 := by
  unfold splitRow
  split <;> exact ⟨rfl, rfl⟩

/-- From the first key on. -/
theorem parseKeysFrom_stands {buf : Bytes} {type : CmdType} {narg : ℕ} {arg : Arg} {c : Cursor}
    {a : Bytes} {args : List Bytes} (htype : (splitRow type).type = type)
    (ht : Splittable type = true) (hwf : wellFormed type (a :: args) = true)
    (hnarg : narg = args.length + 2) (hshort : ∀ b ∈ args, b.length < 2 ^ 31)
    (hlen : arg.len = a.length) (hdrop : buf.drop arg.start = a ++ 13 :: 10 :: encodeArgs args)
    (hc : Ahead buf c args) :
    ∃ keys, parseKeysFrom (splitRow type) narg arg c = .ok ⟨type, narg, keys⟩ ∧
      List.Forall₂ (StandsFor type buf) keys (items type (a :: args)) := by
  have hmig : ¬ (type = .migrate ∧ arg.len = 0 ∧ (splitRow type).firstkeymethod = .index ∧
      (splitRow type).firstkeypos = 3) := by
    rintro ⟨-, -, -, h⟩
    rw [(splitRow_method type).2] at h
    cases h
  have hsplit : (redisArgx type || redisArgkvx type) = true := ht
  unfold parseKeysFrom
  rw [htype, if_neg hmig, if_pos hsplit]
  by_cases hmset : type = .mset
  · subst hmset
    have heven : (a :: args).length % 2 = 0 := by simpa [wellFormed] using hwf
    obtain ⟨v, args, rfl⟩ : ∃ v rest, args = v :: rest := by
      cases args with
      | nil => simp at heven
      | cons v rest => exact ⟨v, rest, rfl⟩
    rw [List.length_cons, List.length_cons] at heven
    rw [List.length_cons] at hnarg
    obtain ⟨keys, hkeys, hstands⟩ := parseMoreKeys_stands_pairs
      (rfl : (splitRow .mset).type = .mset) args v 2 (by omega) rfl (fun b hb => hshort b (List.mem_cons_of_mem _ hb)) hc
    refine ⟨arg.keyPos :: keys, ?_, .cons ⟨?_, ⟨encodeArgs args, ?_⟩, hshort v (by simp)⟩ hstands⟩
    · rw [if_neg (by omega), show narg - 2 = args.length + 1 by omega, hkeys]
    · rw [Arg.keyPos, hlen]
    · rw [if_pos rfl]
      exact hdrop
  · have hkvx : redisArgkvx type = false := by simp [redisArgkvx, hmset]
    have hrow : redisArgkvx (splitRow type).type = false := by rw [htype]; exact hkvx
    obtain ⟨keys, hkeys, hstands⟩ := parseMoreKeys_stands hrow args 2 hc
    rw [htype] at hstands
    refine ⟨arg.keyPos :: keys, ?_, ?_⟩
    · rw [if_neg (by simp [hkvx]), show narg - 2 = args.length by omega, hkeys]
    · rw [items, if_neg hmset]
      refine .cons ⟨?_, ⟨encodeArgs args, ?_⟩, by simp⟩ hstands
      · rw [Arg.keyPos, hlen]
      · rw [if_neg hmset, List.nil_append]
        exact hdrop

/-- The parser finds each key where its item stands. -/
theorem redisParseCmd_stands {name : Bytes} {args : List Bytes} {type : CmdType}
    (hname : namedType name = some type) (hwf : wellFormed type args = true)
    (hlen : (encodeCommand (name :: args)).length < 2 ^ 31) :
    ∃ keys, redisParseCmd (encodeCommand (name :: args)) = .ok ⟨type, args.length + 1, keys⟩ ∧
      List.Forall₂ (StandsFor type (encodeCommand (name :: args))) keys (items type args) := by
  obtain ⟨hinfo, htype⟩ := commandInfo_named hname args
  obtain ⟨hargc, hshort⟩ := encodeCommand_bounds hlen
  obtain ⟨a, args, rfl⟩ : ∃ a rest, args = a :: rest := by
    cases args with
    | nil => simp [wellFormed] at hwf
    | cons a rest => exact ⟨a, rest, rfl⟩
  have har := (arityOk_iff _ hargc).mpr (splitRow_accepts hname hwf).1.arity
  obtain ⟨c, hhead, hc⟩ := parseHeader_encode (List.cons_ne_nil _ _) hlen
  obtain ⟨arg0, c0, hbulk0, ha0, hc0⟩ := hc.bulk_cons
  obtain ⟨arg1, c1, hbulk1, ha1, -⟩ := hc0.bulk_cons
  obtain ⟨arg1', c1', hbulk1', hlen1, hdrop1, hc1⟩ := hc0.bulk_stands
  rw [hbulk1] at hbulk1'
  cases hbulk1'
  obtain ⟨keys, hkeys, hstands⟩ := parseKeysFrom_stands htype (namedType_splittable hname) hwf rfl
    (fun b hb => hshort b (by simp [hb])) hlen1 hdrop1 hc1
  have hlookup : redisLookupCmd (arg0.bytes (encodeCommand (name :: a :: args)))
      ((some arg1).map (Arg.bytes (encodeCommand (name :: a :: args)))) = some (splitRow type) := by
    rw [ha0.bytes, Option.map_some, ha1.bytes]
    exact hinfo
  obtain ⟨hmethod, hpos⟩ := splitRow_method type
  refine ⟨keys, ?_, hstands⟩
  rw [redisParseCmd, hhead]
  dsimp only
  rw [hbulk0]
  dsimp only
  rw [if_pos (by simp), hbulk1]
  dsimp only
  rw [parseNamed_eq hlookup har (by rw [hmethod]; decide), Option.elim_some, parseKeys, hmethod, hpos]
  exact hkeys

/-! ## What is written -/

/-- The bytes that are written for a fragment. -/
def fragmentWritten (type : CmdType) (buf : Bytes) (keys : List KeyPos) : Bytes :=
  let numStr := decimal (fragmentNarg type keys.length)
  42 :: numStr ++ fragmentHeader type ++ writeKeys (type = .mset) buf numStr keys

/-- No empty key is written after a number of several digits; `n` is the number before. -/
def NoDigitsLeft : ℕ → List ℕ → Prop
  | _, [] => True
  | n, l :: ls => (l = 0 → n < 10) ∧ NoDigitsLeft l ls

instance : (n : ℕ) → (ls : List ℕ) → Decidable (NoDigitsLeft n ls)
  | _, [] => isTrue trivial
  | _, l :: ls =>
    have := instDecidableNoDigitsLeft l ls
    inferInstanceAs (Decidable (_ ∧ _))

theorem decimal_zero : decimal 0 = [48] := by decide

theorem length_decimal_le_iff {n k : ℕ} (hk : 0 < k) : (decimal n).length ≤ k ↔ n < 10 ^ k := by
  rw [decimal, List.length_map]
  exact Nat.length_toDigits_le_iff (by decide) hk

theorem decimal_drop_one {n : ℕ} : (decimal n).drop 1 = [] ↔ n < 10 := by
  rw [List.drop_eq_nil_iff, length_decimal_le_iff Nat.one_pos, Nat.pow_one]

/-- A number is written as it is, unless it is zero and digits are left. -/
theorem hiItoa_decimal {n l : ℕ} (h : l = 0 → n < 10) : hiItoa (decimal n) l = decimal l := by
  unfold hiItoa
  split
  · rename_i hl
    rw [hl, decimal_zero, decimal_drop_one.mpr (h hl)]
  · rfl

theorem length_hiItoa_ge (prev : Bytes) (l : ℕ) : (decimal l).length ≤ (hiItoa prev l).length := by
  unfold hiItoa
  split
  · rename_i hl
    rw [hl, decimal_zero, List.length_cons]
    exact Nat.le_add_left _ _
  · exact Nat.le_refl _

/-- Digits are left behind the zero. -/
theorem length_hiItoa_gt {n : ℕ} (h : 10 ≤ n) : (decimal 0).length < (hiItoa (decimal n) 0).length := by
  have hleft : (decimal n).drop 1 ≠ [] := fun hnil => by
    have := decimal_drop_one.mp hnil
    omega
  have hpos := List.length_pos_of_ne_nil hleft
  have hzero : hiItoa (decimal n) 0 = 48 :: (decimal n).drop 1 := if_pos rfl
  rw [decimal_zero, hzero]
  simp only [List.length_cons, List.length_nil]
  omega

/-- The value of a pair is copied with the key. -/
theorem remainLen_stands {buf : Bytes} {k : KeyPos} {i : Item} (h : StandsFor .mset buf k i) :
    remainLen buf k.stop = 2 + (encodeBulk i.2).length := by
  obtain ⟨rest, hdrop⟩ := h.drop
  have hstop : buf.drop (k.stop + 1) =
      10 :: 36 :: (decimal i.2.length ++ 13 :: 10 :: (i.2 ++ 13 :: 10 :: rest)) := by
    have hsucc : buf.drop (k.start + (i.1.length + 1)) =
        10 :: ((if CmdType.mset = .mset then encodeBulk i.2 else []) ++ rest) := by
      rw [← List.drop_drop, hdrop, ← List.drop_drop, List.drop_left]
      rfl
    rw [h.stop, Nat.add_assoc, hsucc, if_pos rfl]
    simp [encodeBulk]
  obtain ⟨d, ds, hd⟩ := List.exists_cons_of_ne_nil (decimal_ne_nil i.2.length)
  have hdigit : isDigit d = true := isDigit_of_mem_decimal (n := i.2.length) (by rw [hd]; simp)
  have hskip : (List.takeWhile (fun b => !isDigit b)
      (10 :: 36 :: (decimal i.2.length ++ 13 :: 10 :: (i.2 ++ 13 :: 10 :: rest)))).length = 2 := by
    rw [hd, List.cons_append]
    simp [hdigit, show isDigit 10 = false from rfl,
      show isDigit 36 = false from rfl]
  have hshort := h.short
  have hlen : (decimal i.2.length).length ≤ 10 :=
    (length_decimal_le_iff (by decide)).mpr (Nat.lt_trans hshort (by decide))
  unfold remainLen
  dsimp only
  rw [hstop, hskip, List.drop_succ_cons, List.drop_succ_cons, List.drop_zero,
    parseUint_decimal (by omega)]
  simp only [encodeBulk, List.length_append, List.length_cons, List.length_nil]
  omega

/-- The encoding of an item: its key, and for MSET its value. -/
def encodeItem (type : CmdType) (i : Item) : Bytes := encodeArgs (itemArgs type i)

/-- A key as it is written, with the number `numStr` for its length. -/
theorem writeKeys_cons {type : CmdType} {buf : Bytes} {k : KeyPos} {i : Item}
    (h : StandsFor type buf k i) (numStr : Bytes) (ks : List KeyPos) :
    writeKeys (type = .mset) buf numStr (fragmentKey type buf k :: ks) =
      36 :: hiItoa numStr i.1.length ++ [13, 10] ++ i.1 ++ [13, 10] ++
        (if type = .mset then encodeBulk i.2 else []) ++
        writeKeys (type = .mset) buf (hiItoa numStr i.1.length) ks := by
  have hlen : (fragmentKey type buf k).len = i.1.length := by
    show k.stop - k.start = _
    rw [h.stop, Nat.add_sub_cancel_left]
  obtain ⟨rest, hdrop⟩ := h.drop
  rw [writeKeys, hlen]
  show 36 :: hiItoa numStr i.1.length ++ [13, 10] ++
    (buf.drop k.start).take (i.1.length + (fragmentKey type buf k).remainLen) ++ _ ++ _ = _
  by_cases hmset : type = .mset
  · subst hmset
    have hremain : (fragmentKey .mset buf k).remainLen = 2 + (encodeBulk i.2).length :=
      remainLen_stands h
    rw [if_pos rfl] at hdrop
    have hcopied : (buf.drop k.start).take (i.1.length + (2 + (encodeBulk i.2).length)) =
        i.1 ++ [13, 10] ++ encodeBulk i.2 := by
      have hlength : i.1.length + (2 + (encodeBulk i.2).length) =
          (i.1 ++ [13, 10] ++ encodeBulk i.2).length := by
        simp only [List.length_append, List.length_cons, List.length_nil]
        omega
      rw [hdrop, hlength, show i.1 ++ 13 :: 10 :: (encodeBulk i.2 ++ rest) =
        i.1 ++ [13, 10] ++ encodeBulk i.2 ++ rest by simp, List.take_left]
    rw [hremain, hcopied, if_pos rfl]
    simp
  · have hremain : (fragmentKey type buf k).remainLen = 0 := if_neg hmset
    have hcopied : (buf.drop k.start).take (i.1.length + 0) = i.1 := by
      rw [hdrop, Nat.add_zero, List.take_left]
    rw [hremain, hcopied, if_neg hmset]
    simp [hmset]

theorem encodeItem_eq (type : CmdType) (i : Item) :
    encodeItem type i = 36 :: decimal i.1.length ++ [13, 10] ++ i.1 ++ [13, 10] ++
      (if type = .mset then encodeBulk i.2 else []) := by
  unfold encodeItem itemArgs encodeArgs
  split <;> simp [encodeBulk]

section Writing

variable {type : CmdType} {buf : Bytes} {ks : List KeyPos} {is : List Item}

/-- Where no digits are left, the items are written as they are encoded. -/
theorem writeKeys_clean (h : List.Forall₂ (StandsFor type buf) ks is) :
    ∀ {n : ℕ}, NoDigitsLeft n (is.map fun i => i.1.length) →
      writeKeys (type = .mset) buf (decimal n) (ks.map (fragmentKey type buf)) =
        is.flatMap (encodeItem type) := by
  induction h with
  | nil => exact fun _ => rfl
  | cons hk _ ih =>
    intro n hn
    obtain ⟨hzero, hn⟩ := hn
    rw [List.map_cons, writeKeys_cons hk, hiItoa_decimal hzero, ih hn, List.flatMap_cons,
      encodeItem_eq]

/-- At least what is encoded is written. -/
theorem length_writeKeys_ge (h : List.Forall₂ (StandsFor type buf) ks is) : ∀ numStr : Bytes,
    (is.flatMap (encodeItem type)).length ≤
      (writeKeys (type = .mset) buf numStr (ks.map (fragmentKey type buf))).length := by
  induction h with
  | nil => exact fun _ => Nat.le_refl _
  | @cons k i _ _ hk _ ih =>
    intro numStr
    have hnum := length_hiItoa_ge numStr i.1.length
    have hrest := ih (hiItoa numStr i.1.length)
    rw [List.map_cons, writeKeys_cons hk, List.flatMap_cons, encodeItem_eq]
    simp only [List.length_append, List.length_cons] at hrest ⊢
    omega

/-- Where digits are left, more is written. -/
theorem length_writeKeys_gt (h : List.Forall₂ (StandsFor type buf) ks is) :
    ∀ {n : ℕ}, ¬ NoDigitsLeft n (is.map fun i => i.1.length) →
      (is.flatMap (encodeItem type)).length <
        (writeKeys (type = .mset) buf (decimal n) (ks.map (fragmentKey type buf))).length := by
  induction h with
  | nil => exact fun h => absurd trivial h
  | @cons k i _ _ hk hks ih =>
    intro n hn
    rw [List.map_cons, writeKeys_cons hk, List.flatMap_cons, encodeItem_eq]
    by_cases hzero : i.1.length = 0 → n < 10
    · have hrest := ih fun h => hn ⟨hzero, h⟩
      rw [hiItoa_decimal hzero]
      simp only [List.length_append, List.length_cons] at hrest ⊢
      omega
    · obtain ⟨hlen, hge⟩ := Classical.not_imp.mp hzero
      have hnum := length_hiItoa_gt (Nat.not_lt.mp hge)
      have hrest := length_writeKeys_ge hks (hiItoa (decimal n) 0)
      rw [hlen]
      simp only [List.length_append, List.length_cons] at hrest ⊢
      omega

end Writing

/-! ## The computed length -/

/-- The bytes that encode the fragment of some items. -/
def fragmentEncoding (type : CmdType) (is : List Item) : Bytes :=
  encodeCommand (fragmentName type :: is.flatMap (itemArgs type))

theorem length_flatMap_itemArgs (type : CmdType) (is : List Item) :
    (fragmentName type :: is.flatMap (itemArgs type)).length = fragmentNarg type is.length := by
  unfold fragmentNarg itemArgs
  split
  · rw [List.length_cons, List.length_flatMap]
    simp [Nat.mul_comm]
  · rw [List.length_cons, List.length_flatMap]
    simp

theorem fragmentEncoding_eq {name : Bytes} {type : CmdType} (h : namedType name = some type)
    (is : List Item) : fragmentEncoding type is =
      42 :: decimal (fragmentNarg type is.length) ++ fragmentHeader type ++
        is.flatMap (encodeItem type) := by
  have hitems : encodeArgs (is.flatMap (itemArgs type)) = is.flatMap (encodeItem type) := by
    unfold encodeArgs encodeItem
    rw [List.flatMap_assoc]
    rfl
  have hname : [13, 10] ++ encodeBulk (fragmentName type) = fragmentHeader type := by
    rcases namedType_cases h with rfl | rfl | rfl | rfl <;> decide
  rw [fragmentEncoding, encodeCommand, length_flatMap_itemArgs, encodeArgs_cons, hitems, ← hname]
  simp

/-- The formulas count what the encoding holds. -/
theorem fragmentLen_eq {name : Bytes} {type : CmdType} (hname : namedType name = some type)
    {buf : Bytes} {ks : List KeyPos} {is : List Item}
    (h : List.Forall₂ (StandsFor type buf) ks is) (hlen : (fragmentEncoding type is).length < 2 ^ 32) :
    fragmentLen type (ks.map (fragmentKey type buf)) = (fragmentEncoding type is).length := by
  have hkey : ∀ {k : KeyPos} {i : Item}, StandsFor type buf k i →
      (fragmentKey type buf k).len + uintLen (fragmentKey type buf k).len +
        (fragmentKey type buf k).remainLen + (if type = .mset then 3 else 5) =
          (encodeItem type i).length := by
    intro k i hk
    have hl : (fragmentKey type buf k).len = i.1.length := by
      show k.stop - k.start = _
      rw [hk.stop, Nat.add_sub_cancel_left]
    rw [hl, encodeItem_eq, uintLen]
    by_cases hmset : type = .mset
    · subst hmset
      have hremain : (fragmentKey .mset buf k).remainLen = 2 + (encodeBulk i.2).length :=
        remainLen_stands hk
      rw [hremain, if_pos rfl, if_pos rfl]
      simp only [List.length_append, List.length_cons, List.length_nil]
      omega
    · have hremain : (fragmentKey type buf k).remainLen = 0 := if_neg hmset
      rw [hremain, if_neg hmset, if_neg hmset]
      simp only [List.length_append, List.length_cons, List.length_nil]
      omega
  have hsum : ((ks.map (fragmentKey type buf)).map fun k =>
      k.len + uintLen k.len + k.remainLen).sum +
        (if type = .mset then 3 else 5) * (ks.map (fragmentKey type buf)).length =
          (is.flatMap (encodeItem type)).length := by
    clear hlen
    induction h with
    | nil => rfl
    | @cons k i _ _ hk _ ih =>
      have hone := hkey hk
      simp only [List.map_cons, List.sum_cons, List.length_cons, List.flatMap_cons,
        List.length_append, Nat.mul_add] at ih ⊢
      omega
  have hcount : (ks.map (fragmentKey type buf)).length = is.length := by
    rw [List.length_map, h.length_eq]
  rw [fragmentEncoding_eq hname] at hlen ⊢
  unfold fragmentLen
  rw [hsum, hcount, uintLen, Nat.mod_eq_of_lt]
  · simp only [List.length_append, List.length_cons]
    omega
  · simp only [List.length_append, List.length_cons] at hlen
    omega

/-! ## Fragments -/

/-- A fragment is what is written for it, it is as long as was computed, and it is the
encoding of its part of the command. -/
structure FragmentExact (type : CmdType) (buf : Bytes) (is : List Item) (f : Cmd) : Prop where
  length : f.cmd.length = fragmentLen type f.keys
  written : (fragmentWritten type buf f.keys).length = fragmentLen type f.keys
  bytes : f.cmd = encodeCommand (fragmentArgs type is f.slotNum)

/-- No digits are left in the fragment of the slot of a key. -/
def CleanSlot (type : CmdType) (is : List Item) (slot : ℤ) : Prop :=
  let own := is.filter fun i => slotOf i.1 = slot
  NoDigitsLeft (fragmentNarg type own.length) (own.map fun i => i.1.length)

instance (type : CmdType) (is : List Item) (slot : ℤ) : Decidable (CleanSlot type is slot) :=
  inferInstanceAs (Decidable (NoDigitsLeft _ _))

/-- A fragment that has the keys of some items. -/
theorem fragmentBytes_exact_iff {name : Bytes} {type : CmdType} (hname : namedType name = some type)
    {buf : Bytes} {ks : List KeyPos} {is : List Item}
    (h : List.Forall₂ (StandsFor type buf) ks is) (hlen : (fragmentEncoding type is).length < 2 ^ 32) :
    ((fragmentWritten type buf (ks.map (fragmentKey type buf))).length =
        fragmentLen type (ks.map (fragmentKey type buf)) ∧
      fragmentBytes type buf (ks.map (fragmentKey type buf)) = fragmentEncoding type is) ↔
    NoDigitsLeft (fragmentNarg type is.length) (is.map fun i => i.1.length) := by
  have hcount : (ks.map (fragmentKey type buf)).length = is.length := by
    rw [List.length_map, h.length_eq]
  have hcomputed := fragmentLen_eq hname h hlen
  constructor
  · rintro ⟨hwritten, -⟩
    by_contra hleft
    have hmore := length_writeKeys_gt h hleft
    rw [hcomputed, fragmentEncoding_eq hname, fragmentWritten, hcount] at hwritten
    simp only [List.length_append, List.length_cons] at hwritten
    omega
  · intro hclean
    have hwritten : fragmentWritten type buf (ks.map (fragmentKey type buf)) =
        fragmentEncoding type is := by
      rw [fragmentWritten, hcount, fragmentEncoding_eq hname, writeKeys_clean h hclean]
    refine ⟨by rw [hwritten, hcomputed], ?_⟩
    show (fragmentWritten type buf _ ++ List.replicate _ 0).take _ = _
    rw [hwritten, hcomputed, List.take_left]

/-! ## Whole commands -/

theorem items_flatMap_args {type : CmdType} {args : List Bytes} (hwf : wellFormed type args = true) :
    (items type args).flatMap (itemArgs type) = args := by
  simp only [wellFormed, Bool.and_eq_true, decide_eq_true_eq, Bool.or_eq_true] at hwf
  unfold items itemArgs
  by_cases hmset : type = .mset
  · have heven : args.length % 2 = 0 := hwf.2.resolve_left (fun h => h hmset)
    simp only [hmset, if_true]
    have hpairs : ∀ args : List Bytes, args.length % 2 = 0 →
        (pairs args).flatMap (fun i => [i.1, i.2]) = args := by
      intro args
      induction args using pairs.induct with
      | case1 k v rest ih =>
        intro h
        have hrest : rest.length % 2 = 0 := by
          rw [List.length_cons, List.length_cons] at h
          omega
        rw [pairs, List.flatMap_cons, ih hrest]
        rfl
      | case2 args hshort =>
        intro h
        rcases args with _ | ⟨k, _ | ⟨v, rest⟩⟩
        · rfl
        · simp at h
        · exact absurd rfl (hshort k v rest)
    exact hpairs args heven
  · simp only [hmset, if_false]
    rw [List.flatMap_map]
    simp

theorem length_name {name : Bytes} {type : CmdType} (h : namedType name = some type) :
    name.length = (fragmentName type).length := by
  have hup : ∀ {s : Bytes}, toUpper name = s → name.length = s.length := by
    rintro s rfl
    rw [toUpper, List.length_map]
  unfold namedType at h
  split at h
  · cases h
    exact (hup (s := ascii "MGET") ‹_›).trans (by decide)
  · split at h
    · cases h
      exact (hup (s := ascii "DEL") ‹_›).trans (by decide)
    · split at h
      · cases h
        exact (hup (s := ascii "EXISTS") ‹_›).trans (by decide)
      · split at h
        · cases h
          exact (hup (s := ascii "MSET") ‹_›).trans (by decide)
        · cases h

/-- A fragment is no longer than the command. -/
theorem length_fragmentEncoding_le {name : Bytes} {args : List Bytes} {type : CmdType}
    (hname : namedType name = some type) (hwf : wellFormed type args = true) (p : Item → Bool) :
    (fragmentEncoding type ((items type args).filter p)).length ≤
      (encodeCommand (name :: args)).length := by
  have hargs : ∀ is : List Item, ((is.filter p).flatMap (encodeItem type)).length ≤
      (is.flatMap (encodeItem type)).length := by
    intro is
    induction is with
    | nil => exact Nat.le_refl _
    | cons i is ih =>
      by_cases hp : p i = true
      · rw [List.filter_cons_of_pos hp, List.flatMap_cons, List.flatMap_cons]
        simp only [List.length_append]
        omega
      · rw [List.filter_cons_of_neg hp, List.flatMap_cons]
        simp only [List.length_append]
        omega
  have hwhole : (encodeCommand (name :: args)).length =
      (fragmentEncoding type (items type args)).length := by
    rw [fragmentEncoding, items_flatMap_args hwf, encodeCommand, encodeCommand, encodeArgs_cons,
      encodeArgs_cons, encodeBulk, encodeBulk]
    simp [length_name hname]
  have hnarg : (decimal (fragmentNarg type ((items type args).filter p).length)).length ≤
      (decimal (fragmentNarg type (items type args).length)).length := by
    have hle := List.length_filter_le p (items type args)
    have hmono : fragmentNarg type ((items type args).filter p).length ≤
        fragmentNarg type (items type args).length := by
      unfold fragmentNarg
      split <;> omega
    rw [length_decimal_le_iff (List.length_pos_of_ne_nil (decimal_ne_nil _))]
    exact Nat.lt_of_le_of_lt hmono
      ((length_decimal_le_iff (List.length_pos_of_ne_nil (decimal_ne_nil _))).mp (Nat.le_refl _))
  have hrest := hargs (items type args)
  rw [hwhole, fragmentEncoding_eq hname, fragmentEncoding_eq hname]
  simp only [List.length_append, List.length_cons]
  omega

/-- Keys have the slots of their items. -/
theorem StandsFor.slot_eq {type : CmdType} {buf : Bytes} {k : KeyPos} {i : Item}
    (h : StandsFor type buf k i) : k.slot buf = slotOf i.1 := by
  obtain ⟨rest, hdrop⟩ := h.drop
  have hbytes : k.bytes buf = i.1 := by
    rw [KeyPos.bytes, hdrop, h.stop, Nat.add_sub_cancel_left, List.take_left]
  rw [KeyPos.slot, hbytes]
  rfl

/-- **The fragments of a command are exact if and only if** in none of them an empty key is
written after a number of several digits. -/
theorem fragments_exact_iff {name : Bytes} {args : List Bytes} {type : CmdType}
    (hname : namedType name = some type) (hwf : wellFormed type args = true)
    (hlen : (encodeCommand (name :: args)).length < 2 ^ 31) :
    ∃ keys, redisParseCmd (encodeCommand (name :: args)) = .ok ⟨type, args.length + 1, keys⟩ ∧
      ∀ id : ℕ, (∀ f ∈ (collectFragments type (encodeCommand (name :: args)) id [] keys).2.map
          (finishFragment type (encodeCommand (name :: args))),
        FragmentExact type (encodeCommand (name :: args)) (items type args) f) ↔
      ∀ i ∈ items type args, CleanSlot type (items type args) (slotOf i.1) := by
  obtain ⟨keys, hparse, hstands⟩ := redisParseCmd_stands hname hwf hlen
  refine ⟨keys, hparse, fun id => ?_⟩
  set buf := encodeCommand (name :: args) with hbuf
  have hsplit := (@collectFragments_split type buf keys id [] [] (split_nil type buf)).finish
  rw [List.nil_append] at hsplit
  have hown : ∀ s : ℤ, List.Forall₂ (StandsFor type buf) (keys.filter fun k => k.slot buf = s)
      ((items type args).filter fun i => slotOf i.1 = s) := by
    intro s
    exact List.rel_filter (fun k i hk => by simp only [hk.slot_eq]) hstands
  have hexact : ∀ f ∈ (collectFragments type buf id [] keys).2.map (finishFragment type buf),
      FragmentExact type buf (items type args) f ↔ CleanSlot type (items type args) f.slotNum := by
    intro f hf
    have hbytes : f.cmd = fragmentBytes type buf f.keys := by
      obtain ⟨g, -, rfl⟩ := List.mem_map.mp hf
      rfl
    have hshort : (fragmentEncoding type
        ((items type args).filter fun i => slotOf i.1 = f.slotNum)).length < 2 ^ 32 :=
      Nat.lt_of_le_of_lt (length_fragmentEncoding_le hname hwf _) (Nat.lt_trans hlen (by decide))
    have hiff := fragmentBytes_exact_iff hname (hown f.slotNum) hshort
    rw [← hsplit.keys f hf, ← hbytes] at hiff
    refine Iff.trans ⟨fun h => ⟨h.written, h.bytes⟩, fun h => ⟨?_, h.1, h.2⟩⟩ hiff
    rw [hbytes]
    show ((fragmentWritten type buf f.keys ++ List.replicate _ 0).take _).length = _
    simp
  constructor
  · intro h i hi
    obtain ⟨k, hk, hki⟩ := Matching.exists_left hstands hi
    obtain ⟨f, hf, hfs⟩ := hsplit.complete k hk
    rw [← hki.slot_eq, ← hfs]
    exact (hexact f hf).mp (h f hf)
  · intro h f hf
    obtain ⟨i, hi, his⟩ : ∃ i ∈ items type args, slotOf i.1 = f.slotNum := by
      have hkeys := hsplit.keys f hf
      have hne := hsplit.nonempty f hf
      cases hitems : (items type args).filter fun i => slotOf i.1 = f.slotNum with
      | nil =>
        have hnone := hown f.slotNum
        rw [hitems] at hnone
        rw [hkeys, List.forall₂_nil_right_iff.mp hnone] at hne
        exact absurd rfl hne
      | cons i is =>
        have hmem : i ∈ (items type args).filter fun i => slotOf i.1 = f.slotNum := by
          rw [hitems]
          exact List.mem_cons_self
        exact ⟨i, (List.mem_filter.mp hmem).1, by simpa using (List.mem_filter.mp hmem).2⟩
    exact (hexact f hf).mpr (his ▸ h i hi)

/-- `MSET` of four keys. -/
def msetArgs : List Bytes := [ascii "a", ascii "1", ascii "k", [], [], ascii "2", ascii "b", ascii "3"]

theorem fragments_exact_iff_mset :
    ∃ keys, redisParseCmd (encodeCommand (ascii "MSET" :: msetArgs)) = .ok ⟨.mset, 9, keys⟩ ∧
      ∀ f ∈ (collectFragments .mset (encodeCommand (ascii "MSET" :: msetArgs)) 0 [] keys).2.map
        (finishFragment .mset (encodeCommand (ascii "MSET" :: msetArgs))),
          FragmentExact .mset (encodeCommand (ascii "MSET" :: msetArgs)) (items .mset msetArgs) f := by
  have hname : namedType (ascii "MSET") = some .mset := by decide
  have hwf : wellFormed .mset msetArgs = true := by decide
  obtain ⟨keys, hparse, hiff⟩ := fragments_exact_iff hname hwf (by decide +kernel)
  exact ⟨keys, hparse, (hiff 0).mpr (by decide +kernel)⟩

/-- `DEL` of nine empty keys, and of another. -/
def emptyKeys : List Bytes := List.replicate 9 [] ++ [ascii "a"]

/-- **An empty key is written with the digits of another number**: the fragment of the nine
keys has ten arguments, and each key gets the length `00`. -/
theorem emptyKeys_not_exact : namedType (ascii "DEL") = some .del ∧
    wellFormed .del emptyKeys = true ∧
    ¬ ∃ keys, redisParseCmd (encodeCommand (ascii "DEL" :: emptyKeys)) = .ok ⟨.del, 11, keys⟩ ∧
      ∀ f ∈ (collectFragments .del (encodeCommand (ascii "DEL" :: emptyKeys)) 0 [] keys).2.map
        (finishFragment .del (encodeCommand (ascii "DEL" :: emptyKeys))),
          FragmentExact .del (encodeCommand (ascii "DEL" :: emptyKeys)) (items .del emptyKeys) f := by
  refine ⟨by decide, by decide, ?_⟩
  rintro ⟨keys, hparse, h⟩
  have hwritten : ((redisParseCmd (encodeCommand (ascii "DEL" :: emptyKeys))).toOption.elim [] fun p =>
      (collectFragments .del (encodeCommand (ascii "DEL" :: emptyKeys)) 0 [] p.keys).2.map fun f =>
        ((fragmentWritten .del (encodeCommand (ascii "DEL" :: emptyKeys)) f.keys).length,
          fragmentLen .del f.keys)) = [(77, 68), (20, 20)] := by decide +kernel
  rw [hparse] at hwritten
  have hall : ∀ p ∈ (collectFragments .del (encodeCommand (ascii "DEL" :: emptyKeys)) 0 [] keys).2.map
      fun f => ((fragmentWritten .del (encodeCommand (ascii "DEL" :: emptyKeys)) f.keys).length,
        fragmentLen .del f.keys), p.1 = p.2 := by
    intro p hp
    obtain ⟨f, hf, rfl⟩ := List.mem_map.mp hp
    exact (h _ (List.mem_map_of_mem hf)).written
  have hsame := hall (77, 68)
  rw [show (collectFragments .del (encodeCommand (ascii "DEL" :: emptyKeys)) 0 [] keys).2.map
      (fun f => ((fragmentWritten .del (encodeCommand (ascii "DEL" :: emptyKeys)) f.keys).length,
        fragmentLen .del f.keys)) = [(77, 68), (20, 20)] from hwritten] at hsame
  exact absurd (hsame List.mem_cons_self) (by decide)
