/-
# The hash slot of a key

`crc16` reads a table; the check of the specification, CRC-16/XMODEM, is fed bit by bit.
Both give the same number for every string of bytes, and `keyHashSlot` takes it of the tag
of the key.

Embedded source: `redisClusterGetSlotByKey`, `redisClusterGetNodeByKey` (`hircluster.c`) and
the body of `crc16` (`crc16.c`) with its conversions.
-/
import HiredisCluster.Lib.Crc
import HiredisCluster.Slotmap
import HiredisCluster.Splitting
import Mathlib.Data.List.TakeWhile

open Program

variable {ω : Type}

/-- `redisClusterGetSlotByKey`. -/
def redisClusterGetSlotByKey (key : Bytes) : ℕ := keyHashSlot (cstr key)

/-- `redisClusterGetNodeByKey`. -/
def redisClusterGetNodeByKey (key : Bytes) : Prog ω (Option NodeId) :=
  nodeGetByTable (redisClusterGetSlotByKey key)

/-- The body of the loop of `crc16` as C computes it: on `int`s, where a `char` from 0x80
on is negative, and with the result cut to a `uint16_t`. -/
def crc16Step (crc : BitVec 16) (b : UInt8) : BitVec 16 :=
  let index := ((crc.setWidth 32 >>> 8) ^^^ b.toBitVec.signExtend 32) &&& 0xFF#32
  ((crc.setWidth 32 <<< 8) ^^^ BitVec.ofNat 32 (crc16tab.getD index.toNat 0)).setWidth 16

/-! ## The specification -/

/-- The bits of a byte, the highest first. -/
def byteBits (b : ℕ) : List Bool := (List.range 8).map fun i => b.testBit (7 - i)

/-- CRC-16/XMODEM: the polynomial 0x1021, from zero, without reflection. -/
def xmodem (buf : Bytes) : BitVec 16 :=
  Crc.feed 0x1021#16 0#16 (buf.flatMap fun b => byteBits b.toNat)

/-- The tag of a key: what stands between the first `{` and the first `}` after it, if
that is something, and otherwise the whole key. -/
inductive IsTag (key : Bytes) : Bytes → Prop where
  | braced {before tag after : Bytes} (hkey : key = before ++ 123 :: (tag ++ 125 :: after))
    (hopen : 123 ∉ before) (hclose : 125 ∉ tag) (hne : tag ≠ []) : IsTag key tag
  | whole (h : ∀ before tag after, key = before ++ 123 :: (tag ++ 125 :: after) →
      123 ∉ before → 125 ∉ tag → tag = []) : IsTag key key

/-! ## The check -/

/-- The table holds the remainder of each byte. -/
theorem crc16tab_eq : ∀ j < 256,
    crc16tab.getD j 0 = (Crc.feed 0x1021#16 0#16 (byteBits j)).toNat := by decide +kernel

theorem byteBits_index (crc : BitVec 16) (b : UInt8) :
    List.zipWith xor (Crc.topBits 8 crc) (byteBits b.toNat) =
      byteBits ((crc.toNat / 2 ^ 8 ^^^ b.toNat) % 2 ^ 8) := by
  refine List.ext_getElem? fun i => ?_
  by_cases hi : i < 8
  · rw [List.getElem?_zipWith, Crc.getElem?_topBits hi]
    have h7 : 7 - i < 8 := by omega
    have h15 : i < 16 := by omega
    have hpos : 16 - 1 - i = 7 - i + 8 := by omega
    simp only [byteBits, List.getElem?_map, List.getElem?_range hi, Option.map_some]
    rw [Nat.testBit_mod_two_pow, Nat.testBit_xor, Nat.testBit_div_two_pow, BitVec.getMsbD]
    simp [h7, h15, BitVec.getLsbD, hpos]
  · simp [byteBits, hi]

theorem crc16_step (crc : BitVec 16) (b : UInt8) :
    (crc.toNat * 2 ^ 8 % 2 ^ 16) ^^^
        crc16tab.getD (((crc.toNat / 2 ^ 8) ^^^ b.toNat) % 2 ^ 8) 0 =
      (Crc.feed 0x1021#16 crc (byteBits b.toNat)).toNat := by
  have htab := crc16tab_eq (((crc.toNat / 2 ^ 8) ^^^ b.toNat) % 2 ^ 8) (Nat.mod_lt _ (by decide))
  rw [Crc.feed_table, show (byteBits b.toNat).length = 8 from rfl, byteBits_index,
    BitVec.toNat_xor, BitVec.toNat_shiftLeft, Nat.shiftLeft_eq, htab]

/-- **The table gives the check**, whatever the bytes are. -/
theorem crc16_eq (buf : Bytes) : crc16 buf = (xmodem buf).toNat := by
  have h : ∀ crc : BitVec 16, buf.foldl (fun c b =>
      (c * 2 ^ 8 % 2 ^ 16) ^^^ crc16tab.getD (((c / 2 ^ 8) ^^^ b.toNat) % 2 ^ 8) 0) crc.toNat =
        (Crc.feed 0x1021#16 crc (buf.flatMap fun b => byteBits b.toNat)).toNat := by
    induction buf with
    | nil => exact fun crc => rfl
    | cons b buf ih =>
      intro crc
      rw [List.foldl_cons, crc16_step, ih, List.flatMap_cons, Crc.feed_append]
  exact h 0#16

/-- The conversions of C do not matter: the index is cut to a byte, the sum to 16 bits. -/
theorem crc16_eq_foldl (buf : Bytes) : crc16 buf = (buf.foldl crc16Step 0#16).toNat := by
  have hstep : ∀ (crc : BitVec 16) (b : UInt8), (crc.toNat * 2 ^ 8 % 2 ^ 16) ^^^
      crc16tab.getD (((crc.toNat / 2 ^ 8) ^^^ b.toNat) % 2 ^ 8) 0 = (crc16Step crc b).toNat := by
    intro crc b
    have hindex : (((crc.setWidth 32 >>> 8) ^^^ b.toBitVec.signExtend 32) &&& 0xFF#32).toNat =
        ((crc.toNat / 2 ^ 8) ^^^ b.toNat) % 2 ^ 8 := by
      refine Nat.eq_of_testBit_eq fun i => ?_
      rw [Nat.testBit_mod_two_pow, Nat.testBit_xor, Nat.testBit_div_two_pow, BitVec.testBit_toNat]
      by_cases hi : i < 8
      · have hmask : (0xFF#32).getLsbD i = true :=
          (by decide : ∀ j < 8, (0xFF#32).getLsbD j = true) i hi
        have hbyte : b.toNat.testBit i = b.toBitVec.getLsbD i := rfl
        have hcrc : crc.toNat.testBit (i + 8) = crc.getLsbD (i + 8) := rfl
        have h32 : i < 32 := by omega
        have h24 : 8 + i < 32 := by omega
        rw [hbyte, hcrc, BitVec.getLsbD_and, hmask, BitVec.getLsbD_xor, BitVec.getLsbD_signExtend]
        simp [hi, h32, h24, Nat.add_comm i 8]
      · have hmask : (0xFF#32).getLsbD i = false := by
          rw [BitVec.getLsbD_ofNat, show (0xFF : ℕ) = 2 ^ 8 - 1 from rfl, Nat.testBit_two_pow_sub_one]
          simp [hi]
        rw [BitVec.getLsbD_and, hmask]
        simp [hi]
    have htab : crc16tab.getD (((crc.toNat / 2 ^ 8) ^^^ b.toNat) % 2 ^ 8) 0 < 2 ^ 16 := by
      have hentry := crc16tab_eq (((crc.toNat / 2 ^ 8) ^^^ b.toNat) % 2 ^ 8)
        (Nat.mod_lt _ (by decide))
      rw [hentry]
      exact BitVec.isLt _
    unfold crc16Step
    dsimp only
    rw [hindex]
    generalize crc16tab.getD (((crc.toNat / 2 ^ 8) ^^^ b.toNat) % 2 ^ 8) 0 = entry at htab ⊢
    rw [BitVec.toNat_setWidth, BitVec.toNat_xor, Nat.xor_mod_two_pow, BitVec.toNat_ofNat,
      BitVec.toNat_shiftLeft, BitVec.toNat_setWidth, Nat.shiftLeft_eq]
    congr 1 <;> omega
  have h : ∀ crc : BitVec 16, buf.foldl (fun c b =>
      (c * 2 ^ 8 % 2 ^ 16) ^^^ crc16tab.getD (((c / 2 ^ 8) ^^^ b.toNat) % 2 ^ 8) 0) crc.toNat =
        (buf.foldl crc16Step crc).toNat := by
    induction buf with
    | nil => exact fun crc => rfl
    | cons b buf ih =>
      intro crc
      rw [List.foldl_cons, hstep, ih, List.foldl_cons]
  exact h 0#16

/-! ## The tag -/

theorem first_unique {x : UInt8} : ∀ {a a' b b' : Bytes}, x ∉ a → x ∉ a' →
    a ++ x :: b = a' ++ x :: b' → a = a' ∧ b = b'
  | [], [], _, _, _, _, h => ⟨rfl, (List.cons.inj h).2⟩
  | [], y :: a', _, _, _, ha', h =>
    absurd (List.mem_cons.mpr (Or.inl (List.cons.inj h).1)) ha'
  | y :: a, [], _, _, ha, _, h =>
    absurd (List.mem_cons.mpr (Or.inl (List.cons.inj h).1.symm)) ha
  | y :: a, y' :: a', _, _, ha, ha', h => by
    obtain ⟨rfl, htail⟩ := List.cons.inj h
    obtain ⟨rfl, rfl⟩ := first_unique (fun hx => ha (List.mem_cons_of_mem _ hx))
      (fun hx => ha' (List.mem_cons_of_mem _ hx)) htail
    exact ⟨rfl, rfl⟩

theorem findIdx_absent {x : UInt8} {a : Bytes} (h : x ∉ a) : a.findIdx (· = x) = a.length :=
  List.findIdx_eq_length_of_false fun y hy => by
    have hne : y ≠ x := fun hyx => h (hyx ▸ hy)
    simpa using hne

theorem findIdx_first {x : UInt8} {a : Bytes} (b : Bytes) (h : x ∉ a) :
    (a ++ x :: b).findIdx (· = x) = a.length := by
  rw [List.findIdx_append, findIdx_absent h, if_neg (Nat.lt_irrefl _)]
  simp [List.findIdx_cons]

/-- The two scans find the tag. -/
theorem keyHashSlot_of_isTag {key tag : Bytes} (h : IsTag key tag) :
    keyHashSlot key = crc16 tag % 2 ^ 14 := by
  unfold keyHashSlot
  dsimp only
  by_cases hopen : 123 ∈ key
  · obtain ⟨before, tail, rfl, hbefore⟩ := List.eq_append_cons_of_mem hopen
    have hdrop : (before ++ 123 :: tail).drop (before.length + 1) = tail := by simp
    rw [findIdx_first tail hbefore, if_neg (by simp), hdrop]
    by_cases hclose : 125 ∈ tail
    · obtain ⟨inner, after, rfl, hinner⟩ := List.eq_append_cons_of_mem hclose
      rw [findIdx_first after hinner, List.take_left]
      by_cases hne : inner = []
      · -- nothing stands between the braces
        rw [if_pos (Or.inr (by rw [hne]; rfl))]
        cases h with
        | whole h => rfl
        | @braced before' _ after' hkey hopen' hclose' hne' =>
          obtain ⟨-, htail⟩ := first_unique hbefore hopen' hkey
          exact absurd ((first_unique hinner hclose' htail).1.symm.trans hne) hne'
      · rw [if_neg (by simp [hne])]
        cases h with
        | whole h => exact absurd (h before inner after rfl hbefore hinner) hne
        | @braced before' _ after' hkey hopen' hclose' hne' =>
          obtain ⟨-, htail⟩ := first_unique hbefore hopen' hkey
          rw [(first_unique hinner hclose' htail).1]
    · rw [if_pos (Or.inl (findIdx_absent hclose))]
      cases h with
      | whole h => rfl
      | @braced before' _ after' hkey hopen' hclose' hne' =>
        obtain ⟨-, rfl⟩ := first_unique hbefore hopen' hkey
        exact absurd (by simp) hclose
  · rw [if_pos (findIdx_absent hopen)]
    cases h with
    | whole h => rfl
    | braced hkey _ _ _ => exact absurd (by rw [hkey]; simp) hopen

/-- A key has one tag. -/
theorem isTag_unique {key tag tag' : Bytes} (h : IsTag key tag) (h' : IsTag key tag') :
    tag = tag' := by
  cases h with
  | whole h =>
    cases h' with
    | whole => rfl
    | braced hkey hopen hclose hne => exact absurd (h _ _ _ hkey hopen hclose) hne
  | @braced before _ after hkey hopen hclose hne =>
    cases h' with
    | whole h' => exact absurd (h' _ _ _ hkey hopen hclose) hne
    | @braced before' _ after' hkey' hopen' hclose' hne' =>
      obtain ⟨-, htail⟩ := first_unique hopen hopen' (hkey.symm.trans hkey')
      exact (first_unique hclose hclose' htail).1

theorem isTag_exists (key : Bytes) : ∃ tag, IsTag key tag := by
  by_cases h : ∃ before tag after, key = before ++ 123 :: (tag ++ 125 :: after) ∧ 123 ∉ before ∧
      125 ∉ tag ∧ tag ≠ []
  · obtain ⟨before, tag, after, hkey, hopen, hclose, hne⟩ := h
    exact ⟨tag, .braced hkey hopen hclose hne⟩
  · refine ⟨key, .whole fun before tag after hkey hopen hclose => ?_⟩
    by_contra hne
    exact h ⟨before, tag, after, hkey, hopen, hclose, hne⟩

/-! ## Routing -/

/-- The slot by which a formatted command is sent, or each of its fragments, is the one
that a caller gets for the key. -/
def RoutesBySlotOfKey (cmd : Bytes) (p : ℤ × Request) : Prop :=
  (p.2.subCommands = none → ∀ k ∈ p.2.keys, 0 ∉ k.bytes cmd →
    p.1 = redisClusterGetSlotByKey (k.bytes cmd)) ∧
  ∀ frags, p.2.subCommands = some frags → ∀ f ∈ frags, ∀ k ∈ f.keys, 0 ∉ k.bytes cmd →
    f.slotNum = redisClusterGetSlotByKey (k.bytes cmd)

theorem slot_eq_getSlotByKey {buf : Bytes} {k : KeyPos} (h : 0 ∉ k.bytes buf) :
    k.slot buf = redisClusterGetSlotByKey (k.bytes buf) := by
  rw [redisClusterGetSlotByKey, cstr_of_noNul h]
  rfl

/-- **Commands are sent by the slot of their key.** -/
theorem commandFormatBySlot_routes (id : ℕ) (cmd : Bytes) (w : World ω) :
    wp (commandFormatBySlot { id, cmd }) (fun p _ => RoutesBySlotOfKey cmd p) w := by
  unfold commandFormatBySlot
  have hnone : ∀ s : ℤ, RoutesBySlotOfKey cmd (s, { id, cmd }) := fun s =>
    ⟨fun _ k hk => (by cases hk), fun frags h => by cases h⟩
  split
  · exact hnone _
  · split
    · exact hnone _
    · rename_i p hp
      dsimp only
      split
      · rename_i hnil
        refine ⟨fun _ k (hk : k ∈ p.keys) => ?_, fun frags h => by cases h⟩
        rw [hnil] at hk
        cases hk
      · rename_i k hone
        refine ⟨fun _ k' (hk' : k' ∈ p.keys) hnul => ?_, fun frags h => by cases h⟩
        rw [hone] at hk'
        obtain rfl := List.mem_singleton.mp hk'
        exact slot_eq_getSlotByKey hnul
      · rename_i hnil _
        have hsplit := @collectFragments_split p.type cmd p.keys w.cmdId [] [] (split_nil p.type cmd)
        rw [List.nil_append] at hsplit
        unfold commandPreFragment
        rw [wp_bind, wp_get, wp_bind, wp_modify]
        split
        · -- the keys share one slot, and the slot of the last key is taken
          rename_i hlen
          refine ⟨fun _ k (hk : k ∈ p.keys) hnul => ?_, fun frags h => by cases h⟩
          obtain ⟨f, hf⟩ := List.length_eq_one_iff.mp hlen
          have hsame : ∀ k ∈ p.keys, f.slotNum = k.slot cmd := by
            intro k hk
            obtain ⟨g, hg, hgs⟩ := hsplit.complete k hk
            rw [hf, List.mem_singleton] at hg
            rwa [hg] at hgs
          rw [← slot_eq_getSlotByKey hnul, ← hsame k hk]
          show (p.keys.map (KeyPos.slot cmd)).getLast?.getD (-1) = f.slotNum
          obtain ⟨s, hs⟩ := Option.ne_none_iff_exists'.mp
            (mt List.getLast?_eq_none_iff.mp (List.map_eq_nil_iff.not.mpr (List.ne_nil_of_mem hk)))
          obtain ⟨k', hk', rfl⟩ := List.mem_map.mp (List.mem_of_getLast? hs)
          rw [hs, hsame k' hk']
          rfl
        · refine ⟨fun h => (by cases h), fun frags h f hf k hk hnul => ?_⟩
          obtain rfl := Option.some.inj h
          have hk' : k ∈ (p.keys.filter fun k => k.slot cmd = f.slotNum).map
              (fragmentKey p.type cmd) := by
            rw [← hsplit.finish.keys f hf]
            exact hk
          obtain ⟨k', hmem, rfl⟩ := List.mem_map.mp hk'
          have hslot : k'.slot cmd = f.slotNum := by simpa using (List.mem_filter.mp hmem).2
          rw [← hslot]
          exact slot_eq_getSlotByKey (k := k') hnul

/-- **The hash slot follows the specification**: it is the check of the key's one tag, so
that keys with one tag share a slot, and callers and commands get the same slot. -/
theorem keyHashSlot_spec (key : Bytes) :
    (∃ tag, IsTag key tag ∧ (∀ tag', IsTag key tag' → tag' = tag) ∧
      keyHashSlot key = (xmodem tag).toNat % 16384 ∧
      ∀ key', IsTag key' tag → keyHashSlot key' = keyHashSlot key) ∧
    ∀ (id : ℕ) (cmd : Bytes) (w : World ω),
      wp (commandFormatBySlot { id, cmd }) (fun p _ => RoutesBySlotOfKey cmd p) w := by
  obtain ⟨tag, htag⟩ := isTag_exists key
  refine ⟨⟨tag, htag, fun tag' h => isTag_unique h htag, ?_, fun key' h => ?_⟩,
    commandFormatBySlot_routes⟩
  · have hslot := keyHashSlot_of_isTag htag
    rw [crc16_eq] at hslot
    exact hslot
  · rw [keyHashSlot_of_isTag h, keyHashSlot_of_isTag htag]

/-- The check value of the specification, and a key with a tag. -/
example : (xmodem (ascii "123456789")).toNat = 0x31C3 ∧
    keyHashSlot (ascii "\x7buser1000\x7d.following") = keyHashSlot (ascii "user1000") := by
  decide +kernel
