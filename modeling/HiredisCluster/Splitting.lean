/-
# What splitting and merging do

The fragments of a command are its keys sorted by slot (`Split`); the replies to
them, if each has the type and the length of its command, are merged into one that
deals their elements out to the keys again.
-/
import HiredisCluster.Lib.Interleave
import HiredisCluster.Fragment

open Program

variable {ω : Type}

/-! ## The fragments -/

/-- The slot of a key. -/
def KeyPos.slot (buf : Bytes) (k : KeyPos) : ℤ := keyHashSlot (k.bytes buf)

/-- The fragments `fs` are the keys `ks`, sorted by slot. -/
structure Split (type : CmdType) (buf : Bytes) (ks : List KeyPos) (fs : List Cmd) : Prop where
  sorted : fs.Pairwise fun f g => f.slotNum < g.slotNum
  keys : ∀ f ∈ fs, f.keys =
    (ks.filter fun k => k.slot buf = f.slotNum).map (fragmentKey type buf)
  nonempty : ∀ f ∈ fs, f.keys ≠ []
  complete : ∀ k ∈ ks, ∃ f ∈ fs, f.slotNum = k.slot buf

theorem addToFragment_slot_mem {id slot : ℕ} {k : KeyPos} {fs : List Cmd} {g : Cmd}
    (hg : g ∈ addToFragment id slot k fs) : g.slotNum = slot ∨ ∃ f ∈ fs, f.slotNum = g.slotNum := by
  induction fs with
  | nil =>
    obtain rfl := List.mem_singleton.mp hg
    exact Or.inl rfl
  | cons f fs ih =>
    unfold addToFragment at hg
    split at hg
    · rename_i hf
      rcases List.mem_cons.mp hg with rfl | hg
      · exact Or.inl hf
      · exact Or.inr ⟨g, List.mem_cons_of_mem _ hg, rfl⟩
    · split at hg
      · rcases List.mem_cons.mp hg with rfl | hg
        · exact Or.inr ⟨g, List.mem_cons_self, rfl⟩
        · exact (ih hg).imp_right fun ⟨f', hf', h⟩ => ⟨f', List.mem_cons_of_mem _ hf', h⟩
      · rcases List.mem_cons.mp hg with rfl | hg
        · exact Or.inl rfl
        · exact Or.inr ⟨g, hg, rfl⟩

theorem addToFragment_sorted {id slot : ℕ} {k : KeyPos} {fs : List Cmd}
    (h : fs.Pairwise fun f g => f.slotNum < g.slotNum) :
    (addToFragment id slot k fs).Pairwise fun f g => f.slotNum < g.slotNum := by
  induction fs with
  | nil => exact List.pairwise_singleton _ _
  | cons f fs ih =>
    obtain ⟨hf, hfs⟩ := List.pairwise_cons.mp h
    unfold addToFragment
    split
    · exact List.pairwise_cons.mpr ⟨hf, hfs⟩
    · rename_i hne
      split
      · rename_i hlt
        refine List.pairwise_cons.mpr ⟨fun g hg => ?_, ih hfs⟩
        rcases addToFragment_slot_mem hg with hg | ⟨f', hf', hg⟩
        · rw [hg]
          exact hlt
        · rw [← hg]
          exact hf f' hf'
      · rename_i hnlt
        have hgt : (slot : ℤ) < f.slotNum := by omega
        refine List.pairwise_cons.mpr ⟨fun g hg => ?_, h⟩
        rcases List.mem_cons.mp hg with rfl | hg
        · exact hgt
        · exact Int.lt_trans hgt (hf g hg)

/-- The fragments after a key was added: the others are as before, and the one of the
slot has the key at its end, alone if it is new. -/
theorem mem_addToFragment {id slot : ℕ} {k : KeyPos} {fs : List Cmd} {g : Cmd}
    (h : fs.Pairwise fun f g => f.slotNum < g.slotNum) (hg : g ∈ addToFragment id slot k fs) :
    (g ∈ fs ∧ g.slotNum ≠ slot) ∨
      (∃ f ∈ fs, f.slotNum = slot ∧ g = { f with keys := f.keys ++ [k], narg := f.narg + 1 }) ∨
      (∀ f ∈ fs, f.slotNum ≠ slot) ∧ g = { id, slotNum := slot, keys := [k], narg := 1 } := by
  induction fs with
  | nil => exact Or.inr (Or.inr ⟨(fun f hf => by cases hf), List.mem_singleton.mp hg⟩)
  | cons f fs ih =>
    obtain ⟨hf, hfs⟩ := List.pairwise_cons.mp h
    unfold addToFragment at hg
    split at hg
    · rename_i heq
      rcases List.mem_cons.mp hg with rfl | hg
      · exact Or.inr (Or.inl ⟨f, List.mem_cons_self, heq, rfl⟩)
      · have := hf g hg
        exact Or.inl ⟨List.mem_cons_of_mem _ hg, by omega⟩
    · rename_i hne
      split at hg
      · rcases List.mem_cons.mp hg with rfl | hg
        · exact Or.inl ⟨List.mem_cons_self, hne⟩
        · rcases ih hfs hg with h' | ⟨f', hf', h'⟩ | ⟨hno, h'⟩
          · exact Or.inl ⟨List.mem_cons_of_mem _ h'.1, h'.2⟩
          · exact Or.inr (Or.inl ⟨f', List.mem_cons_of_mem _ hf', h'⟩)
          · exact Or.inr (Or.inr ⟨List.forall_mem_cons.mpr ⟨hne, hno⟩, h'⟩)
      · rename_i hnlt
        have hno : ∀ f' ∈ f :: fs, f'.slotNum ≠ slot := by
          refine List.forall_mem_cons.mpr ⟨hne, fun f' hf' => ?_⟩
          have := hf f' hf'
          omega
        rcases List.mem_cons.mp hg with rfl | hg
        · exact Or.inr (Or.inr ⟨hno, rfl⟩)
        · exact Or.inl ⟨hg, hno g hg⟩

theorem addToFragment_keeps_slots {id slot : ℕ} {k : KeyPos} {fs : List Cmd} {s : ℤ}
    (h : s = slot ∨ ∃ f ∈ fs, f.slotNum = s) : ∃ g ∈ addToFragment id slot k fs, g.slotNum = s := by
  induction fs with
  | nil =>
    obtain rfl := h.resolve_right fun ⟨f, hf, _⟩ => by cases hf
    exact ⟨_, List.mem_singleton.mpr rfl, rfl⟩
  | cons f fs ih =>
    unfold addToFragment
    split
    · rename_i heq
      rcases h with rfl | ⟨f', hf', rfl⟩
      · exact ⟨_, List.mem_cons_self, heq⟩
      · rcases List.mem_cons.mp hf' with rfl | hf'
        · exact ⟨_, List.mem_cons_self, rfl⟩
        · exact ⟨f', List.mem_cons_of_mem _ hf', rfl⟩
    · split
      · rcases h with rfl | ⟨f', hf', rfl⟩
        · obtain ⟨g, hg, hgs⟩ := ih (Or.inl rfl)
          exact ⟨g, List.mem_cons_of_mem _ hg, hgs⟩
        · rcases List.mem_cons.mp hf' with rfl | hf'
          · exact ⟨_, List.mem_cons_self, rfl⟩
          · obtain ⟨g, hg, hgs⟩ := ih (Or.inr ⟨f', hf', rfl⟩)
            exact ⟨g, List.mem_cons_of_mem _ hg, hgs⟩
      · rcases h with rfl | ⟨f', hf', rfl⟩
        · exact ⟨_, List.mem_cons_self, rfl⟩
        · exact ⟨f', List.mem_cons_of_mem _ hf', rfl⟩

theorem Split.add {type : CmdType} {buf : Bytes} {ks : List KeyPos} {fs : List Cmd}
    (h : Split type buf ks fs) (id : ℕ) (k : KeyPos) :
    Split type buf (ks ++ [k])
      (addToFragment id (keyHashSlot (k.bytes buf)) (fragmentKey type buf k) fs) := by
  have hfilter : ∀ s : ℤ, (ks ++ [k]).filter (fun k' => k'.slot buf = s) =
      ks.filter (fun k' => k'.slot buf = s) ++ if k.slot buf = s then [k] else [] := by
    intro s
    rw [List.filter_append]
    congr 1
    by_cases hs : k.slot buf = s
    · simp [hs]
    · simp [hs]
  refine ⟨addToFragment_sorted h.sorted, fun g hg => ?_, fun g hg => ?_,
    fun k' hk' => addToFragment_keeps_slots ?_⟩
  · rw [hfilter]
    rcases mem_addToFragment h.sorted hg with ⟨hg, hne⟩ | ⟨f, hf, heq, rfl⟩ | ⟨hno, rfl⟩
    · rw [if_neg fun h => hne h.symm, List.append_nil]
      exact h.keys g hg
    · dsimp only
      rw [if_pos (show k.slot buf = f.slotNum from heq.symm), List.map_append, ← h.keys f hf]
      rfl
    · have hnil : ks.filter (fun k' => k'.slot buf = (keyHashSlot (k.bytes buf) : ℤ)) = [] := by
        refine List.filter_eq_nil_iff.mpr fun k' hk' heq => ?_
        obtain ⟨f, hf, hfs⟩ := h.complete k' hk'
        exact hno f hf (hfs.trans (of_decide_eq_true heq))
      dsimp only
      rw [hnil, if_pos (show k.slot buf = (keyHashSlot (k.bytes buf) : ℤ) from rfl)]
      rfl
  · rcases mem_addToFragment h.sorted hg with ⟨hg, -⟩ | ⟨f, hf, -, rfl⟩ | ⟨-, rfl⟩
    · exact h.nonempty g hg
    · simp
    · simp
  · rcases List.mem_append.mp hk' with hk' | hk'
    · obtain ⟨f, hf, hfs⟩ := h.complete k' hk'
      exact Or.inr ⟨f, hf, hfs⟩
    · obtain rfl := List.mem_singleton.mp hk'
      exact Or.inl rfl

/-- **The fragments are the keys, sorted by slot.** -/
theorem collectFragments_split {type : CmdType} {buf : Bytes} {ks : List KeyPos} :
    ∀ {id : ℕ} {done : List KeyPos} {fs : List Cmd}, Split type buf done fs →
      Split type buf (done ++ ks) (collectFragments type buf id fs ks).2 := by
  induction ks with
  | nil =>
    intro id done fs h
    rw [List.append_nil]
    exact h
  | cons k ks ih =>
    intro id done fs h
    rw [← List.singleton_append, ← List.append_assoc]
    exact ih (h.add _ k)

theorem split_nil (type : CmdType) (buf : Bytes) : Split type buf [] [] :=
  ⟨List.Pairwise.nil, (fun f hf => by cases hf), (fun f hf => by cases hf), fun k hk => by cases hk⟩

/-! ## The merge -/

/-- An error reply. -/
def Reply.isError : Reply → Bool
  | .error _ => true
  | _ => false

/-- The count that a reply adds to the total. -/
def Reply.count : Reply → ℤ
  | .integer n => n
  | _ => 0

/-- What the replies to the fragments of a command come to: the first error among
them; otherwise the elements of the arrays, dealt out to the keys by their slots, or
the sum of the counts as `long long`, or `OK`. -/
def Merged (type : CmdType) (fragSeq : List ℤ) (frags : List Cmd) (replies : List Reply)
    (x : Reply) : Prop :=
  match replies.find? Reply.isError with
  | some e => x = e
  | none =>
    match type with
    | .mget => ∃ es, x = .array es ∧
        Interleaves (fragmentArrays (frags.zip (replies.map some))) fragSeq es
    | .mset => x = .status (ascii "OK")
    | _ => x = .integer (Int.bmod (replies.map Reply.count).sum (2 ^ 64))

/-- The reply to a fragment is an error or has the type and the length of its command. -/
def WellTyped (type : CmdType) (f : Cmd) (r : Reply) : Prop :=
  r.isError ∨ fragmentReplyOk type r ∧ (type = .mget → r.elems.length = f.keys.length)

theorem popElements_interleaves (slots : List ℤ) :
    ∀ (arrays : ℤ → List Reply) (acc : List Reply),
      (∀ s, (arrays s).length = slots.count s) →
      ∃ es, popElements arrays slots acc = some (es ++ acc) ∧
        Interleaves arrays slots.reverse es := by
  induction slots with
  | nil =>
    intro arrays acc h
    exact ⟨[], rfl, interleaves_nil fun s => List.eq_nil_of_length_eq_zero (h s)⟩
  | cons slot slots ih =>
    intro arrays acc h
    have hne : arrays slot ≠ [] := by
      intro hnil
      have := h slot
      rw [hnil, List.count_cons_self] at this
      cases this
    have hlast : (arrays slot).getLast? = some ((arrays slot).getLast hne) :=
      List.getLast?_eq_getLast_of_ne_nil hne
    obtain ⟨es, hes, hint⟩ := ih (Function.update arrays slot (arrays slot).dropLast)
      ((arrays slot).getLast hne :: acc) fun s => by
        by_cases hs : s = slot
        · subst hs
          rw [Function.update_self, List.length_dropLast, h s, List.count_cons_self]
          rfl
        · rw [Function.update_of_ne hs, h s, List.count_cons_of_ne (Ne.symm hs)]
    refine ⟨es ++ [(arrays slot).getLast hne], ?_, ?_⟩
    · rw [popElements, hlast, List.append_assoc, List.singleton_append]
      exact hes
    · rw [List.reverse_cons]
      exact hint.concat (List.dropLast_append_getLast hne).symm

theorem checkReplies_cons {type : CmdType} {r : Reply} (hr : fragmentReplyOk type r = true)
    (n : ℤ) (rs : List (Option Reply)) :
    checkReplies type (Int.bmod n (2 ^ 64)) (some r :: rs) =
      checkReplies type (Int.bmod (n + r.count) (2 ^ 64)) rs := by
  cases r with
  | error e => cases type <;> cases hr
  | integer m =>
    simp only [checkReplies, if_pos hr, Reply.count, addCount, Int.bmod_add_bmod]
  | _ => simp only [checkReplies, if_pos hr, Reply.count, Int.add_zero]

theorem checkReplies_eq {type : CmdType} {replies : List Reply} :
    ∀ {n : ℤ}, (∀ r ∈ replies, r.isError ∨ fragmentReplyOk type r) →
      checkReplies type (Int.bmod n (2 ^ 64)) (replies.map some) =
        match replies.find? Reply.isError with
        | some e => .error (.reply e)
        | none => .ok (Int.bmod (n + (replies.map Reply.count).sum) (2 ^ 64)) := by
  induction replies with
  | nil =>
    intro n _
    rw [List.map_nil, List.map_nil, List.sum_nil, Int.add_zero]
    rfl
  | cons r rs ih =>
    intro n h
    obtain ⟨hr, hrs⟩ := List.forall_mem_cons.mp h
    by_cases he : r.isError
    · rw [List.find?_cons_of_pos he]
      cases r with
      | error e => rfl
      | _ => cases he
    · rw [List.map_cons, checkReplies_cons (hr.resolve_left he), ih hrs, List.find?_cons_of_neg he,
        List.map_cons, List.sum_cons, Int.add_assoc]

/-- Each key finds as many elements in the array of its slot as there are keys. -/
theorem fragmentArrays_length {type : CmdType} {buf : Bytes} {ks : List KeyPos} {fs : List Cmd}
    {replies : List Reply} (hs : Split type buf ks fs)
    (hw : List.Forall₂ (fun f r => r.elems.length = f.keys.length) fs replies) (s : ℤ) :
    (fragmentArrays (fs.zip (replies.map some)) s).length =
      (ks.map (KeyPos.slot buf)).count s := by
  have hcount : (ks.map (KeyPos.slot buf)).count s =
      (ks.filter fun k => k.slot buf = s).length := by
    rw [List.count, List.countP_map, List.countP_eq_length_filter]
    rfl
  rw [hcount]
  unfold fragmentArrays
  split
  · rename_i f r hfind
    have hf : f.slotNum = s := by simpa using List.find?_some hfind
    have hmem : (f, some r) ∈ fs.zip (replies.map some) := List.mem_of_find?_eq_some hfind
    rw [List.zip_map_right] at hmem
    obtain ⟨⟨f', r'⟩, hmem', heq⟩ := List.mem_map.mp hmem
    obtain ⟨rfl, hr⟩ := Prod.mk.inj heq
    obtain rfl := Option.some.inj hr
    have hlen : r'.elems.length = f'.keys.length := List.forall₂_iff_zip.mp hw |>.2 hmem'
    rw [hlen, hs.keys f' (List.of_mem_zip hmem').1, List.length_map, ← hf]
    rfl
  · rename_i hnone
    symm
    rw [List.length_nil, List.length_eq_zero_iff, List.filter_eq_nil_iff]
    intro k hk hks
    obtain ⟨f, hf, hfs⟩ := hs.complete k hk
    obtain ⟨i, hi, hfi⟩ := List.mem_iff_getElem.mp hf
    have hlen := hw.length_eq
    have hmem : (f, some (replies[i])) ∈ fs.zip (replies.map some) := by
      rw [List.zip_map_right]
      refine List.mem_map.mpr ⟨(f, replies[i]), ?_, rfl⟩
      rw [← hfi]
      exact List.mem_iff_getElem.mpr ⟨i, by simp [hi, ← hlen], by simp⟩
    cases hfind : (fs.zip (replies.map some)).find? (·.1.slotNum = s) with
    | none =>
      have := List.find?_eq_none.mp hfind _ hmem
      simp [hfs, of_decide_eq_true hks] at this
    | some p =>
      obtain ⟨f', r'⟩ := p
      have hmem' := List.mem_of_find?_eq_some hfind
      rw [List.zip_map_right] at hmem'
      obtain ⟨⟨g, r⟩, -, heq⟩ := List.mem_map.mp hmem'
      obtain ⟨-, rfl⟩ := Prod.mk.inj heq
      exact hnone f' r hfind

/-- The types of the commands that are split. -/
def Splittable (type : CmdType) : Bool := redisArgx type || redisArgkvx type

/-- **Merging.**  Well-typed replies to the fragments of a command merge. -/
theorem mergeReplies_merged {type : CmdType} {buf : Bytes} {ks : List KeyPos} {fs : List Cmd}
    {replies : List Reply} (ht : Splittable type) (hs : Split type buf ks fs)
    (hw : List.Forall₂ (WellTyped type) fs replies) :
    ∃ x, mergeReplies type (ks.map (KeyPos.slot buf)) (fs.zip (replies.map some)) = .reply x ∧
      Merged type (ks.map (KeyPos.slot buf)) fs replies x := by
  have hlen := hw.length_eq
  have hsnd : (fs.zip (replies.map some)).map Prod.snd = replies.map some := by
    rw [List.map_snd_zip (by simp [hlen])]
  have hok : ∀ r ∈ replies, r.isError ∨ fragmentReplyOk type r := by
    intro r hr
    obtain ⟨i, hi, hri⟩ := List.mem_iff_getElem.mp hr
    have hwell : WellTyped type _ replies[i] := (List.forall₂_iff_get.mp hw).2 i (hlen ▸ hi) hi
    rw [hri] at hwell
    exact hwell.imp id And.left
  have hcheck := checkReplies_eq (n := 0) hok
  unfold mergeReplies Merged
  rw [hsnd, show (0 : ℤ) = Int.bmod 0 (2 ^ 64) from rfl, hcheck]
  cases hfind : replies.find? Reply.isError with
  | some e => exact ⟨e, rfl, rfl⟩
  | none =>
    dsimp only
    rw [Int.zero_add]
    cases type with
    | mget =>
      have hlens : List.Forall₂ (fun f r => r.elems.length = f.keys.length) fs replies := by
        refine List.forall₂_iff_zip.mpr ⟨hlen, fun {f r} hfr => ?_⟩
        have hr := (List.of_mem_zip hfr).2
        have hne : ¬ r.isError := by simpa using List.find?_eq_none.mp hfind r hr
        exact (((List.forall₂_iff_zip.mp hw).2 hfr).resolve_left hne).2 rfl
      obtain ⟨es, hes, hint⟩ := popElements_interleaves (ks.map (KeyPos.slot buf)).reverse
        (fragmentArrays (fs.zip (replies.map some))) [] fun s => by
          rw [List.count_reverse]
          exact fragmentArrays_length hs hlens s
      rw [List.append_nil] at hes
      rw [List.reverse_reverse] at hint
      dsimp only
      rw [hes]
      exact ⟨.array es, rfl, es, rfl, hint⟩
    | mset => exact ⟨_, rfl, rfl⟩
    | del => exact ⟨_, rfl, rfl⟩
    | «exists» => exact ⟨_, rfl, rfl⟩
    | _ => cases ht

/-! ## Which commands are split -/

theorem parseKeysFrom_splittable {info : CmdDef} {narg : ℕ} {arg : Arg} {c : Cursor} {p : Parsed}
    (h : parseKeysFrom info narg arg c = .ok p) : Splittable p.type ∨ p.keys.length ≤ 1 := by
  unfold parseKeysFrom at h
  split at h
  · cases h
  · split at h
    · rename_i hx
      split at h
      · cases h
      · split at h
        · cases h
        · cases h
          exact Or.inl hx
    · cases h
      exact Or.inr (Nat.le_refl 1)

theorem parseAfterKeyword_splittable {buf : Bytes} {info : CmdDef} {narg : ℕ} {keyword : String}
    {startfrom : ℤ} {p : Parsed} :
    ∀ {n : ℕ} {argidx : ℤ} {c : Cursor},
      parseAfterKeyword buf info narg keyword startfrom n argidx c = .ok p → p.keys.length ≤ 1 := by
  intro n
  induction n with
  | zero =>
    intro argidx c h
    cases h
  | succ n ih =>
    intro argidx c h
    unfold parseAfterKeyword at h
    split at h
    · cases h
    · split at h
      · exact ih h
      · split at h
        · split at h
          · cases h
          · cases h
            exact Nat.le_refl 1
        · exact ih h

theorem parseKeys_splittable {buf : Bytes} {info : CmdDef} {narg : ℕ} {arg1 : Arg} {c : Cursor}
    {p : Parsed} (h : parseKeys buf info narg arg1 c = .ok p) :
    Splittable p.type ∨ p.keys.length ≤ 1 := by
  unfold parseKeys at h
  split at h
  · cases h
    exact Or.inr (Nat.zero_le 1)
  · split at h
    · exact Or.inr (parseAfterKeyword_splittable h)
    · split at h
      · exact Or.inr (parseAfterKeyword_splittable h)
      · cases h
  · split at h
    · cases h
    · exact parseKeysFrom_splittable h
  · split at h
    · cases h
    · split at h
      · cases h
        exact Or.inr (Nat.zero_le 1)
      · split at h
        · cases h
        · exact parseKeysFrom_splittable h

theorem parseNamed_splittable {buf : Bytes} {narg : ℕ} {arg0 : Arg} {arg1 : Option Arg} {c : Cursor}
    {p : Parsed} (h : parseNamed buf narg arg0 arg1 c = .ok p) :
    Splittable p.type ∨ p.keys.length ≤ 1 := by
  unfold parseNamed at h
  split at h
  · cases h
  · split at h
    · split at h
      · cases h
        exact Or.inr (Nat.zero_le 1)
      · cases h
      · exact parseKeys_splittable h
    · cases h

/-- Only MGET, MSET, DEL and EXISTS have more than one key. -/
theorem redisParseCmd_splittable {buf : Bytes} {p : Parsed} (h : redisParseCmd buf = .ok p) :
    Splittable p.type ∨ p.keys.length ≤ 1 := by
  unfold redisParseCmd at h
  split at h
  · cases h
  · split at h
    · cases h
    · cases h
    · split at h
      · split at h
        · cases h
        · exact parseNamed_splittable h
      · exact parseNamed_splittable h

/-! ## Formatted commands -/

/-- The fragments of a request are those of its keys. -/
structure Request.Fragmented (r : Request) (frags : List Cmd) : Prop where
  splittable : Splittable r.type
  fragSeq : r.fragSeq = r.keys.map (KeyPos.slot r.cmd)
  split : Split r.type r.cmd r.keys frags
  bytes : ∀ f ∈ frags, f.cmd = fragmentBytes r.type r.cmd f.keys

theorem Split.finish {type : CmdType} {buf : Bytes} {ks : List KeyPos} {fs : List Cmd}
    (h : Split type buf ks fs) : Split type buf ks (fs.map (finishFragment type buf)) := by
  refine ⟨List.pairwise_map.mpr h.sorted, fun g hg => ?_, fun g hg => ?_, fun k hk => ?_⟩
  · obtain ⟨f, hf, rfl⟩ := List.mem_map.mp hg
    exact h.keys f hf
  · obtain ⟨f, hf, rfl⟩ := List.mem_map.mp hg
    exact h.nonempty f hf
  · obtain ⟨f, hf, hfs⟩ := h.complete k hk
    exact ⟨finishFragment type buf f, List.mem_map_of_mem hf, hfs⟩

theorem commandPreFragment_fragmented {r : Request} (hsub : r.subCommands = none)
    (ht : Splittable r.type) (w : World ω) :
    wp (commandPreFragment r) (fun p _ => ∀ frags, p.2.subCommands = some frags →
      p.2.Fragmented frags) w := by
  unfold commandPreFragment
  rw [wp_bind, wp_get, wp_bind, wp_modify]
  split
  · intro frags (h : r.subCommands = some frags)
    rw [hsub] at h
    cases h
  · intro frags h
    obtain rfl := Option.some.inj h
    refine ⟨ht, rfl, ?_, fun f hf => ?_⟩
    · exact (collectFragments_split (split_nil _ _)).finish
    · obtain ⟨g, -, rfl⟩ := List.mem_map.mp hf
      rfl

theorem commandFormatBySlot_fragmented (id : ℕ) (cmd : Bytes) (w : World ω) :
    wp (commandFormatBySlot { id, cmd }) (fun p _ => ∀ frags, p.2.subCommands = some frags →
      p.2.Fragmented frags) w := by
  unfold commandFormatBySlot
  split
  · exact fun frags h => by cases h
  · split
    · exact fun frags h => by cases h
    · rename_i p hp
      dsimp only
      split
      · exact fun frags h => by cases h
      · exact fun frags h => by cases h
      · rename_i hnil hone
        refine commandPreFragment_fragmented rfl ?_ w
        refine (redisParseCmd_splittable hp).resolve_right fun hle => ?_
        match hk : p.keys with
        | [] => exact hnil hk
        | [k] => exact hone k hk
        | _ :: _ :: ks =>
          rw [hk] at hle
          exact absurd hle (by simp)
