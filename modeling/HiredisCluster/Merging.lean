/-
# Merging the replies to an MGET

`command_post_fragment` pops elements from the ends of the fragment arrays while it walks
the keys backwards.  Every key gets its own value if each array has as many elements as its
fragment has keys.  Too few elements are noticed, too many are not.
-/
import HiredisCluster.Splitting

open Program

variable {ω : Type}

/-- The fragments of a command, by the slots of its keys: there is one for each slot, with
as many keys as have that slot. -/
structure FragmentMap (fragSeq : List ℤ) (fs : List Cmd) : Prop where
  nodup : (fs.map Cmd.slotNum).Nodup
  mapped : ∀ s ∈ fragSeq, ∃ f ∈ fs, f.slotNum = s
  keys : ∀ f ∈ fs, f.keys.length = fragSeq.count f.slotNum

/-- The fragments that are made of the keys of a command. -/
theorem Split.fragmentMap {type : CmdType} {buf : Bytes} {ks : List KeyPos} {fs : List Cmd}
    (h : Split type buf ks fs) : FragmentMap (ks.map (KeyPos.slot buf)) fs := by
  refine ⟨?_, fun s hs => ?_, fun f hf => ?_⟩
  · rw [List.nodup_iff_pairwise_ne]
    exact List.pairwise_map.mpr (h.sorted.imp fun hlt => Int.ne_of_lt hlt)
  · obtain ⟨k, hk, rfl⟩ := List.mem_map.mp hs
    exact h.complete k hk
  · rw [h.keys f hf, List.length_map, List.count, List.countP_map, List.countP_eq_length_filter]
    rfl

/-- A reply of the type that an MGET has. -/
def IsArray (r : Option Reply) : Prop := ∃ es, r = some (.array es)

/-- A reply that is an error. -/
def IsError (r : Option Reply) : Prop := ∃ s, r = some (.error s)

/-- The merge is right: in an array each key has the element of its fragment's reply behind
those of the earlier keys, an array of another length makes it fail, and so does a reply
that is missing or of another type, while an error that comes first is the result. -/
structure MergesRight (fragSeq : List ℤ) (frags : List (Cmd × Option Reply)) (r : Option Reply) :
    Prop where
  array : ∀ es, r = some (.array es) → es.length = fragSeq.length ∧ ∀ i slot,
    fragSeq[i]? = some slot → ∃ f es', (f, some (.array es')) ∈ frags ∧ f.slotNum = slot ∧
      (fragSeq.take i).count slot < es'.length ∧ es[i]? = es'[(fragSeq.take i).count slot]?
  length : (∀ p ∈ frags, ¬ IsError p.2) → ∀ f es, (f, some (.array es)) ∈ frags →
    es.length ≠ f.keys.length → r = none
  fails : ∀ before p after, frags = before ++ p :: after → (∀ q ∈ before, ¬ IsError q.2) →
    ¬ IsArray p.2 → ¬ IsError p.2 → r = none
  error : ∀ before f s after, frags = before ++ (f, some (.error s)) :: after →
    (∀ q ∈ before, IsArray q.2 ∨ IsError q.2) → (∀ q ∈ before, ¬ IsError q.2) → r = some (.error s)

/-- All replies are arrays, none is too short, and one is too long. -/
def Overfull (frags : List (Cmd × Option Reply)) : Prop :=
  (∀ p ∈ frags, ∃ es, p.2 = some (.array es) ∧ p.1.keys.length ≤ es.length) ∧
    ∃ p ∈ frags, ∃ es, p.2 = some (.array es) ∧ p.1.keys.length < es.length

/-! ## The first loop -/

theorem checkReplies_arrays {rs : List (Option Reply)} (h : ∀ r ∈ rs, IsArray r) (n : ℤ) :
    checkReplies .mget n rs = .ok n := by
  induction rs with
  | nil => rfl
  | cons r rs ih =>
    obtain ⟨⟨es, rfl⟩, hrs⟩ := List.forall_mem_cons.mp h
    exact ih hrs

/-- The first reply that is no array decides. -/
theorem checkReplies_decided {before after : List (Option Reply)} {r : Option Reply}
    (h : ∀ q ∈ before, IsArray q) (hr : ¬ IsArray r) (n : ℤ) :
    checkReplies .mget n (before ++ r :: after) = .error (match r with
      | none => .null
      | some (.error s) => .reply (.error s)
      | some _ => .error "reply type error") := by
  induction before with
  | nil =>
    match r, hr with
    | none, _ => rfl
    | some (.array es), hr => exact absurd ⟨es, rfl⟩ hr
    | some (.error s), _ => rfl
    | some (.string s), _ => rfl
    | some (.status s), _ => rfl
    | some (.integer n), _ => rfl
    | some .nil, _ => rfl
    | some (.other t), _ => rfl
  | cons q before ih =>
    obtain ⟨⟨es, rfl⟩, hbefore⟩ := List.forall_mem_cons.mp h
    exact ih hbefore

theorem exists_decisive (frags : List (Cmd × Option Reply)) : (∀ p ∈ frags, IsArray p.2) ∨
    ∃ before p after, frags = before ++ p :: after ∧ (∀ q ∈ before, IsArray q.2) ∧ ¬ IsArray p.2 := by
  induction frags with
  | nil => exact .inl (by simp)
  | cons p frags ih =>
    by_cases hp : IsArray p.2
    · rcases ih with hall | ⟨before, p', after, rfl, hbefore, hp'⟩
      · exact .inl (List.forall_mem_cons.mpr ⟨hp, hall⟩)
      · exact .inr ⟨p :: before, p', after, rfl, List.forall_mem_cons.mpr ⟨hp, hbefore⟩, hp'⟩
    · exact .inr ⟨[], p, frags, rfl, by simp, hp⟩

/-- Two places in a list: one comes first, or they are the same. -/
theorem split_compare {α : Type} {a a' b b' : List α} {x x' : α} (h : a ++ x :: b = a' ++ x' :: b') :
    x' ∈ a ∨ x' = x ∨ x ∈ a' := by
  rcases List.append_eq_append_iff.mp h with ⟨c, rfl, hc⟩ | ⟨c, rfl, hc⟩
  · cases c with
    | nil => exact .inr (.inl (List.cons.inj hc).1.symm)
    | cons y c =>
      obtain ⟨rfl, -⟩ := List.cons.inj hc
      exact .inr (.inr (by simp))
  · cases c with
    | nil => exact .inr (.inl (List.cons.inj hc).1)
    | cons y c =>
      obtain ⟨rfl, -⟩ := List.cons.inj hc
      exact .inl (by simp)

/-! ## The second loop -/

/-- The pops go through if there are elements enough. -/
theorem popElements_isSome_iff (slots : List ℤ) : ∀ (arrays : ℤ → List Reply) (acc : List Reply),
    (popElements arrays slots acc).isSome ↔ ∀ s, slots.count s ≤ (arrays s).length := by
  induction slots with
  | nil => exact fun arrays acc => by simp [popElements]
  | cons slot slots ih =>
    intro arrays acc
    rw [popElements]
    cases hlast : (arrays slot).getLast? with
    | none =>
      rw [List.getLast?_eq_none_iff] at hlast
      refine ⟨fun h => by simp at h, fun h => ?_⟩
      have := h slot
      rw [hlast, List.count_cons_self] at this
      simp at this
    | some r =>
      have hpos : 0 < (arrays slot).length := by
        rw [List.length_pos_iff]
        rintro hnil
        rw [hnil] at hlast
        cases hlast
      dsimp only
      rw [ih]
      refine forall_congr' fun s => ?_
      by_cases hs : s = slot
      · rw [hs, Function.update_self, List.length_dropLast, List.count_cons_self]
        omega
      · rw [Function.update_of_ne hs, List.count_cons_of_ne (Ne.symm hs)]

/-! ## The arrays of the fragments -/

section Fragments

variable {fragSeq : List ℤ} {frags : List (Cmd × Option Reply)}
  (hmap : FragmentMap fragSeq (frags.map Prod.fst))

include hmap

theorem fragmentArrays_of_mem {f : Cmd} {es : List Reply} (h : (f, some (.array es)) ∈ frags) :
    fragmentArrays frags f.slotNum = es := by
  have hinj : ∀ p ∈ frags, p.1.slotNum = f.slotNum → p = (f, some (.array es)) := by
    intro p hp hslot
    have hnodup : (frags.map fun p => p.1.slotNum).Nodup := by
      have := hmap.nodup
      rwa [List.map_map] at this
    exact List.inj_on_of_nodup_map hnodup hp h hslot
  unfold fragmentArrays
  cases hfind : frags.find? (·.1.slotNum = f.slotNum) with
  | none =>
    have := List.find?_eq_none.mp hfind _ h
    simp at this
  | some p =>
    have hslot : p.1.slotNum = f.slotNum := by simpa using List.find?_some hfind
    rw [hinj p (List.mem_of_find?_eq_some hfind) hslot]
    rfl

/-- With arrays for all fragments, each key's slot has one. -/
theorem fragmentArrays_cases (hall : ∀ p ∈ frags, IsArray p.2) (s : ℤ) :
    (∃ f es, (f, some (.array es)) ∈ frags ∧ f.slotNum = s ∧ fragmentArrays frags s = es ∧
      fragSeq.count s = f.keys.length) ∨ fragSeq.count s = 0 ∧ fragmentArrays frags s = [] := by
  by_cases hs : ∃ p ∈ frags, p.1.slotNum = s
  · obtain ⟨⟨f, r⟩, hp, rfl⟩ := hs
    obtain ⟨es, rfl⟩ : IsArray r := hall _ hp
    exact .inl ⟨f, es, hp, rfl, fragmentArrays_of_mem hmap hp,
      (hmap.keys f (List.mem_map_of_mem hp)).symm⟩
  · right
    constructor
    · rw [List.count_eq_zero]
      intro hmem
      obtain ⟨f, hf, hfs⟩ := hmap.mapped s hmem
      obtain ⟨p, hp, rfl⟩ := List.mem_map.mp hf
      exact hs ⟨p, hp, hfs⟩
    · have hnone : frags.find? (·.1.slotNum = s) = none :=
        List.find?_eq_none.mpr fun p hp h => hs ⟨p, hp, by simpa using h⟩
      rw [fragmentArrays, hnone]

end Fragments

/-! ## The merge -/

/-- The result of merging an MGET whose replies are arrays. -/
theorem commandPostFragment_arrays {frags : List (Cmd × Option Reply)}
    (hall : ∀ p ∈ frags, IsArray p.2) (fragSeq : List ℤ) (w : World ω) :
    (commandPostFragment .mget fragSeq frags w).1 =
      (popElements (fragmentArrays frags) fragSeq.reverse []).map Reply.array := by
  have hcheck : checkReplies .mget 0 (frags.map Prod.snd) = .ok 0 :=
    checkReplies_arrays (fun r hr => by
      obtain ⟨p, hp, rfl⟩ := List.mem_map.mp hr
      exact hall p hp) 0
  unfold commandPostFragment mergeReplies
  rw [hcheck]
  dsimp only
  cases popElements (fragmentArrays frags) fragSeq.reverse [] with
  | none => rfl
  | some es => rfl

/-- The result when the first reply that is no array decides. -/
theorem commandPostFragment_decided {before after : List (Cmd × Option Reply)}
    {p : Cmd × Option Reply} (hbefore : ∀ q ∈ before, IsArray q.2) (hp : ¬ IsArray p.2)
    (fragSeq : List ℤ) (w : World ω) :
    (commandPostFragment .mget fragSeq (before ++ p :: after) w).1 =
      (match p.2 with | some (.error s) => some (.error s) | _ => none) := by
  have harrays : ∀ r ∈ before.map Prod.snd, IsArray r := by
    intro r hr
    obtain ⟨q, hq, rfl⟩ := List.mem_map.mp hr
    exact hbefore q hq
  have hcheck := @checkReplies_decided _ (after.map Prod.snd) _ harrays hp 0
  rw [← List.map_cons, ← List.map_append] at hcheck
  unfold commandPostFragment mergeReplies
  rw [hcheck]
  obtain ⟨f, r⟩ := p
  match r with
  | none => rfl
  | some (.array es) => rfl
  | some (.error s) => rfl
  | some (.string s) => rfl
  | some (.status s) => rfl
  | some (.integer n) => rfl
  | some .nil => rfl
  | some (.other t) => rfl

/-- Where a reply that is no array decides, the merge is right. -/
theorem mergesRight_decided {fragSeq : List ℤ} {before after : List (Cmd × Option Reply)}
    {p : Cmd × Option Reply} (hbefore : ∀ q ∈ before, IsArray q.2) (hp : ¬ IsArray p.2) :
    MergesRight fragSeq (before ++ p :: after)
      (match p.2 with | some (.error s) => some (.error s) | _ => none) := by
  have hnotError : ¬ IsError p.2 → (match p.2 with
      | some (.error s) => some (Reply.error s) | _ => none) = none := by
    intro h
    split
    · rename_i s hs
      exact absurd ⟨s, hs⟩ h
    · rfl
  have harray : ∀ {r}, IsArray r → ¬ IsError r := by
    rintro _ ⟨es, rfl⟩ ⟨s, hs⟩
    cases hs
  constructor
  · intro es hes
    split at hes <;> cases hes
  · intro hno _ _ _ _
    exact hnotError (hno p (by simp))
  · intro before' p' after' hsplit hbefore' hp' herr'
    rcases split_compare hsplit with h | rfl | h
    · exact absurd (hbefore _ h) hp'
    · exact hnotError herr'
    · exact hnotError (hbefore' _ h)
  · intro before' f s after' hsplit hkind hbefore'
    rcases split_compare hsplit with h | h | h
    · exact absurd ⟨s, rfl⟩ (harray (hbefore _ h))
    · rw [← h]
    · exact absurd ((hkind _ h).resolve_right (hbefore' _ h)) hp

/-- **A merge is right if and only if it is not overfull**, that is, unless all replies are
arrays with elements enough and one has more elements than its fragment has keys. -/
theorem commandPostFragment_mergesRight_iff {fragSeq : List ℤ} {frags : List (Cmd × Option Reply)}
    (hmap : FragmentMap fragSeq (frags.map Prod.fst)) (w : World ω) :
    MergesRight fragSeq frags (commandPostFragment .mget fragSeq frags w).1 ↔ ¬ Overfull frags := by
  rcases exists_decisive frags with hall | ⟨before, p, after, rfl, hbefore, hp⟩
  · have hno : ∀ p ∈ frags, ¬ IsError p.2 := by
      rintro p hp ⟨s, hs⟩
      obtain ⟨es, hes⟩ := hall p hp
      rw [hs] at hes
      cases hes
    have hcount := popElements_isSome_iff fragSeq.reverse (fragmentArrays frags) []
    simp only [List.count_reverse] at hcount
    rw [commandPostFragment_arrays hall]
    constructor
    · rintro hright ⟨hlong, ⟨f, r⟩, hp, es, rfl, hlt⟩
      -- there are elements enough, so that an array is returned
      have hsome : (popElements (fragmentArrays frags) fragSeq.reverse []).isSome := by
        rw [hcount]
        intro s
        rcases fragmentArrays_cases hmap hall s with ⟨f', es', hp', -, harr, hkeys⟩ | ⟨hzero, -⟩
        · obtain ⟨es'', hes'', hle⟩ := hlong _ hp'
          cases hes''
          rw [harr, hkeys]
          exact hle
        · omega
      have hnone := hright.length hno f es hp (Nat.ne_of_gt hlt)
      rw [Option.map_eq_none_iff] at hnone
      rw [hnone] at hsome
      cases hsome
    · intro hover
      by_cases hlong : ∀ s, fragSeq.count s ≤ (fragmentArrays frags s).length
      · have hexact : ∀ f es, (f, some (.array es)) ∈ frags → es.length = f.keys.length := by
          intro f es hp
          have hle : ∀ f es, (f, some (.array es)) ∈ frags → f.keys.length ≤ es.length := by
            intro f es hp
            have := hlong f.slotNum
            rw [fragmentArrays_of_mem hmap hp, ← hmap.keys f (List.mem_map_of_mem hp)] at this
            exact this
          refine Nat.le_antisymm (Nat.not_lt.mp fun hlt => hover ⟨fun p hp => ?_, _, hp, es, rfl, hlt⟩)
            (hle f es hp)
          obtain ⟨es', hes'⟩ := hall p hp
          exact ⟨es', hes', hle p.1 es' (by rw [← hes']; exact hp)⟩
        obtain ⟨es, hes, hint⟩ := popElements_interleaves fragSeq.reverse (fragmentArrays frags) []
          fun s => by
            rw [List.count_reverse]
            rcases fragmentArrays_cases hmap hall s with ⟨f, es, hp, -, harr, hkeys⟩ | ⟨hzero, hnil⟩
            · rw [harr, hkeys, hexact f es hp]
            · rw [hnil, hzero, List.length_nil]
        rw [List.append_nil] at hes
        rw [List.reverse_reverse] at hint
        rw [hes, Option.map_some]
        refine ⟨fun es' hes' => ?_, fun _ f es hp hne => absurd (hexact f es hp) hne,
          fun before p after hsplit _ hp => absurd (hall p (by rw [hsplit]; simp)) hp,
          fun before f s after hsplit => ?_⟩
        · cases hes'
          refine ⟨hint.length.symm, fun i slot hi => ?_⟩
          have hmem := List.mem_of_getElem? hi
          rcases fragmentArrays_cases hmap hall slot with ⟨f, es', hp, hslot, harr, -⟩ | ⟨hzero, -⟩
          · have hat := partOf_getElem? hint.length hi
            rw [hint.part, harr] at hat
            refine ⟨f, es', hp, hslot, ?_, hat.symm⟩
            have hlt : i < es.length := hint.length ▸ (List.getElem?_eq_some_iff.mp hi).1
            rw [List.getElem?_eq_getElem hlt] at hat
            exact (List.getElem?_eq_some_iff.mp hat).1
          · exact absurd hmem (List.count_eq_zero.mp hzero)
        · exact absurd ⟨s, rfl⟩ (hno (f, some (.error s)) (by rw [hsplit]; simp))
      · rw [← hcount, Option.isSome_iff_ne_none, not_not] at hlong
        rw [hlong]
        refine ⟨fun es hes => (by cases hes), fun _ _ _ _ _ => rfl, fun _ _ _ _ _ _ _ => rfl, ?_⟩
        intro before f s after hsplit
        exact absurd ⟨s, rfl⟩ (hno (f, some (.error s)) (by rw [hsplit]; simp))
  · rw [commandPostFragment_decided hbefore hp]
    refine ⟨fun _ hover => ?_, fun _ => mergesRight_decided hbefore hp⟩
    obtain ⟨es, hes, -⟩ := hover.1 p (by simp)
    exact hp ⟨es, hes⟩

/-- Two keys of one slot and one of another. -/
def threeKeys (first second : List Reply) : List (Cmd × Option Reply) :=
  [({ id := 1, slotNum := 3, keys := [{ start := 0, stop := 1 }, { start := 1, stop := 2 }] },
      some (.array first)),
    ({ id := 2, slotNum := 9, keys := [{ start := 2, stop := 3 }] }, some (.array second))]

theorem threeKeys_map (first second : List Reply) :
    FragmentMap [3, 9, 3] ((threeKeys first second).map Prod.fst) := by
  refine ⟨by simp [threeKeys], fun s hs => ?_, fun f hf => ?_⟩
  · simp only [List.mem_cons, List.not_mem_nil, or_false] at hs
    rcases hs with rfl | rfl | rfl <;> simp [threeKeys]
  · simp only [threeKeys, List.map_cons, List.map_nil, List.mem_cons, List.not_mem_nil,
      or_false] at hf
    rcases hf with rfl | rfl <;> rfl

/-- Arrays of the right lengths. -/
theorem commandPostFragment_mergesRight_iff_three :
    MergesRight [3, 9, 3] (threeKeys [.integer 1, .integer 2] [.nil])
      (commandPostFragment .mget [3, 9, 3] (threeKeys [.integer 1, .integer 2] [.nil])
        ({ env := () } : World Unit)).1 := by
  refine (commandPostFragment_mergesRight_iff (threeKeys_map _ _) _).mpr ?_
  rintro ⟨-, p, hp, es, hes, hlt⟩
  simp only [threeKeys, List.mem_cons, List.not_mem_nil, or_false] at hp
  rcases hp with rfl | rfl
  · cases hes
    exact absurd hlt (by decide)
  · cases hes
    exact absurd hlt (by decide)

/-- **An element too many shifts the values**: the first key gets the value of the third. -/
theorem surplus_not_mergesRight :
    ¬ ∀ (fragSeq : List ℤ) (frags : List (Cmd × Option Reply)) (w : World Unit),
      FragmentMap fragSeq (frags.map Prod.fst) →
        MergesRight fragSeq frags (commandPostFragment .mget fragSeq frags w).1 := by
  intro h
  have hright := h [3, 9, 3] (threeKeys [.integer 1, .integer 2, .integer 3] [.nil]) { env := () }
    (threeKeys_map _ _)
  obtain ⟨-, hat⟩ := hright.array [.integer 2, .nil, .integer 3] rfl
  obtain ⟨f, es, hmem, hslot, -, hval⟩ := hat 0 3 rfl
  simp only [threeKeys, List.mem_cons, List.not_mem_nil, or_false] at hmem
  rcases hmem with hmem | hmem
  · cases hmem
    cases hval
  · cases hmem
    cases hslot
