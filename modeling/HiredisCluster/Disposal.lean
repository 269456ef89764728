/-
# Reply objects of multi-slot commands

The replies to the fragments of a command are objects that are owned by someone: by the
fragments, which release them when they are destroyed, or by the reply that is handed to
the caller.  Here replies are tracked by identity, and the ledger of a call says which
objects were handed out and which were released.

The blocking path hands out an error reply without attaching it to its fragment.  The
pipelined path attaches every reply first, and hands out an error reply that is then
released together with the request.

Embedded source: `command_post_fragment`, the loops over the fragments of
`redisClusterFormattedCommand` and `redisClusterGetReply` (`hircluster.c`),
`command_destroy` (`command.c`), with the identities that `Fragment` and `Pipeline` leave
out.
-/
import HiredisCluster.Pipeline
import Mathlib.Data.List.Perm.Basic

/-! ## Replies with identities -/

/-- A `redisReply` object. -/
inductive ReplyObject where
  | string (id : ℕ) (str : Bytes)
  | status (id : ℕ) (str : Bytes)
  | error (id : ℕ) (str : Bytes)
  | integer (id : ℕ) (n : ℤ)
  | array (id : ℕ) (elems : List ReplyObject)
  | nil (id : ℕ)
  | other (id : ℕ) (type : ℕ)

mutual

/-- The objects that `freeReplyObject` releases. -/
def ReplyObject.ids : ReplyObject → List ℕ
  | .array id elems => id :: idsOf elems
  | .string id _ | .status id _ | .error id _ | .integer id _ | .nil id | .other id _ => [id]

/-- The objects of several replies. -/
def idsOf : List ReplyObject → List ℕ
  | [] => []
  | t :: ts => t.ids ++ idsOf ts

end

mutual

/-- The reply without identities. -/
def ReplyObject.reply : ReplyObject → Reply
  | .string _ str => .string str
  | .status _ str => .status str
  | .error _ str => .error str
  | .integer _ n => .integer n
  | .array _ elems => .array (repliesOf elems)
  | .nil _ => .nil
  | .other _ type => .other type

def repliesOf : List ReplyObject → List Reply
  | [] => []
  | t :: ts => t.reply :: repliesOf ts

end

theorem idsOf_append (ts ts' : List ReplyObject) : idsOf (ts ++ ts') = idsOf ts ++ idsOf ts' := by
  induction ts with
  | nil => rw [List.nil_append, idsOf, List.nil_append]
  | cons t ts ih => rw [List.cons_append, idsOf, idsOf, ih, List.append_assoc]

theorem repliesOf_eq_map (ts : List ReplyObject) : repliesOf ts = ts.map ReplyObject.reply := by
  induction ts with
  | nil => rw [repliesOf, List.map_nil]
  | cons t ts ih => rw [repliesOf, List.map_cons, ih]

/-! ## The fragments and their replies -/

/-- A fragment with the reply that is attached to it. -/
abbrev TrackedFragment := Cmd × Option ReplyObject

/-- The fragments as `Fragment` has them. -/
def erase (frags : List TrackedFragment) : List (Cmd × Option Reply) :=
  frags.map fun f => (f.1, f.2.map ReplyObject.reply)

/-- `command_destroy` of each fragment. -/
def destroyFragments (frags : List TrackedFragment) : List ℕ :=
  idsOf (frags.filterMap Prod.snd)

/-- What `command_post_fragment` returns: nothing, the reply of a fragment, a new reply
that took over elements, or a new reply of its own. -/
inductive Handed where
  | null
  | fragment (t : ReplyObject)
  | array (elems : List ReplyObject)
  | fresh (r : Reply)

/-- The received objects that are part of the reply. -/
def Handed.ids : Handed → List ℕ
  | .fragment t => t.ids
  | .array elems => idsOf elems
  | _ => []

/-- The reply as the caller sees it. -/
def Handed.reply : Handed → Option Reply
  | .null => none
  | .fragment t => some t.reply
  | .array elems => some (.array (repliesOf elems))
  | .fresh r => some r

/-- What is returned, the fragments as they are left, and the objects released
meanwhile. -/
structure Posted where
  handed : Handed
  frags : List TrackedFragment
  freed : List ℕ

/-- The first loop of `command_post_fragment`: the first reply that decides, or all are as
expected. -/
def checkTracked (type : CmdType) : List TrackedFragment → Option Handed
  | [] => none
  | (_, none) :: _ => some .null
  | (_, some (.error id s)) :: _ => some (.fragment (.error id s))
  | (_, some t) :: fs => if fragmentReplyOk type t.reply then checkTracked type fs else some .null

/-- Move the last element out of the array of the fragment of a slot. -/
def popLast (slot : ℤ) : List TrackedFragment → Option (ReplyObject × List TrackedFragment)
  | [] => none
  | (f, r) :: fs =>
    if f.slotNum = slot then
      match r with
      | some (.array id es) =>
        es.getLast?.map fun e => (e, (f, some (.array id es.dropLast)) :: fs)
      | _ => none
    else (popLast slot fs).map fun p => (p.1, (f, r) :: p.2)

/-- The second loop, over the slots of the keys from the last to the first.  If an array
is too short, the new reply is released with what it has got. -/
def popTracked : List TrackedFragment → List ℤ → List ReplyObject → Posted
  | frags, [], acc => ⟨.array acc, frags, []⟩
  | frags, slot :: slots, acc =>
    match popLast slot frags with
    | none => ⟨.null, frags, idsOf acc⟩
    | some (e, frags') => popTracked frags' slots (e :: acc)

/-- The total of the integer replies. -/
def countTracked : ℤ → List TrackedFragment → ℤ
  | count, [] => count
  | count, (_, some (.integer _ n)) :: fs => countTracked (addCount count n) fs
  | count, _ :: fs => countTracked count fs

/-- `command_post_fragment`. -/
def postTracked (type : CmdType) (fragSeq : List ℤ) (frags : List TrackedFragment) : Posted :=
  match checkTracked type frags with
  | some h => ⟨h, frags, []⟩
  | none =>
    match type with
    | .mget => popTracked frags fragSeq.reverse []
    | .mset => ⟨.fresh (.status (ascii "OK")), frags, []⟩
    | _ => ⟨.fresh (.integer (countTracked 0 frags)), frags, []⟩

/-! ## The two paths -/

/-- What has become of the objects that were received. -/
structure Ledger where
  received : List ℕ
  handed : List ℕ
  freed : List ℕ
  deriving DecidableEq

/-- Every object was handed to the caller or released, once. -/
def Ledger.Balanced (l : Ledger) : Prop := (l.handed ++ l.freed).Perm l.received

instance (l : Ledger) : Decidable l.Balanced := inferInstanceAs (Decidable (List.Perm _ _))

/-- The ledger once the fragments are destroyed. -/
def Posted.ledger (p : Posted) (received : List ℕ) : Ledger where
  received
  handed := p.handed.ids
  freed := p.freed ++ destroyFragments p.frags

/-- `redisClusterGetReply` on a multi-slot request whose fragments get the given replies;
`none` is a failure to read one. -/
def pipelined (type : CmdType) (fragSeq : List ℤ) (done : List TrackedFragment) :
    List (Cmd × Option ReplyObject) → Ledger
  | [] => (postTracked type fragSeq done).ledger (destroyFragments done)
  | (_, none) :: _ => ⟨destroyFragments done, [], destroyFragments done⟩
  | (f, some t) :: fs => pipelined type fragSeq (done ++ [(f, some t)]) fs

/-- `redisClusterFormattedCommand` on a command whose fragments get the given replies;
`none` is a failure of `redis_cluster_command_execute`. -/
def blocking (type : CmdType) (fragSeq : List ℤ) (done : List TrackedFragment) :
    List (Cmd × Option ReplyObject) → Ledger
  | [] => (postTracked type fragSeq done).ledger (destroyFragments done)
  | (_, none) :: _ => ⟨destroyFragments done, [], destroyFragments done⟩
  | (_, some (.error id s)) :: _ =>
    ⟨destroyFragments done ++ [id], (ReplyObject.error id s).ids, destroyFragments done⟩
  | (f, some t) :: fs => blocking type fragSeq (done ++ [(f, some t)]) fs

/-! ## The replies are those of the model without identities -/

theorem fragmentArrays_popLast {slot : ℤ} : ∀ {frags frags' : List TrackedFragment} {e : ReplyObject},
    popLast slot frags = some (e, frags') →
      (fragmentArrays (erase frags) slot).getLast? = some e.reply ∧
      fragmentArrays (erase frags') = Function.update (fragmentArrays (erase frags)) slot
        (fragmentArrays (erase frags) slot).dropLast := by
  intro frags
  induction frags with
  | nil => exact fun h => by cases h
  | cons x frags ih =>
    obtain ⟨f, r⟩ := x
    intro frags' e h
    unfold popLast at h
    by_cases hslot : f.slotNum = slot
    · rw [if_pos hslot] at h
      split at h
      · rename_i id es
        obtain ⟨e', he, heq⟩ := Option.map_eq_some_iff.mp h
        obtain ⟨rfl, rfl⟩ := Prod.mk.inj heq
        have hhere : ∀ es' : List ReplyObject, fragmentArrays (erase ((f, some (.array id es')) :: frags))
            slot = es'.map ReplyObject.reply := by
          intro es'
          simp [fragmentArrays, erase, hslot, ReplyObject.reply, Reply.elems, repliesOf_eq_map]
        refine ⟨?_, funext fun s => ?_⟩
        · rw [hhere, List.getLast?_map, he]
          rfl
        · rcases eq_or_ne s slot with rfl | hs
          · rw [Function.update_self, hhere, hhere, List.map_dropLast]
          · rw [Function.update_of_ne hs]
            have hne : ¬ f.slotNum = s := fun hf => hs (hf.symm.trans hslot)
            simp [fragmentArrays, erase, hne]
      · cases h
    · rw [if_neg hslot] at h
      obtain ⟨p, hp, heq⟩ := Option.map_eq_some_iff.mp h
      obtain ⟨rfl, rfl⟩ := Prod.mk.inj heq
      obtain ⟨hlast, harrays⟩ := ih (e := p.1) hp
      have hskip : ∀ (fs : List TrackedFragment) (s : ℤ), fragmentArrays (erase ((f, r) :: fs)) s =
          if f.slotNum = s then (r.map ReplyObject.reply).elim [] Reply.elems
          else fragmentArrays (erase fs) s := by
        intro fs s
        by_cases hs : f.slotNum = s
        · rw [if_pos hs]
          cases r <;> simp [fragmentArrays, erase, hs]
        · simp [fragmentArrays, erase, hs]
      refine ⟨?_, funext fun s => ?_⟩
      · rw [hskip, if_neg hslot]
        exact hlast
      · rw [hskip, harrays]
        rcases eq_or_ne s slot with rfl | hs
        · rw [if_neg hslot, Function.update_self, Function.update_self, hskip, if_neg hslot]
        · rw [Function.update_of_ne hs, Function.update_of_ne hs, hskip]

theorem fragmentArrays_popLast_none {slot : ℤ} {frags : List TrackedFragment}
    (h : popLast slot frags = none) : (fragmentArrays (erase frags) slot).getLast? = none := by
  induction frags with
  | nil => rfl
  | cons x frags ih =>
    obtain ⟨f, r⟩ := x
    unfold popLast at h
    by_cases hslot : f.slotNum = slot
    · rw [if_pos hslot] at h
      split at h
      · rename_i id es
        have hes : es = [] := by simpa using h
        simp [fragmentArrays, erase, hslot, ReplyObject.reply, Reply.elems, hes, repliesOf]
      · rename_i hno
        cases r with
        | none => simp [fragmentArrays, erase, hslot]
        | some t =>
          cases t with
          | array id es => exact (hno id es rfl).elim
          | _ => simp [fragmentArrays, erase, hslot, ReplyObject.reply, Reply.elems]
    · rw [if_neg hslot] at h
      have hrest := ih (by simpa using h)
      simpa [fragmentArrays, erase, hslot] using hrest

theorem popTracked_reply (slots : List ℤ) : ∀ (frags : List TrackedFragment) (acc : List ReplyObject),
    (popTracked frags slots acc).handed.reply =
      (popElements (fragmentArrays (erase frags)) slots (acc.map ReplyObject.reply)).map Reply.array := by
  induction slots with
  | nil =>
    intro frags acc
    rw [popTracked, popElements, ← repliesOf_eq_map]
    rfl
  | cons slot slots ih =>
    intro frags acc
    unfold popTracked popElements
    cases hpop : popLast slot frags with
    | none =>
      rw [fragmentArrays_popLast_none hpop]
      rfl
    | some p =>
      obtain ⟨hlast, harrays⟩ := fragmentArrays_popLast (e := p.1) hpop
      rw [hlast]
      dsimp only
      rw [ih, harrays, List.map_cons]

/-- The first loop comes to the same with and without identities. -/
inductive SameCheck (total : ℤ) : Option Handed → Except Merge ℤ → Prop where
  | null : SameCheck total (some .null) (.error .null)
  | wrong (text : String) : SameCheck total (some .null) (.error (.error text))
  | fragment (t : ReplyObject) : SameCheck total (some (.fragment t)) (.error (.reply t.reply))
  | ok : SameCheck total none (.ok total)

/-- The first loop hands out nothing, or an error reply. -/
theorem checkTracked_cases {type : CmdType} {frags : List TrackedFragment} {h : Handed}
    (hc : checkTracked type frags = some h) : h = .null ∨
      ∃ before f id s after, h = .fragment (.error id s) ∧
        frags = before ++ (f, some (.error id s)) :: after ∧
        ∀ r ∈ before, ∃ t, r.2 = some t ∧ fragmentReplyOk type t.reply = true := by
  induction frags with
  | nil => cases hc
  | cons x frags ih =>
    obtain ⟨f, r⟩ := x
    -- a reply that is as expected is passed over
    have hnext : ∀ t, r = some t → fragmentReplyOk type t.reply = true →
        checkTracked type frags = some h → h = .null ∨
          ∃ before f' id s after, h = .fragment (.error id s) ∧
            (f, r) :: frags = before ++ (f', some (.error id s)) :: after ∧
            ∀ r ∈ before, ∃ t, r.2 = some t ∧ fragmentReplyOk type t.reply = true := by
      intro t hr hok hrest
      rcases ih hrest with hnull | ⟨before, f', id, s, after, hh, rfl, hbefore⟩
      · exact .inl hnull
      · refine .inr ⟨(f, r) :: before, f', id, s, after, hh, rfl, ?_⟩
        intro r' hr'
        rcases List.mem_cons.mp hr' with rfl | hmem
        · exact ⟨t, hr, hok⟩
        · exact hbefore r' hmem
    unfold checkTracked at hc
    split at hc
    · cases hc
    · exact .inl (Option.some.inj hc).symm
    · rename_i id s _ heq
      obtain ⟨hx, rfl⟩ := List.cons.inj heq
      obtain ⟨rfl, rfl⟩ := Prod.mk.inj hx
      exact .inr ⟨[], f, id, s, frags, (Option.some.inj hc).symm, rfl, by simp⟩
    · rename_i t fs _ heq
      obtain ⟨hx, rfl⟩ := List.cons.inj heq
      obtain ⟨rfl, rfl⟩ := Prod.mk.inj hx
      split at hc
      · exact hnext t rfl ‹_› hc
      · exact .inl (Option.some.inj hc).symm

theorem checkTracked_same (type : CmdType) (frags : List TrackedFragment) : ∀ count,
    SameCheck (countTracked count frags) (checkTracked type frags)
      (checkReplies type count ((erase frags).map Prod.snd)) := by
  induction frags with
  | nil => exact fun count => .ok
  | cons x frags ih =>
    obtain ⟨f, r⟩ := x
    intro count
    cases r with
    | none => exact .null
    | some t =>
      by_cases hok : fragmentReplyOk type t.reply = true
      · cases t with
        | error id s => exact .fragment (.error id s)
        | integer id n =>
          have h := ih (addCount count n)
          simp only [ReplyObject.reply] at hok
          simpa [checkTracked, erase, ReplyObject.reply, checkReplies, countTracked, hok] using h
        | _ =>
          have h := ih count
          simp only [ReplyObject.reply] at hok
          simpa [checkTracked, erase, ReplyObject.reply, checkReplies, countTracked, hok] using h
      · cases t with
        | error id s => exact .fragment (.error id s)
        | _ =>
          simp only [ReplyObject.reply] at hok
          simpa [checkTracked, erase, ReplyObject.reply, checkReplies, hok] using SameCheck.wrong _

/-- **The reply that is handed out is the one of `command_post_fragment`** without
identities. -/
theorem commandPostFragment_eq {ω : Type} (type : CmdType) (fragSeq : List ℤ)
    (frags : List TrackedFragment) (w : World ω) :
    (commandPostFragment type fragSeq (erase frags) w).1 =
      (postTracked type fragSeq frags).handed.reply := by
  have hcheck := checkTracked_same type frags 0
  unfold commandPostFragment mergeReplies postTracked
  generalize checkTracked type frags = h at hcheck
  generalize checkReplies type 0 ((erase frags).map Prod.snd) = m at hcheck
  cases hcheck with
  | null => rfl
  | wrong text => rfl
  | fragment t => rfl
  | ok =>
    dsimp only
    split
    · rw [popTracked_reply, List.map_nil]
      cases popElements (fragmentArrays (erase frags)) fragSeq.reverse [] with
      | none => rfl
      | some es => rfl
    · rfl
    · rename_i hmget hmset
      cases type with
      | mget => exact absurd rfl hmget
      | mset => exact absurd rfl hmset
      | _ => rfl

/-! ## Conservation -/

theorem destroyFragments_cons (f : TrackedFragment) (frags : List TrackedFragment) :
    destroyFragments (f :: frags) = destroyFragments [f] ++ destroyFragments frags := by
  rw [← List.singleton_append, destroyFragments, List.filterMap_append, idsOf_append]
  rfl

/-- An array and the element that is moved out of it. -/
theorem ids_array_dropLast {id : ℕ} {es : List ReplyObject} {e : ReplyObject} (h : es.getLast? = some e) :
    (e.ids ++ (ReplyObject.array id es.dropLast).ids).Perm (ReplyObject.array id es).ids := by
  have hsplit : es = es.dropLast ++ [e] := (List.dropLast_append_getLast? e h).symm
  have hids : idsOf es = idsOf es.dropLast ++ e.ids := by
    conv_lhs => rw [hsplit]
    rw [idsOf_append, idsOf, idsOf, List.append_nil]
  rw [ReplyObject.ids, ReplyObject.ids, hids]
  exact List.perm_middle.trans (List.Perm.cons id List.perm_append_comm)

theorem popLast_perm {slot : ℤ} : ∀ {frags frags' : List TrackedFragment} {e : ReplyObject},
    popLast slot frags = some (e, frags') →
      (e.ids ++ destroyFragments frags').Perm (destroyFragments frags) := by
  intro frags
  induction frags with
  | nil => exact fun h => by cases h
  | cons x frags ih =>
    obtain ⟨f, r⟩ := x
    intro frags' e h
    unfold popLast at h
    split at h
    · split at h
      · rename_i id es
        obtain ⟨e', he, heq⟩ := Option.map_eq_some_iff.mp h
        obtain ⟨rfl, rfl⟩ := Prod.mk.inj heq
        have hone : ∀ t, destroyFragments [(f, some t)] = t.ids := fun t => by
          show idsOf [t] = _
          rw [idsOf, idsOf, List.append_nil]
        rw [destroyFragments_cons, destroyFragments_cons (f, some (.array id es)), hone, hone,
          ← List.append_assoc]
        exact (ids_array_dropLast he).append_right _
      · cases h
    · obtain ⟨p, hp, heq⟩ := Option.map_eq_some_iff.mp h
      obtain ⟨rfl, rfl⟩ := Prod.mk.inj heq
      rw [destroyFragments_cons, destroyFragments_cons (f, r) frags, ← List.append_assoc]
      refine (List.perm_append_comm.append_right _).trans ?_
      rw [List.append_assoc]
      exact (ih (e := p.1) hp).append_left _

/-- Elements are moved, never copied or lost. -/
theorem popTracked_perm (slots : List ℤ) : ∀ (frags : List TrackedFragment) (acc : List ReplyObject),
    ((popTracked frags slots acc).handed.ids ++ ((popTracked frags slots acc).freed ++
      destroyFragments (popTracked frags slots acc).frags)).Perm
        (idsOf acc ++ destroyFragments frags) := by
  induction slots with
  | nil => exact fun frags acc => List.Perm.refl _
  | cons slot slots ih =>
    intro frags acc
    unfold popTracked
    cases hpop : popLast slot frags with
    | none => exact List.Perm.refl _
    | some p =>
      refine (ih p.2 (p.1 :: acc)).trans ?_
      rw [idsOf]
      refine (List.perm_append_comm.append_right _).trans ?_
      rw [List.append_assoc]
      exact (popLast_perm (e := p.1) hpop).append_left _

/-- What `command_post_fragment` does is balanced unless it hands out the reply of a
fragment. -/
theorem postTracked_balanced {type : CmdType} {fragSeq : List ℤ} {frags : List TrackedFragment}
    (h : ∀ t, checkTracked type frags ≠ some (.fragment t)) :
    ((postTracked type fragSeq frags).ledger (destroyFragments frags)).Balanced := by
  unfold postTracked
  split
  · rename_i hd hcheck
    have hnone : hd.ids = [] := by
      cases hd with
      | fragment t => exact absurd hcheck (h t)
      | array es =>
        rcases checkTracked_cases hcheck with hnull | ⟨_, _, _, _, _, hfrag, _⟩
        · cases hnull
        · cases hfrag
      | _ => rfl
    show (hd.ids ++ ([] ++ destroyFragments frags)).Perm _
    rw [hnone]
    exact List.Perm.refl _
  · split
    · exact popTracked_perm fragSeq.reverse frags []
    · exact List.Perm.refl _
    · exact List.Perm.refl _

/-- An error reply is handed out and released as well. -/
theorem postTracked_not_balanced {type : CmdType} {fragSeq : List ℤ} {frags : List TrackedFragment}
    {id : ℕ} {s : Bytes} (h : checkTracked type frags = some (.fragment (.error id s))) :
    ¬ ((postTracked type fragSeq frags).ledger (destroyFragments frags)).Balanced := by
  intro hb
  unfold postTracked at hb
  rw [h] at hb
  have hlen := List.Perm.length_eq hb
  have hids : (ReplyObject.error id s).ids = [id] := by rw [ReplyObject.ids]
  simp only [Posted.ledger, Handed.ids, hids, List.nil_append, List.length_append,
    List.length_singleton] at hlen
  omega

/-! ## Whole calls -/

/-- The reply that decides is an error: every fragment got a reply, and the first one that
is not of the kind its command has is an error. -/
def ErrorDecides (type : CmdType) (replies : List TrackedFragment) : Prop :=
  (∀ r ∈ replies, r.2 ≠ none) ∧
    ∃ before f id s after, replies = before ++ (f, some (.error id s)) :: after ∧
      ∀ r ∈ before, ∃ t, r.2 = some t ∧ fragmentReplyOk type t.reply = true

theorem fragmentReplyOk_error (type : CmdType) (id : ℕ) (s : Bytes) :
    fragmentReplyOk type (ReplyObject.error id s).reply = false := by
  cases type <;> rfl

/-- Replies that are as expected are passed over, and the error after them is found. -/
theorem checkTracked_error {type : CmdType} {before : List TrackedFragment}
    (hbefore : ∀ r ∈ before, ∃ t, r.2 = some t ∧ fragmentReplyOk type t.reply = true)
    (f : Cmd) (id : ℕ) (s : Bytes) (after : List TrackedFragment) :
    checkTracked type (before ++ (f, some (.error id s)) :: after) =
      some (.fragment (.error id s)) := by
  induction before with
  | nil => rfl
  | cons x before ih =>
    obtain ⟨f', r⟩ := x
    obtain ⟨t, rfl, hok⟩ := hbefore _ List.mem_cons_self
    have hrest := ih fun r hr => hbefore r (List.mem_cons_of_mem _ hr)
    cases t with
    | error id' s' =>
      rw [fragmentReplyOk_error] at hok
      cases hok
    | _ =>
      rw [List.cons_append, checkTracked, if_pos hok]
      · exact hrest
      · rintro _ _ ⟨⟩

/-- With every reply read, all of them are attached before they are merged. -/
theorem pipelined_eq (type : CmdType) (fragSeq : List ℤ) (replies : List TrackedFragment)
    (hall : ∀ r ∈ replies, r.2 ≠ none) : ∀ done, pipelined type fragSeq done replies =
      (postTracked type fragSeq (done ++ replies)).ledger (destroyFragments (done ++ replies)) := by
  induction replies with
  | nil =>
    intro done
    rw [List.append_nil]
    rfl
  | cons x replies ih =>
    obtain ⟨f, r⟩ := x
    intro done
    cases r with
    | none => exact absurd rfl (hall _ List.mem_cons_self)
    | some t =>
      unfold pipelined
      rw [ih (fun r hr => hall r (List.mem_cons_of_mem _ hr)), List.append_assoc,
        List.singleton_append]

/-- Where a reply cannot be read, those that were read are released. -/
theorem pipelined_missing (type : CmdType) (fragSeq : List ℤ) (replies : List TrackedFragment)
    (hmissing : ∃ r ∈ replies, r.2 = none) :
    ∀ done, (pipelined type fragSeq done replies).Balanced := by
  induction replies with
  | nil =>
    obtain ⟨r, hr, _⟩ := hmissing
    cases hr
  | cons x replies ih =>
    obtain ⟨f, r⟩ := x
    intro done
    cases r with
    | none => exact List.Perm.refl _
    | some t =>
      obtain ⟨r', hr', hnone⟩ := hmissing
      rcases List.mem_cons.mp hr' with rfl | hmem
      · cases hnone
      · exact ih ⟨r', hmem, hnone⟩ _

/-- The pipelined path is balanced unless an error decides. -/
theorem pipelined_balanced_iff (type : CmdType) (fragSeq : List ℤ) (replies : List TrackedFragment) :
    (pipelined type fragSeq [] replies).Balanced ↔ ¬ ErrorDecides type replies := by
  by_cases hall : ∀ r ∈ replies, r.2 ≠ none
  · rw [pipelined_eq type fragSeq replies hall [], List.nil_append]
    constructor
    · rintro hb ⟨_, before, f, id, s, after, rfl, hbefore⟩
      exact postTracked_not_balanced (checkTracked_error hbefore f id s after) hb
    · intro hno
      apply postTracked_balanced
      intro t hcheck
      rcases checkTracked_cases hcheck with hnull | ⟨before, f, id, s, after, _, hsplit, hbefore⟩
      · cases hnull
      · exact hno ⟨hall, before, f, id, s, after, hsplit, hbefore⟩
  · refine ⟨fun _ h => hall h.1, fun _ => ?_⟩
    push Not at hall
    exact pipelined_missing type fragSeq replies hall []

/-- No error reply is attached to a fragment. -/
def NoError (frags : List TrackedFragment) : Prop := ∀ r ∈ frags, ∀ id s, r.2 ≠ some (.error id s)

/-- The blocking path is balanced: an error reply is handed out before it is attached. -/
theorem blocking_balanced (type : CmdType) (fragSeq : List ℤ) (replies : List TrackedFragment) :
    ∀ done, NoError done → (blocking type fragSeq done replies).Balanced := by
  induction replies with
  | nil =>
    intro done hdone
    apply postTracked_balanced
    intro t hcheck
    rcases checkTracked_cases hcheck with hnull | ⟨before, f, id, s, after, _, rfl, _⟩
    · cases hnull
    · exact hdone (f, some (.error id s)) (by simp) id s rfl
  | cons x replies ih =>
    obtain ⟨f, r⟩ := x
    intro done hdone
    have hattach : ∀ t : ReplyObject, (∀ id s, t ≠ .error id s) → NoError (done ++ [(f, some t)]) := by
      intro t ht r hr id s
      rcases List.mem_append.mp hr with hmem | hmem
      · exact hdone r hmem id s
      · rw [List.mem_singleton.mp hmem]
        exact fun h => ht id s (Option.some.inj h)
    cases r with
    | none => exact List.Perm.refl _
    | some t =>
      cases t with
      | error id s =>
        show ((ReplyObject.error id s).ids ++ destroyFragments done).Perm _
        rw [ReplyObject.ids]
        exact List.perm_append_comm
      | _ => exact ih _ (hattach _ (by rintro id s ⟨⟩))

/-- **Every reply object of a multi-slot command is handed out or released, once**: on the
blocking path always, on the pipelined path unless an error decides, which is then handed
out and released. -/
theorem multiSlot_balanced_iff (type : CmdType) (fragSeq : List ℤ)
    (replies : List TrackedFragment) : (blocking type fragSeq [] replies).Balanced ∧
      ((pipelined type fragSeq [] replies).Balanced ↔ ¬ ErrorDecides type replies) :=
  ⟨blocking_balanced type fragSeq replies [] (by simp [NoError]),
    pipelined_balanced_iff type fragSeq replies⟩

/-- Two fragments of `DEL a b`, of which the first was sent to a node that has moved its
slot. -/
def movedDel : List TrackedFragment :=
  [({ id := 0, type := .del, slotNum := 3300 }, some (.error 0 (ascii "MOVED 3300 b:2"))),
    ({ id := 1, type := .del, slotNum := 15495 }, some (.integer 1 1))]

/-- The error reply is handed to the caller and released. -/
theorem movedDel_not_balanced :
    ¬ (∀ type fragSeq replies, (pipelined type fragSeq [] replies).Balanced) ∧
      (pipelined .del [15495, 3300] [] movedDel).handed = [0] ∧
      (pipelined .del [15495, 3300] [] movedDel).freed = [0, 1] := by
  have hledger : pipelined .del [15495, 3300] [] movedDel = ⟨[0, 1], [0], [0, 1]⟩ := by
    decide +kernel
  refine ⟨fun h => ?_, by rw [hledger], by rw [hledger]⟩
  have hb := h .del [15495, 3300] movedDel
  rw [hledger] at hb
  exact absurd hb (by decide)
