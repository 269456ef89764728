/-
# What is outstanding in a pipeline

The request list accounts for the replies to come: `World.due` lists them, each
with the connection it will be read from.  The account is sound as long as no
connection owes more than is due on it (`Covered`); every call of a pipeline keeps
it so, except where it leaves a reply behind that no request stands for
(`abandons`): the fragments already written when a later one could not be, the
replies to the fragments after one that could not be read, and a command sent to a
node that is not found under the address kept for it.
-/
import HiredisCluster.Pipeline

open Program

variable {ω : Type}

/-! ## What is outstanding -/

/-- The connection that serves a slot. -/
def World.slotConn (w : World ω) (slot : ℤ) : Option ConnId :=
  if 0 ≤ slot ∧ toUint32 slot < redisClusterSlots then
    (w.cc.table.bind fun t => t (toUint32 slot)).bind fun n => (w.heap n).con
  else none

/-- The connection of the node at an address. -/
def World.addrConn (w : World ω) (addr : Bytes) : Option ConnId :=
  ((w.cc.nodes.getD HashTable.empty).find addr).bind fun n => (w.heap n).con

/-- A reply that is due: where it will be read from, and what it answers. -/
abbrev Due := Option ConnId × Sent

/-- The replies a request stands for. -/
def World.dueOf (w : World ω) (r : Request) : List Due :=
  if 0 ≤ r.slotNum then [(w.slotConn r.slotNum, .command r.id r.cmd)]
  else
    match r.nodeAddr with
    | some addr => [(w.addrConn addr, .command r.id r.cmd)]
    | none => (r.subCommands.getD []).map fun f => (w.slotConn f.slotNum, .command f.id f.cmd)

/-- The replies all requests stand for. -/
def World.due (w : World ω) : List Due := (w.cc.requests.getD []).flatMap w.dueOf

/-- What is due on connection `c`. -/
def dueAt (c : ConnId) (l : List Due) : List Sent :=
  l.filterMap fun p => if p.1 = some c then some p.2 else none

@[simp] theorem dueAt_nil (c : ConnId) : dueAt c [] = [] := rfl

@[simp] theorem dueAt_cons_self (c : ConnId) (q : Sent) (l : List Due) :
    dueAt c ((some c, q) :: l) = q :: dueAt c l := by
  simp [dueAt]

theorem dueAt_cons_of_ne {c : ConnId} {p : Due} (h : p.1 ≠ some c) (l : List Due) :
    dueAt c (p :: l) = dueAt c l := by
  simp [dueAt, h]

@[simp] theorem dueAt_append (c : ConnId) (l l' : List Due) :
    dueAt c (l ++ l') = dueAt c l ++ dueAt c l' :=
  List.filterMap_append

/-- Usable connections owe no more than is due on them. -/
def Covered (l : List Due) (w : World ω) : Prop :=
  ∀ c, (w.conns c).err = none → (w.conns c).queue.length ≤ (dueAt c l).length

/-! ## Routing that stays -/

/-- The routing state stays, and nodes keep the connections they have. -/
structure Pipelining (w w' : World ω) : Prop where
  nodes : w'.cc.nodes = w.cc.nodes
  table : w'.cc.table = w.cc.table
  con : ∀ n < w.nextNode, ∀ c, (w.heap n).con = some c → (w'.heap n).con = some c
  nextNode : w.nextNode ≤ w'.nextNode
  nextConn : w.nextConn ≤ w'.nextConn
  addr : ∀ n < w.nextNode, (w'.heap n).addr = (w.heap n).addr
  ordered : Ordered w → Ordered w'

theorem Pipelining.refl (w : World ω) : Pipelining w w :=
  ⟨rfl, rfl, fun _ _ _ h => h, le_rfl, le_rfl, fun _ _ => rfl, id⟩

theorem Pipelining.trans {w w' w'' : World ω} (h : Pipelining w w') (h' : Pipelining w' w'') :
    Pipelining w w'' where
  nodes := h'.nodes.trans h.nodes
  table := h'.table.trans h.table
  con n hn c hc := h'.con n (lt_of_lt_of_le hn h.nextNode) c (h.con n hn c hc)
  nextNode := le_trans h.nextNode h'.nextNode
  nextConn := le_trans h.nextConn h'.nextConn
  addr n hn := (h'.addr n (lt_of_lt_of_le hn h.nextNode)).trans (h.addr n hn)
  ordered ho := h'.ordered (h.ordered ho)

instance : Std.Refl (@Pipelining ω) := ⟨Pipelining.refl⟩

instance : IsTrans (World ω) Pipelining := ⟨fun _ _ _ => Pipelining.trans⟩

theorem Linking.pipelining {w w' : World ω} (h : Linking w w') : Pipelining w w' :=
  ⟨h.nodes, h.table, h.con, h.nextNode, h.nextConn,
    fun n hn => Node.addr_of_endpoint (h.endpoint n hn), fun ho => ho.linking h⟩

theorem Linking.requests {w w' : World ω} (h : Linking w w') : w'.cc.requests = w.cc.requests := by
  obtain ⟨e, s, hcc⟩ := h.cc
  rw [hcc]

theorem pipelining_of_cc {w : World ω} {cc : Context} (hn : cc.nodes = w.cc.nodes)
    (ht : cc.table = w.cc.table) : Pipelining w { w with cc := cc } :=
  ⟨hn, ht, fun _ _ _ h => h, le_rfl, le_rfl, fun _ _ => rfl, fun ho => ho.of_cc hn ht⟩

theorem Pipelining.known {w w' : World ω} (h : Pipelining w w') {n : NodeId} :
    w'.Known n ↔ w.Known n := by
  unfold World.Known World.nodeList
  rw [h.nodes]

theorem Pipelining.held {w w' : World ω} (h : Pipelining w w') (ho : Ordered w) {c : ConnId}
    (hc : w.Held c) : w'.Held c := by
  obtain ⟨n, hn, hcon⟩ := hc
  exact ⟨n, h.known.mpr hn, h.con n (ho.routed.lt n hn) c hcon⟩

theorem held_of_slotConn {w : World ω} (ho : Ordered w) {slot : ℤ} {c : ConnId}
    (h : w.slotConn slot = some c) : w.Held c := by
  unfold World.slotConn at h
  split at h
  · obtain ⟨n, hn, hcon⟩ := Option.bind_eq_some_iff.mp h
    obtain ⟨t, ht, hts⟩ := Option.bind_eq_some_iff.mp hn
    exact ⟨n, ho.routed.known ht hts, hcon⟩
  · cases h

/-- Where a reply is due from may become known, and stays. -/
def Firmer (p p' : Due) : Prop := p'.2 = p.2 ∧ ∀ c, p.1 = some c → p'.1 = some c

theorem Pipelining.slotConn {w w' : World ω} (h : Pipelining w w') (ho : Ordered w) {slot : ℤ}
    {c : ConnId} (hc : w.slotConn slot = some c) : w'.slotConn slot = some c := by
  unfold World.slotConn at hc ⊢
  split at hc
  · rename_i hslot
    rw [if_pos hslot, h.table]
    obtain ⟨n, hn, hcon⟩ := Option.bind_eq_some_iff.mp hc
    obtain ⟨t, ht, hts⟩ := Option.bind_eq_some_iff.mp hn
    rw [hn, Option.bind_some]
    exact h.con n (ho.routed.lt n (ho.routed.known ht hts)) c hcon
  · cases hc

theorem Pipelining.addrConn {w w' : World ω} (h : Pipelining w w') (ho : Ordered w) {addr : Bytes}
    {c : ConnId} (hc : w.addrConn addr = some c) : w'.addrConn addr = some c := by
  unfold World.addrConn at hc ⊢
  rw [h.nodes]
  obtain ⟨n, hn, hcon⟩ := Option.bind_eq_some_iff.mp hc
  rw [hn, Option.bind_some]
  cases hd : w.cc.nodes with
  | none =>
    rw [hd] at hn
    cases hn
  | some d =>
    rw [hd] at hn
    have hk : w.Known n := (World.known_iff hd).mpr ⟨addr, (d.find_eq_some_iff _ _).mp hn⟩
    exact h.con n (ho.routed.lt n hk) c hcon

theorem Pipelining.dueOf {w w' : World ω} (h : Pipelining w w') (ho : Ordered w) (r : Request) :
    List.Forall₂ Firmer (w.dueOf r) (w'.dueOf r) := by
  unfold World.dueOf
  split
  · exact .cons ⟨rfl, fun c hc => h.slotConn ho hc⟩ .nil
  · split
    · exact .cons ⟨rfl, fun c hc => h.addrConn ho hc⟩ .nil
    · rw [List.forall₂_map_left_iff, List.forall₂_map_right_iff]
      exact List.forall₂_same.mpr fun f _ => ⟨rfl, fun c hc => h.slotConn ho hc⟩

theorem Pipelining.due {w w' : World ω} (h : Pipelining w w') (ho : Ordered w)
    (hreq : w'.cc.requests.getD [] = w.cc.requests.getD []) :
    List.Forall₂ Firmer w.due w'.due := by
  unfold World.due
  rw [hreq]
  induction w.cc.requests.getD [] with
  | nil => exact .nil
  | cons r rs ih => exact List.rel_append (h.dueOf ho r) ih

theorem dueAt_length_le {c : ConnId} {l l' : List Due} (h : List.Forall₂ Firmer l l') :
    (dueAt c l).length ≤ (dueAt c l').length := by
  induction h with
  | nil => exact le_rfl
  | @cons p p' l l' hp _ ih =>
    obtain ⟨oc, q⟩ := p
    by_cases hc : oc = some c
    · subst hc
      obtain ⟨oc', q'⟩ := p'
      have hc' : oc' = some c := hp.2 c rfl
      subst hc'
      simp only [dueAt_cons_self, List.length_cons]
      omega
    · rw [dueAt_cons_of_ne hc]
      obtain ⟨oc', q'⟩ := p'
      by_cases hc' : oc' = some c
      · subst hc'
        simp only [dueAt_cons_self, List.length_cons]
        omega
      · rw [dueAt_cons_of_ne hc']
        exact ih

theorem Covered.firmer {l l' : List Due} {w : World ω} (h : Covered l w)
    (hf : List.Forall₂ Firmer l l') : Covered l' w :=
  fun c hc => le_trans (h c hc) (dueAt_length_le hf)

/-- Connections that are left alone or idle stay covered. -/
theorem Covered.settles {l : List Due} {w w' : World ω} (h : Covered l w)
    (hs : ∀ c, w'.conns c = w.conns c ∨ Idle c w') : Covered l w' := by
  intro c herr
  rcases hs c with hc | hc
  · rw [hc] at herr ⊢
    exact h c herr
  · rw [hc herr]
    exact Nat.zero_le _

/-! ## Appending -/

section Appending

variable (H : Hiredis ω)

theorem copyError_conns (c : ConnId) (w : World ω) : (copyError c w).2.conns = w.conns := by
  show wp (copyError c) (fun _ w' => w'.conns = w.conns) w
  unfold copyError
  rw [wp_bind, wp_get]
  split
  · rfl
  · rfl

theorem nodeGetByTable_conns (slot : ℕ) (w : World ω) :
    (nodeGetByTable slot w).2.conns = w.conns := by
  show wp (nodeGetByTable slot) (fun _ w' => w'.conns = w.conns) w
  unfold nodeGetByTable
  rw [wp_bind, wp_get]
  split
  · rfl
  · split
    · rfl
    · split
      · rfl
      · rfl

/-- Connection `c` is left alone, or it is new or was in error and is idle now. -/
def Kept (w w' : World ω) (c : ConnId) : Prop :=
  w'.conns c = w.conns c ∨ Idle c w' ∧ ((w.conns c).err ≠ none ∨ w.nextConn ≤ c)

theorem ctxGetByNode_kept (n : NodeId) (w : World ω) (c : ConnId) :
    Kept w (ctxGetByNode H n w).2 c := by
  rcases (settles_ctxGetByNode H n w).conns c with h | h
  · exact Or.inl h
  · by_cases hnew : w.nextConn ≤ c
    · exact Or.inr ⟨h, Or.inr hnew⟩
    · by_cases herr : (w.conns c).err = none
      · exact Or.inl (ctxGetByNode_conns H n w (not_le.mp hnew) fun _ => herr)
      · exact Or.inr ⟨h, Or.inl herr⟩

/-- Connections are left alone or idle. -/
def Quiet (w w' : World ω) : Prop := ∀ c, w'.conns c = w.conns c ∨ Idle c w'

theorem Kept.quiet {w w' : World ω} (h : ∀ c, Kept w w' c) : Quiet w w' :=
  fun c => (h c).imp id And.left

/-- A connection has just failed. -/
theorem Quiet.fail {w w₁ w' : World ω} {c : ConnId} (h : Quiet w w₁) (honly : OnlyAt c w₁ w')
    (herr : (w'.conns c).err ≠ none) : Quiet w w' := by
  intro c'
  rcases eq_or_ne c' c with rfl | hc
  · exact Or.inr fun h => absurd h herr
  · unfold Idle
    rw [honly c' hc]
    exact h c'

/-- Command `q` was written to `c`, all other connections being kept. -/
structure Writes (c : ConnId) (q : Sent) (w w' : World ω) : Prop where
  conns : ∃ w₁ : World ω, (∀ c', Kept w w₁ c') ∧ (w₁.conns c).err = none ∧ OnlyAt c w₁ w' ∧
    w'.conns c = { w₁.conns c with queue := (w₁.conns c).queue ++ [q] }
  held : ∀ c', w'.Held c' → w.Held c' ∨ c' = c

/-- The end of both kinds of append: the connection was looked up, and is used unless
it is in error. -/
theorem appendTo_spec {n : NodeId} {c : ConnId} {q : Sent} {w w₁ : World ω} (ho : Ordered w)
    (hl : Linking w w₁) (hcon : (w₁.heap n).con = some c) (hn : n < w.nextNode)
    (hm : ∀ m ≠ n, m < w.nextNode → (w₁.heap m).con = (w.heap m).con)
    (hk : ∀ c', Kept w w₁ c') (herr : (w₁.conns c).err = none) :
    wp (redisAppendCommand H c q) (fun r w₂ => Linking w w₂ ∧
      match r with
      | .err => Quiet w (copyError c w₂).2 ∧ Linking w (copyError c w₂).2
      | .ok => (w₂.heap n).con = some c ∧ Writes c q w w₂) w₁ := by
  refine wp_mono (wp_and (redisAppendCommand_conns H c q w₁) (calmly (within_redisAppendCommand H c q) w₁))
    fun r w₂ h₂ => ?_
  obtain ⟨⟨honly, -, hr⟩, hc⟩ := h₂
  have hl₂ := hl.trans hc.toLinking
  refine ⟨hl₂, ?_⟩
  cases r with
  | err =>
    refine ⟨(Kept.quiet hk).fail (honly.trans (onlyAt_copyError c c w₂)) ?_,
      hl₂.trans (calmly (within_copyError c) w₂).toLinking⟩
    rw [copyError_conns]
    exact hr
  | ok =>
    have hn₁ := lt_of_lt_of_le hn hl.nextNode
    have hcon₂ : (w₂.heap n).con = some c := hc.con n hn₁ c hcon
    refine ⟨hcon₂, ⟨w₁, hk, herr, honly, hr⟩, fun c' hheld => ?_⟩
    obtain ⟨m, hknown, hcon'⟩ := hheld
    have hknown' : w.Known m := hl₂.pipelining.known.mp hknown
    rcases eq_or_ne m n with rfl | hne
    · exact Or.inr (Option.some.inj (hcon'.symm.trans hcon₂))
    · have hlt := ho.routed.lt m hknown'
      rw [hc.conEq m (lt_of_lt_of_le hlt hl.nextNode), hm m hne hlt] at hcon'
      exact Or.inl ⟨m, hknown', hcon'⟩

theorem clusterAppendCommand_spec {f : Cmd} {w : World ω} (ho : Ordered w) (hf : 0 ≤ f.slotNum) :
    wp (clusterAppendCommand H f) (fun r w' => Linking w w' ∧
      match r with
      | .err => Quiet w w'
      | .ok => ∃ c, w'.slotConn f.slotNum = some c ∧ Writes c (.command f.id f.cmd) w w') w := by
  unfold clusterAppendCommand
  rw [wp_bind]
  refine wp_mono (wp_and (wp_and (calmly (within_nodeGetByTable _) w) (nodeGetByTable_some _ w))
    (show wp _ (fun _ w' => w'.conns = w.conns) w from nodeGetByTable_conns _ w))
    fun r w₁ h₁ => ?_
  obtain ⟨⟨hc₁, hsome⟩, hconns⟩ := h₁
  cases r with
  | none => exact ⟨hc₁.toLinking, fun c => Or.inl (congrFun hconns c)⟩
  | some n =>
    obtain ⟨rfl, hslot, t, ht, hts⟩ := hsome n rfl
    have hn := ho.routed.lt n (ho.routed.known ht hts)
    dsimp only
    rw [wp_bind]
    refine wp_mono (wp_and (ctxGetByNode_links H n w₁)
      (show wp _ (fun _ w' => ∀ c, Kept w₁ w' c) w₁ from ctxGetByNode_kept H n w₁))
      fun r w₂ h₂ => ?_
    obtain ⟨⟨⟨hl₂, hcon, hm⟩, -⟩, hk⟩ := h₂
    cases r with
    | none => exact ⟨hl₂, Kept.quiet hk⟩
    | some c =>
      dsimp only
      rw [wp_bind, wp_get]
      split
      · rename_i herr
        refine ⟨hl₂.trans (calmly (within_copyError c) w₂).toLinking,
          (Kept.quiet hk).fail (onlyAt_copyError c c w₂) ?_⟩
        show ((copyError c w₂).2.conns c).err ≠ none
        rw [copyError_conns]
        exact Option.isSome_iff_ne_none.mp herr
      · rename_i herr
        rw [wp_bind]
        refine wp_mono (appendTo_spec H ho hl₂ (hcon hn c rfl) hn hm hk
          (Option.not_isSome_iff_eq_none.mp herr)) fun r w₃ h₃ => ?_
        obtain ⟨hl₃, h₃⟩ := h₃
        cases r with
        | err => exact ⟨h₃.2, h₃.1⟩
        | ok =>
          obtain ⟨hcon', hw⟩ := h₃
          refine ⟨hl₃, c, ?_, hw⟩
          show w₃.slotConn f.slotNum = some c
          rw [World.slotConn, if_pos ⟨hf, hslot⟩, hl₃.table, ht, Option.bind_some, hts,
            Option.bind_some]
          exact hcon'

theorem Covered.writes {l : List Due} {c : ConnId} {q : Sent} {w w' : World ω} (h : Covered l w)
    (hw : Writes c q w w') : Covered (l ++ [(some c, q)]) w' := by
  obtain ⟨w₁, hk, herr₁, honly, hconn⟩ := hw.conns
  have h₁ := h.settles (Kept.quiet hk)
  intro c' herr
  rcases eq_or_ne c' c with rfl | hc
  · rw [hconn, dueAt_append, dueAt_cons_self, List.length_append, List.length_append]
    exact Nat.add_le_add_right (h₁ c' herr₁) 1
  · rw [honly c' hc] at herr ⊢
    rw [dueAt_append, dueAt_cons_of_ne (Ne.symm (by simpa using hc)), dueAt_nil, List.append_nil]
    exact h₁ c' herr

/-- The replies due to a list of fragments. -/
def World.dueFragments (w : World ω) (frags : List Cmd) : List Due :=
  frags.map fun f => (w.slotConn f.slotNum, .command f.id f.cmd)

theorem Pipelining.dueFragments {w w' : World ω} (h : Pipelining w w') (ho : Ordered w)
    (frags : List Cmd) : List.Forall₂ Firmer (w.dueFragments frags) (w'.dueFragments frags) := by
  unfold World.dueFragments
  rw [List.forall₂_map_left_iff, List.forall₂_map_right_iff]
  exact List.forall₂_same.mpr fun f _ => ⟨rfl, fun c hc => h.slotConn ho hc⟩

theorem linking_appendFragments {frags : List Cmd} (hf : ∀ f ∈ frags, 0 ≤ f.slotNum) :
    ∀ {w : World ω}, Ordered w → wp (appendFragments H frags) (fun _ w' => Linking w w') w := by
  induction frags with
  | nil => exact fun {w} _ => Linking.refl w
  | cons f fs ih =>
    intro w ho
    unfold appendFragments
    rw [wp_bind]
    refine wp_mono (clusterAppendCommand_spec H ho (hf f List.mem_cons_self)) fun r w₁ h₁ => ?_
    cases r with
    | err => exact h₁.1
    | ok =>
      refine wp_mono (ih (fun g hg => hf g (List.mem_cons_of_mem _ hg)) (ho.linking h₁.1))
        fun r w₂ h₂ => ?_
      exact h₁.1.trans h₂

/-- Fragments that are all appended are all due. -/
theorem appendFragments_covered {frags : List Cmd} (hf : ∀ f ∈ frags, 0 ≤ f.slotNum) :
    ∀ {w : World ω} {l : List Due}, Ordered w → Covered l w →
      wp (appendFragments H frags) (fun r w' => r = .ok →
        Covered (l ++ w'.dueFragments frags) w') w := by
  induction frags with
  | nil =>
    intro w l _ hcov _
    rw [World.dueFragments, List.map_nil, List.append_nil]
    exact hcov
  | cons f fs ih =>
    intro w l ho hcov
    have hfs : ∀ g ∈ fs, 0 ≤ g.slotNum := fun g hg => hf g (List.mem_cons_of_mem _ hg)
    unfold appendFragments
    rw [wp_bind]
    refine wp_mono (clusterAppendCommand_spec H ho (hf f List.mem_cons_self)) fun r w₁ h₁ => ?_
    cases r with
    | err => exact fun h => by cases h
    | ok =>
      obtain ⟨hl₁, c, hc, hw⟩ := h₁
      have ho₁ := ho.linking hl₁
      refine wp_mono (wp_and (ih hfs ho₁ (hcov.writes hw)) (linking_appendFragments H hfs ho₁))
        fun r w₂ h₂ hr => ?_
      obtain ⟨h₂, hl₂⟩ := h₂
      have h₂ := h₂ hr
      rw [List.append_assoc] at h₂
      have hslot : w₂.slotConn f.slotNum = some c := hl₂.pipelining.slotConn ho₁ hc
      rw [World.dueFragments, List.map_cons, hslot]
      exact h₂

/-- The first fragment is appended, and a later one is not. -/
def stopsAfterFirst (w : World ω) : List Cmd → Bool
  | [] => false
  | f :: fs =>
    let t := clusterAppendCommand H f w
    decide (t.1 = .ok) && decide ((appendFragments H fs t.2).1 = .err)

/-- A failure at the first fragment leaves nothing behind. -/
theorem appendFragments_failed {frags : List Cmd} (hf : ∀ f ∈ frags, 0 ≤ f.slotNum)
    {w : World ω} {l : List Due} (ho : Ordered w) (hcov : Covered l w)
    (hs : stopsAfterFirst H w frags = false) :
    wp (appendFragments H frags) (fun r w' => r = .err → Covered l w') w := by
  cases frags with
  | nil => exact fun h => by cases h
  | cons f fs =>
    have hs' : wp (clusterAppendCommand H f) (fun r w₁ =>
        (decide (r = .ok) && decide ((appendFragments H fs w₁).1 = .err)) = false) w := hs
    unfold appendFragments
    rw [wp_bind]
    refine wp_mono (wp_and (clusterAppendCommand_spec H ho (hf f List.mem_cons_self)) hs')
      fun r w₁ h₁ => ?_
    obtain ⟨⟨-, hr⟩, hs⟩ := h₁
    cases r with
    | err => exact fun _ => hcov.settles hr
    | ok =>
      intro (h : (appendFragments H fs w₁).1 = .err)
      rw [h] at hs
      cases hs

end Appending

/-! ## Reading -/

/-- Reading leaves routing, nodes and requests alone. -/
structure Reading (w w' : World ω) : Prop where
  heap : w'.heap = w.heap
  nodes : w'.cc.nodes = w.cc.nodes
  table : w'.cc.table = w.cc.table
  requests : w'.cc.requests = w.cc.requests
  nextNode : w'.nextNode = w.nextNode
  nextConn : w'.nextConn = w.nextConn
  ordered : Ordered w → Ordered w'

theorem Reading.refl (w : World ω) : Reading w w := ⟨rfl, rfl, rfl, rfl, rfl, rfl, id⟩

theorem Reading.trans {w w' w'' : World ω} (h : Reading w w') (h' : Reading w' w'') :
    Reading w w'' :=
  ⟨h'.heap.trans h.heap, h'.nodes.trans h.nodes, h'.table.trans h.table,
    h'.requests.trans h.requests, h'.nextNode.trans h.nextNode, h'.nextConn.trans h.nextConn,
    fun ho => h'.ordered (h.ordered ho)⟩

instance : Std.Refl (@Reading ω) := ⟨Reading.refl⟩

instance : IsTrans (World ω) Reading := ⟨fun _ _ _ => Reading.trans⟩

theorem reading_of_cc {w : World ω} {cc : Context} (hn : cc.nodes = w.cc.nodes)
    (ht : cc.table = w.cc.table) (hr : cc.requests = w.cc.requests) :
    Reading w { w with cc := cc } :=
  ⟨rfl, hn, ht, hr, rfl, rfl, fun ho => ho.of_cc hn ht⟩

theorem Reading.pipelining {w w' : World ω} (h : Reading w w') : Pipelining w w' where
  nodes := h.nodes
  table := h.table
  con n _ c hc := by rw [h.heap]; exact hc
  nextNode := le_of_eq h.nextNode.symm
  nextConn := le_of_eq h.nextConn.symm
  addr n _ := by rw [h.heap]
  ordered := h.ordered

theorem Reading.slotConn {w w' : World ω} (h : Reading w w') : w'.slotConn = w.slotConn := by
  funext slot
  unfold World.slotConn
  rw [h.table, h.heap]

theorem Reading.addrConn {w w' : World ω} (h : Reading w w') : w'.addrConn = w.addrConn := by
  funext addr
  unfold World.addrConn
  rw [h.nodes, h.heap]

theorem Reading.dueOf {w w' : World ω} (h : Reading w w') : w'.dueOf = w.dueOf := by
  funext r
  unfold World.dueOf
  rw [h.slotConn, h.addrConn]

theorem Reading.dueFragments {w w' : World ω} (h : Reading w w') :
    w'.dueFragments = w.dueFragments := by
  funext frags
  unfold World.dueFragments
  rw [h.slotConn]

/-- The attempt to read the reply to `q` from `oc`: the oldest reply of the connection
was taken, or nothing can be read from it any more. -/
def Reads (oc : Option ConnId) (q : Sent) (w : World ω) (r : Option Reply) (w' : World ω) : Prop :=
  Reading w w' ∧
    match r with
    | none => (∀ c, w'.conns c = w.conns c ∨ (w'.conns c).err ≠ none) ∧
        (∀ c, oc = some c → (w'.conns c).err ≠ none) ∧ w'.trace = w.trace
    | some reply => ∃ c a rest, oc = some c ∧ (w.conns c).err = none ∧
        (w.conns c).queue = a :: rest ∧ OnlyAt c w w' ∧
        w'.conns c = { w.conns c with queue := rest } ∧
        w'.trace = w.trace ++ [.read c q a reply]

section Reading

variable (H : Hiredis ω)

theorem reading_copyError (c : ConnId) : Within Reading (copyError c : Prog ω Unit) := by
  refine within_bind within_get fun w => ?_
  split
  · exact fun _ => reading_of_cc rfl rfl rfl
  · exact fun _ => reading_of_cc rfl rfl rfl

theorem reading_countFailedRead : Within Reading (countFailedRead : Prog ω Unit) := by
  intro w
  refine reading_of_cc ?_ ?_ ?_
  all_goals
    dsimp only
    split
    · rfl
    · split
      · rfl
      · rfl

theorem copyError_trace (c : ConnId) (w : World ω) : (copyError c w).2.trace = w.trace := by
  show wp (copyError c) (fun _ w' => w'.trace = w.trace) w
  unfold copyError
  rw [wp_bind, wp_get]
  split
  · rfl
  · rfl

theorem reading_redisGetReply (c : ConnId) (q : Sent) : Within Reading (redisGetReply H c q) := by
  have hconn : ∀ f : Conn → Conn, Within Reading (modifyConn c f : Prog ω Unit) := fun f w =>
    ⟨rfl, rfl, rfl, rfl, rfl, rfl, fun ho => ho.linking (calm_modifyConn c f w).toLinking⟩
  have hask : ∀ {α : Type} (f : ω → α × ω), Within Reading (ask f) := fun f w =>
    ⟨rfl, rfl, rfl, rfl, rfl, rfl, fun ho => ho.linking (calm_ask f w).toLinking⟩
  refine within_bind within_get fun w => within_ite (within_pure _) ?_
  split
  · exact within_bind (hask _) fun _ => within_bind (hconn _) fun _ => within_pure _
  · refine within_bind (hask _) fun r => ?_
    cases r with
    | error f => exact within_bind (hconn _) fun _ => within_pure _
    | ok r =>
      refine within_bind (hconn _) fun _ => within_bind (fun w => ?_) fun _ => within_pure _
      exact ⟨rfl, rfl, rfl, rfl, rfl, rfl, fun ho => ho.record (by simp)⟩

theorem clusterGetReplyFromNode_reads (n : NodeId) (q : Sent) (w : World ω) :
    wp (clusterGetReplyFromNode H n q) (fun r w' => Reads (w.heap n).con q w r w') w := by
  unfold clusterGetReplyFromNode
  rw [wp_bind, wp_get]
  split
  · rename_i hcon
    refine ⟨Reading.refl w, fun c => Or.inl rfl, fun c hc => ?_, rfl⟩
    rw [hcon] at hc
    cases hc
  · rename_i c hcon
    rw [hcon]
    split
    · rename_i herr
      rw [wp_bind]
      refine wp_mono (P := fun _ w₁ => Reading w w₁ ∧ w₁.conns = w.conns ∧ w₁.trace = w.trace)
        ⟨reading_countFailedRead w, rfl, rfl⟩ fun _ w₁ h₁ => ?_
      obtain ⟨hr, hconns, htrace⟩ := h₁
      have hconns' : (copyError c w₁).2.conns = w.conns := by rw [copyError_conns, hconns]
      refine ⟨hr.trans (reading_copyError c w₁), fun c' => Or.inl ?_, fun c' hc' => ?_, ?_⟩
      · exact congrFun hconns' c'
      · obtain rfl := Option.some.inj hc'
        show ((copyError c w₁).2.conns c).err ≠ none
        rw [hconns']
        exact Option.isSome_iff_ne_none.mp herr
      · show (copyError c w₁).2.trace = w.trace
        rw [copyError_trace, htrace]
    · rw [wp_bind]
      refine wp_mono (wp_and (redisGetReply_conns H c q w) (Within.wp (reading_redisGetReply H c q) w))
        fun r w₁ h₁ => ?_
      obtain ⟨⟨honly, hr⟩, hread⟩ := h₁
      cases r with
      | none =>
        refine ⟨hread.trans (reading_copyError c w₁), fun c' => ?_, fun c' hc' => ?_, ?_⟩
        · show (copyError c w₁).2.conns c' = _ ∨ ((copyError c w₁).2.conns c').err ≠ none
          rw [copyError_conns]
          rcases eq_or_ne c' c with rfl | hne
          · exact Or.inr hr.1
          · exact Or.inl (honly c' hne)
        · obtain rfl := Option.some.inj hc'
          show ((copyError c w₁).2.conns c).err ≠ none
          rw [copyError_conns]
          exact hr.1
        · show (copyError c w₁).2.trace = w.trace
          rw [copyError_trace, hr.2]
      | some a =>
        obtain ⟨herr, rest, hqueue, hconn, htrace⟩ := hr
        exact ⟨hread.trans (reading_of_cc rfl rfl rfl), c, a.answers, rest, rfl, herr, hqueue, honly,
          hconn, htrace⟩

theorem nodeGetByTable_slotConn {slot : ℤ} (hslot : 0 ≤ slot) (w : World ω) :
    wp (nodeGetByTable (toUint32 slot)) (fun r _ =>
      w.slotConn slot = r.bind fun n => (w.heap n).con) w := by
  unfold nodeGetByTable World.slotConn
  rw [wp_bind, wp_get]
  split
  · rename_i hge
    rw [if_neg fun h => absurd h.2 (not_lt.mpr hge)]
    rfl
  · rename_i hlt
    rw [if_pos ⟨hslot, not_le.mp hlt⟩]
    split
    · rename_i ht
      rw [ht]
      rfl
    · rename_i t ht
      rw [ht, Option.bind_some]
      split
      · rename_i hn
        rw [hn]
        rfl
      · rename_i n hn
        rw [hn]
        rfl

theorem reading_nodeGetByTable (slot : ℕ) : Within Reading (nodeGetByTable slot : Prog ω _) := by
  refine within_bind within_get fun w => within_ite ?_ ?_
  · exact within_bind (fun _ => reading_of_cc rfl rfl rfl) fun _ => within_pure _
  · split
    · exact within_bind (fun _ => reading_of_cc rfl rfl rfl) fun _ => within_pure _
    · split
      · exact within_bind (fun _ => reading_of_cc rfl rfl rfl) fun _ => within_pure _
      · exact within_pure _

theorem nodeGetByTable_trace (slot : ℕ) (w : World ω) :
    (nodeGetByTable slot w).2.trace = w.trace := by
  show wp (nodeGetByTable slot) (fun _ w' => w'.trace = w.trace) w
  unfold nodeGetByTable
  rw [wp_bind, wp_get]
  split
  · rfl
  · split
    · rfl
    · split
      · rfl
      · rfl

theorem clusterGetReply_reads (slot : ℤ) (q : Sent) (w : World ω) :
    wp (clusterGetReply H slot q) (fun r w' => Reads (w.slotConn slot) q w r w') w := by
  unfold clusterGetReply
  split
  · rename_i hneg
    refine ⟨Reading.refl w, fun c => Or.inl rfl, fun c hc => ?_, rfl⟩
    rw [World.slotConn, if_neg fun h => absurd h.1 (Int.not_le.mpr hneg)] at hc
    cases hc
  · rename_i hnn
    rw [wp_bind]
    refine wp_mono (wp_and (wp_and (nodeGetByTable_slotConn (Int.not_lt.mp hnn) w)
      (nodeGetByTable_some _ w)) (show wp _ (fun _ w₁ => Reading w w₁ ∧ w₁.conns = w.conns ∧
        w₁.trace = w.trace) w from ⟨reading_nodeGetByTable _ w, nodeGetByTable_conns _ w,
          nodeGetByTable_trace _ w⟩)) fun r w₁ h₁ => ?_
    obtain ⟨⟨hslot, hsome⟩, hr, hconns, htrace⟩ := h₁
    rw [hslot]
    cases r with
    | none => exact ⟨hr, fun c => Or.inl (congrFun hconns c), (fun c hc => by cases hc), htrace⟩
    | some n =>
      obtain ⟨rfl, -⟩ := hsome n rfl
      exact clusterGetReplyFromNode_reads H n q w₁

/-- Whatever comes of it, the reply is no longer due. -/
theorem Covered.reads {oc : Option ConnId} {q : Sent} {l : List Due} {w w' : World ω}
    {r : Option Reply} (h : Covered ((oc, q) :: l) w) (hr : Reads oc q w r w') : Covered l w' := by
  obtain ⟨-, hr⟩ := hr
  intro c herr
  cases r with
  | none =>
    obtain ⟨hkeep, hfail, -⟩ := hr
    have hne : oc ≠ some c := fun hc => absurd herr (hfail c hc)
    rcases hkeep c with hc | hc
    · rw [hc] at herr ⊢
      have := h c herr
      rwa [dueAt_cons_of_ne hne] at this
    · exact absurd herr hc
  | some reply =>
    obtain ⟨c', a, rest, rfl, herr', hqueue, honly, hconn, -⟩ := hr
    rcases eq_or_ne c c' with rfl | hc
    · have := h c herr'
      rw [hqueue, dueAt_cons_self, List.length_cons, List.length_cons] at this
      rw [hconn]
      show rest.length ≤ _
      omega
    · rw [honly c hc] at herr ⊢
      have := h c herr
      rwa [dueAt_cons_of_ne (Ne.symm (by simpa using hc))] at this

/-- A fragment after one that could not be read still has its reply to come. -/
def World.stillDue (w : World ω) (f : Cmd) : Bool :=
  match w.slotConn f.slotNum with
  | none => false
  | some c => (w.conns c).err.isNone

/-- Reading the fragments stops at one that cannot be read, and the reply to a later
one is still to come. -/
def stopsShort (w : World ω) : List Cmd → Bool
  | [] => false
  | f :: fs =>
    let t := clusterGetReply H f.slotNum (.command f.id f.cmd) w
    match t.1 with
    | none => fs.any t.2.stillDue
    | some _ => stopsShort t.2 fs

theorem Covered.forget {frags : List Cmd} {l : List Due} {w : World ω}
    (h : Covered (w.dueFragments frags ++ l) w) (hs : frags.any w.stillDue = false) :
    Covered l w := by
  intro c herr
  have hnone : dueAt c (w.dueFragments frags) = [] := by
    refine List.filterMap_eq_nil_iff.mpr fun p hp => if_neg fun hc => ?_
    obtain ⟨f, hf, rfl⟩ := List.mem_map.mp hp
    refine absurd ?_ (List.any_eq_false.mp hs f hf)
    rw [World.stillDue, show w.slotConn f.slotNum = some c from hc]
    exact Option.isNone_iff_eq_none.mpr herr
  have := h c herr
  rwa [dueAt_append, hnone, List.nil_append] at this

theorem reading_setError (type : Option Err) (str : ErrText) :
    Within Reading (setError type str : Prog ω Unit) :=
  fun _ => reading_of_cc rfl rfl rfl

theorem getFragmentReplies_covered {frags : List Cmd} (hf : ∀ f ∈ frags, 0 ≤ f.slotNum) :
    ∀ {w : World ω} {l : List Due} {done : List (Cmd × Option Reply)},
      Covered (w.dueFragments frags ++ l) w → stopsShort H w frags = false →
      wp (getFragmentReplies H done frags) (fun _ w' => Reading w w' ∧ Covered l w') w := by
  induction frags with
  | nil => exact fun {w l done} hcov _ => ⟨Reading.refl w, hcov⟩
  | cons f fs ih =>
    intro w l done hcov hs
    have hs' : wp (clusterGetReply H f.slotNum (.command f.id f.cmd)) (fun r w₁ =>
        (match r with
        | none => fs.any w₁.stillDue
        | some _ => stopsShort H w₁ fs) = false) w := hs
    unfold getFragmentReplies
    rw [if_neg (Int.not_lt.mpr (hf f List.mem_cons_self)), wp_bind]
    refine wp_mono (wp_and (clusterGetReply_reads H f.slotNum (.command f.id f.cmd) w) hs')
      fun r w₁ h₁ => ?_
    obtain ⟨hr, hs₁⟩ := h₁
    have hcov₁ : Covered (w₁.dueFragments fs ++ l) w₁ := by
      rw [hr.1.dueFragments]
      exact hcov.reads hr
    cases r with
    | none => exact ⟨hr.1, hcov₁.forget hs₁⟩
    | some reply =>
      refine wp_mono (ih (fun g hg => hf g (List.mem_cons_of_mem _ hg)) hcov₁ hs₁) fun r w₂ h₂ => ?_
      exact ⟨hr.1.trans h₂.1, h₂.2⟩

theorem reading_commandPostFragment (type : CmdType) (fragSeq : List ℤ)
    (frags : List (Cmd × Option Reply)) :
    Within Reading (commandPostFragment type fragSeq frags : Prog ω _) := by
  unfold commandPostFragment
  split
  · exact within_pure _
  · exact within_pure _
  · exact within_bind (reading_setError _ _) fun _ => within_pure _

theorem commandPostFragment_conns (type : CmdType) (fragSeq : List ℤ)
    (frags : List (Cmd × Option Reply)) (w : World ω) :
    (commandPostFragment type fragSeq frags w).2.conns = w.conns := by
  show wp (commandPostFragment type fragSeq frags) (fun _ w' => w'.conns = w.conns) w
  unfold commandPostFragment
  split
  · rfl
  · rfl
  · rfl

/-- What a stored request looks like: it is bound to a slot, or to a node, or it has
fragments that are. -/
def Request.Filed (r : Request) : Prop :=
  0 ≤ r.slotNum ∨ r.nodeAddr.isSome ∨ ∀ f ∈ r.subCommands.getD [], 0 ≤ f.slotNum

theorem Covered.conns_eq {l : List Due} {w w' : World ω} (h : Covered l w)
    (hc : w'.conns = w.conns) : Covered l w' :=
  h.settles fun c => Or.inl (congrFun hc c)

/-- Reading the replies to a request settles its part of the account, unless reading
stops short. -/
theorem getRequestReply_covered {r : Request} {w : World ω} {l : List Due} (hr : r.Filed)
    (hcov : Covered (w.dueOf r ++ l) w)
    (hs : r.slotNum < 0 → r.nodeAddr = none → stopsShort H w (r.subCommands.getD []) = false) :
    wp (getRequestReply H r) (fun _ w' => Reading w w' ∧ Covered l w') w := by
  unfold World.dueOf at hcov
  unfold getRequestReply
  rw [wp_bind, wp_get]
  split
  · rename_i hslot
    rw [if_pos hslot] at hcov
    exact wp_mono (clusterGetReply_reads H r.slotNum _ w) fun reply w' h => ⟨h.1, hcov.reads h⟩
  · rename_i hslot
    rw [if_neg hslot] at hcov
    split
    · rename_i addr haddr
      rw [haddr] at hcov
      dsimp only at hcov
      split
      · rename_i n hn
        have hconn : w.addrConn addr = (w.heap n).con := by rw [World.addrConn, hn, Option.bind_some]
        refine wp_mono (clusterGetReplyFromNode_reads H n _ w) fun reply w' h => ⟨h.1, ?_⟩
        rw [← hconn] at h
        exact hcov.reads h
      · rename_i hn
        have hconn : w.addrConn addr = none := by rw [World.addrConn, hn, Option.bind_none]
        refine ⟨reading_setError _ _ w, ?_⟩
        refine Covered.conns_eq (w := w) (fun c herr => ?_) rfl
        have := hcov c herr
        rwa [hconn, List.singleton_append, dueAt_cons_of_ne (by simp)] at this
    · rename_i haddr
      rw [haddr] at hcov
      dsimp only at hcov
      have hs := hs (Int.not_le.mp hslot) haddr
      split
      · rename_i hsub
        rw [hsub] at hcov
        exact ⟨reading_setError _ _ w, Covered.conns_eq (w := w) hcov rfl⟩
      · rename_i frags hsub
        rw [hsub, Option.getD_some] at hcov hs
        have hf : ∀ f ∈ frags, 0 ≤ f.slotNum := by
          rcases hr with hr | hr | hr
          · exact absurd hr hslot
          · rw [haddr] at hr
            cases hr
          · rw [hsub, Option.getD_some] at hr
            exact hr
        rw [wp_bind]
        refine wp_mono (getFragmentReplies_covered H hf hcov hs) fun rs w₁ h₁ => ?_
        cases rs with
        | none => exact h₁
        | some rs =>
          refine ⟨h₁.1.trans (reading_commandPostFragment _ _ _ w₁), ?_⟩
          exact h₁.2.conns_eq (commandPostFragment_conns _ _ _ w₁)

end Reading

/-! ## Formatting -/

theorem addToFragment_slots {id slot : ℕ} {k : KeyPos} {fs : List Cmd}
    (h : ∀ f ∈ fs, 0 ≤ f.slotNum) : ∀ f ∈ addToFragment id slot k fs, 0 ≤ f.slotNum := by
  have hnew : ∀ f ∈ [({ id, slotNum := slot, keys := [k], narg := 1 } : Cmd)], 0 ≤ f.slotNum := by
    intro f hf
    obtain rfl := List.mem_singleton.mp hf
    exact Int.natCast_nonneg slot
  induction fs with
  | nil => exact hnew
  | cons g gs ih =>
    obtain ⟨hg, hgs⟩ := List.forall_mem_cons.mp h
    unfold addToFragment
    split
    · exact List.forall_mem_cons.mpr ⟨hg, hgs⟩
    · split
      · exact List.forall_mem_cons.mpr ⟨hg, ih hgs⟩
      · exact List.forall_mem_cons.mpr ⟨hnew _ (List.mem_singleton.mpr rfl), h⟩

theorem collectFragments_slots {type : CmdType} {buf : Bytes} {ks : List KeyPos} :
    ∀ {id : ℕ} {fs : List Cmd}, (∀ f ∈ fs, 0 ≤ f.slotNum) →
      ∀ f ∈ (collectFragments type buf id fs ks).2, 0 ≤ f.slotNum := by
  induction ks with
  | nil => exact fun h => h
  | cons k ks ih => exact fun h => ih (addToFragment_slots h)

theorem addToFragment_ne_nil (id slot : ℕ) (k : KeyPos) (fs : List Cmd) :
    addToFragment id slot k fs ≠ [] := by
  cases fs with
  | nil => exact List.cons_ne_nil _ _
  | cons g gs =>
    unfold addToFragment
    split
    · exact List.cons_ne_nil _ _
    · split
      · exact List.cons_ne_nil _ _
      · exact List.cons_ne_nil _ _

theorem collectFragments_ne_nil {type : CmdType} {buf : Bytes} {ks : List KeyPos} :
    ∀ {id : ℕ} {fs : List Cmd}, fs ≠ [] ∨ ks ≠ [] → (collectFragments type buf id fs ks).2 ≠ [] := by
  induction ks with
  | nil => exact fun h => h.resolve_right fun h => h rfl
  | cons k ks ih => exact fun _ => ih (Or.inl (addToFragment_ne_nil _ _ _ _))

/-- Formatting touches neither connections nor the routing state nor the requests. -/
structure Formats (w w' : World ω) : Prop extends Pipelining w w' where
  conns : w'.conns = w.conns
  requests : w'.cc.requests.getD [] = w.cc.requests.getD []
  listed : w.cc.requests.isSome → w'.cc.requests.isSome
  trace : w'.trace = w.trace
  heap : w'.heap = w.heap

theorem Formats.refl (w : World ω) : Formats w w := ⟨Pipelining.refl w, rfl, rfl, id, rfl, rfl⟩

theorem Formats.trans {w w' w'' : World ω} (h : Formats w w') (h' : Formats w' w'') :
    Formats w w'' :=
  ⟨h.toPipelining.trans h'.toPipelining, h'.conns.trans h.conns, h'.requests.trans h.requests,
    fun hs => h'.listed (h.listed hs), h'.trace.trans h.trace, h'.heap.trans h.heap⟩

instance : Std.Refl (@Formats ω) := ⟨Formats.refl⟩

instance : IsTrans (World ω) Formats := ⟨fun _ _ _ => Formats.trans⟩

theorem formats_of_cc {w : World ω} {cc : Context} (hn : cc.nodes = w.cc.nodes)
    (ht : cc.table = w.cc.table) (hr : cc.requests = w.cc.requests) :
    Formats w { w with cc := cc } :=
  ⟨pipelining_of_cc hn ht, rfl, by rw [hr], (fun h => by rw [hr]; exact h), rfl, rfl⟩

theorem formats_cmdId (w : World ω) (id : ℕ) : Formats w { w with cmdId := id } :=
  ⟨⟨rfl, rfl, fun _ _ _ h => h, le_rfl, le_rfl, fun _ _ => rfl,
    fun ho => ⟨⟨ho.routed.view, ho.routed.lt, ho.routed.shown⟩, ho.wired.lt, ho.wired.inj⟩⟩,
    rfl, rfl, fun h => h, rfl, rfl⟩

/-- A formatted command is bound to a slot, or split into fragments that are. -/
def Request.Formatted (r : Request) : Prop :=
  r.nodeAddr = none ∧
    match r.subCommands with
    | none => 0 ≤ r.slotNum
    | some frags => r.slotNum < 0 ∧ frags ≠ [] ∧ ∀ f ∈ frags, 0 ≤ f.slotNum

/-- The replies due to a formatted command. -/
theorem Request.Formatted.dueOf {r : Request} (h : r.Formatted) (w : World ω) :
    w.dueOf r = w.dueFragments (r.subCommands.getD [r.toCmd]) := by
  obtain ⟨haddr, h⟩ := h
  unfold World.dueOf
  cases hs : r.subCommands with
  | none =>
    rw [hs] at h
    rw [if_pos h]
    rfl
  | some frags =>
    rw [hs] at h
    rw [if_neg (Int.not_le.mpr h.1), haddr]
    rfl

theorem Request.Formatted.slots {r : Request} (h : r.Formatted) :
    ∀ f ∈ r.subCommands.getD [r.toCmd], 0 ≤ f.slotNum := by
  obtain ⟨-, h⟩ := h
  cases hs : r.subCommands with
  | none =>
    rw [hs] at h
    intro f hf
    obtain rfl := List.mem_singleton.mp hf
    exact h
  | some frags =>
    rw [hs] at h
    exact h.2.2

theorem Request.Formatted.filed {r : Request} (h : r.Formatted) : r.Filed := by
  obtain ⟨-, h⟩ := h
  cases hs : r.subCommands with
  | none =>
    rw [hs] at h
    exact Or.inl h
  | some frags =>
    rw [hs] at h
    exact Or.inr (Or.inr (by rw [hs]; exact h.2.2))

theorem commandPreFragment_formatted {r : Request} (haddr : r.nodeAddr = none)
    (hsub : r.subCommands = none) (hslot : r.slotNum < 0) (hkeys : r.keys ≠ []) (w : World ω) :
    wp (commandPreFragment r) (fun p w' => Formats w w' ∧ (0 ≤ p.1 → p.2.Formatted)) w := by
  unfold commandPreFragment
  rw [wp_bind, wp_get, wp_bind, wp_modify]
  split
  · refine ⟨formats_cmdId w _, fun h => ⟨haddr, ?_⟩⟩
    show match r.subCommands with
      | none => _
      | some frags => _
    rw [hsub]
    exact h
  · refine ⟨formats_cmdId w _, fun _ => ⟨haddr, hslot, ?_, ?_⟩⟩
    · exact fun h => collectFragments_ne_nil (Or.inr hkeys) (List.map_eq_nil_iff.mp h)
    intro f hf
    obtain ⟨g, hg, rfl⟩ := List.mem_map.mp hf
    exact collectFragments_slots (by simp) g hg

theorem commandFormatBySlot_formatted (id : ℕ) (cmd : Bytes) (w : World ω) :
    wp (commandFormatBySlot { id, cmd }) (fun p w' => Formats w w' ∧ (0 ≤ p.1 → p.2.Formatted))
      w := by
  unfold commandFormatBySlot
  split
  · exact ⟨Formats.refl w, fun h => absurd (show (0 : ℤ) ≤ -1 from h) (by decide)⟩
  · split
    · exact ⟨formats_of_cc rfl rfl rfl, fun h => absurd (show (0 : ℤ) ≤ -1 from h) (by decide)⟩
    · dsimp only
      split
      · exact ⟨formats_of_cc rfl rfl rfl, fun h => absurd (show (0 : ℤ) ≤ -1 from h) (by decide)⟩
      · exact ⟨Formats.refl w, fun h => ⟨rfl, h⟩⟩
      · exact commandPreFragment_formatted rfl rfl (show (-1 : ℤ) < 0 by decide) (by assumption) w

/-! ## Calls of a pipeline -/

/-- The calls between which a pipeline lives. -/
inductive PipeOp where
  | append (cmd : Bytes)
  | appendToNode (n : NodeId) (cmd : Bytes)
  | getReply
  deriving DecidableEq

def PipeOp.isAppend : PipeOp → Bool
  | .getReply => false
  | _ => true

section Calls

variable (H : Hiredis ω)

/-- A call, without its result. -/
def PipeOp.run : PipeOp → Prog ω Unit
  | .append cmd => do
    let _ ← redisClusterAppendFormattedCommand H cmd
    pure ()
  | .appendToNode n cmd => do
    let _ ← redisClustervAppendCommandToNode H n cmd
    pure ()
  | .getReply => do
    let _ ← redisClusterGetReply H
    pure ()

/-- The part of `redisClusterAppendFormattedCommand` before anything is written. -/
def formatRequest (cmd : Bytes) : Prog ω (ℤ × Request) := do
  ensureRequests
  let id ← commandGet
  commandFormatBySlot { id, cmd }

/-- The call leaves a reply behind that no request stands for: a multi-slot command is
written in part, or its replies are read in part, or the node of a node-directed
command is not found under the address that is kept. -/
def abandons (w : World ω) : PipeOp → Bool
  | .append cmd =>
    let t := formatRequest cmd w
    stopsAfterFirst H t.2 (t.1.2.subCommands.getD [])
  | .appendToNode n _ =>
    decide ((w.cc.nodes.getD HashTable.empty).find (cstr (w.heap n).addr) ≠ some n)
  | .getReply =>
    match w.cc.requests with
    | some (r :: _) =>
      decide (r.slotNum < 0) && r.nodeAddr.isNone &&
        stopsShort H (clearError w).2 (r.subCommands.getD [])
    | _ => false

/-- The requests account for what the connections owe. -/
structure Accounted (w : World ω) : Prop where
  ordered : Ordered w
  covered : Covered w.due w
  filed : ∀ r ∈ w.cc.requests.getD [], r.Filed

theorem Accounted.formats {w w' : World ω} (h : Accounted w) (hf : Formats w w') : Accounted w' := by
  refine ⟨hf.ordered h.ordered, ?_, ?_⟩
  · exact (h.covered.conns_eq hf.conns).firmer (hf.toPipelining.due h.ordered hf.requests)
  · rw [hf.requests]
    exact h.filed

theorem formatRequest_formatted (cmd : Bytes) (w : World ω) :
    wp (formatRequest cmd) (fun p w' => Formats w w' ∧ w'.cc.requests.isSome ∧
      (0 ≤ p.1 → p.2.Formatted)) w := by
  unfold formatRequest
  rw [wp_bind]
  refine wp_mono (P := fun _ w₁ => Formats w w₁ ∧ w₁.cc.requests.isSome)
    ⟨⟨pipelining_of_cc rfl rfl, rfl, rfl, fun _ => rfl, rfl, rfl⟩, rfl⟩ fun _ w₁ h₁ => ?_
  rw [wp_bind]
  refine wp_mono (P := fun _ w₂ => Formats w₁ w₂) (formats_cmdId w₁ _) fun id w₂ h₂ => ?_
  refine wp_mono (commandFormatBySlot_formatted id cmd w₂) fun p w₃ h₃ => ?_
  exact ⟨(h₁.1.trans h₂).trans h₃.1, h₃.1.listed (h₂.listed h₁.2), h₃.2⟩

theorem forall₂_firmer_refl (l : List Due) : List.Forall₂ Firmer l l :=
  List.forall₂_same.mpr fun _ _ => ⟨rfl, fun _ h => h⟩

/-- A request was added for what was written meanwhile. -/
theorem Accounted.add {w w' : World ω} {r : Request} (h : Accounted w) (hp : Pipelining w w')
    (hreq : w'.cc.requests = w.cc.requests) (hsome : w.cc.requests.isSome) (hr : r.Filed)
    (hcov : Covered (w.due ++ w'.dueOf r) w') : Accounted (addRequest r w').2 := by
  obtain ⟨rs, hrs⟩ := Option.isSome_iff_exists.mp hsome
  have hreq' : (addRequest r w').2.cc.requests.getD [] = w.cc.requests.getD [] ++ [r] := by
    show (w'.cc.requests.map (· ++ [r])).getD [] = _
    rw [hreq, hrs]
    rfl
  have hdue : (addRequest r w').2.due = w'.due ++ w'.dueOf r := by
    unfold World.due
    rw [hreq', hreq, List.flatMap_append, List.flatMap_singleton]
    rfl
  refine ⟨?_, ?_, ?_⟩
  · exact (hp.ordered h.ordered).of_cc rfl rfl
  · rw [hdue]
    refine Covered.conns_eq (w := w') (hcov.firmer ?_) rfl
    exact List.rel_append (hp.due h.ordered (by rw [hreq])) (forall₂_firmer_refl _)
  · rw [hreq']
    intro r' hr'
    rcases List.mem_append.mp hr' with hr' | hr'
    · exact h.filed r' hr'
    · obtain rfl := List.mem_singleton.mp hr'
      exact hr

/-- Nothing was written, or what was is on a connection in error. -/
theorem Accounted.linking {w w' : World ω} (h : Accounted w) (hl : Linking w w')
    (hcov : Covered w.due w') : Accounted w' := by
  refine ⟨h.ordered.linking hl, hcov.firmer (hl.pipelining.due h.ordered (by rw [hl.requests])), ?_⟩
  rw [hl.requests]
  exact h.filed

/-- Appending a formatted command: all of it, or, unless it stops after the first
fragment, nothing. -/
theorem appendFormatted_covered {r : Request} {w : World ω} {l : List Due} (ho : Ordered w)
    (hcov : Covered l w) (hr : r.Formatted)
    (hs : stopsAfterFirst H w (r.subCommands.getD []) = false) :
    wp (appendFormatted H r) (fun s w' => Linking w w' ∧
      match s with
      | .ok => Covered (l ++ w'.dueOf r) w'
      | .err => Covered l w') w := by
  unfold appendFormatted
  have hslots := hr.slots
  cases hsub : r.subCommands with
  | none =>
    rw [hsub] at hslots
    dsimp only
    refine wp_mono (clusterAppendCommand_spec H ho (hslots r.toCmd (List.mem_singleton.mpr rfl)))
      fun s w' h => ⟨h.1, ?_⟩
    cases s with
    | err => exact hcov.settles h.2
    | ok =>
      obtain ⟨-, c, hc, hw⟩ := h
      dsimp only
      rw [hr.dueOf, hsub, World.dueFragments, Option.getD_none, List.map_singleton, hc]
      exact hcov.writes hw
  | some frags =>
    rw [hsub] at hslots hs
    dsimp only
    refine wp_mono (wp_and (wp_and (linking_appendFragments H hslots ho)
      (appendFragments_covered H hslots ho hcov)) (appendFragments_failed H hslots ho hcov hs))
      fun s w' h => ⟨h.1.1, ?_⟩
    cases s with
    | err => exact h.2 rfl
    | ok =>
      dsimp only
      rw [hr.dueOf, hsub]
      exact h.1.2 rfl

theorem redisClusterAppendFormattedCommand_eq (cmd : Bytes) :
    redisClusterAppendFormattedCommand H cmd = (do
      let (slotNum, command) ← formatRequest cmd
      if slotNum < 0 then pure .err
      else if redisClusterSlots ≤ slotNum.toNat then do
        setError (some .other) (.lit "slot_num is out of range")
        pure .err
      else do
        match ← appendFormatted H command with
        | .err => pure .err
        | .ok => do
          addRequest command
          pure .ok) := rfl

theorem append_accounted {cmd : Bytes} {w : World ω} (h : Accounted w)
    (hs : abandons H w (.append cmd) = false) :
    wp (redisClusterAppendFormattedCommand H cmd) (fun _ w' => Accounted w') w := by
  have hs' : wp (formatRequest cmd) (fun p w₁ =>
      stopsAfterFirst H w₁ (p.2.subCommands.getD []) = false) w := hs
  rw [redisClusterAppendFormattedCommand_eq, wp_bind]
  refine wp_mono (wp_and (formatRequest_formatted cmd w) hs') fun p w₁ h₁ => ?_
  obtain ⟨⟨hf, hsome, hform⟩, hs⟩ := h₁
  obtain ⟨slotNum, command⟩ := p
  have ha := h.formats hf
  dsimp only
  split
  · exact ha
  · rename_i hslot
    split
    · have hf' : Formats w₁ (setError (some .other) (.lit "slot_num is out of range") w₁).2 :=
        formats_of_cc rfl rfl rfl
      exact ha.formats hf'
    · rw [wp_bind]
      have hr := hform (Int.not_lt.mp hslot)
      refine wp_mono (appendFormatted_covered H ha.ordered ha.covered hr hs) fun s w₂ h₂ => ?_
      obtain ⟨hl, h₂⟩ := h₂
      cases s with
      | err => exact ha.linking hl h₂
      | ok => exact ha.add hl.pipelining hl.requests hsome hr.filed h₂

/-- What `redisClustervAppendCommandToNode` does: nothing is written, or the command
is written to the node's connection and a request is added for it. -/
theorem appendToNode_spec {n : NodeId} {cmd : Bytes} {w : World ω} (ho : Ordered w)
    (hlt : n < w.nextNode) :
    wp (redisClustervAppendCommandToNode H n cmd) (fun s w' => ∃ w₁, Formats w w₁ ∧
      w₁.cc.requests.isSome ∧
      match s with
      | .err => Linking w₁ w' ∧ Quiet w₁ w'
      | .ok => ∃ w₂ id c, Linking w₁ w₂ ∧ (w₂.heap n).con = some c ∧
          Writes c (.command id cmd) w₁ w₂ ∧
          w' = (addRequest { id, cmd, nodeAddr := some (cstr (w.heap n).addr) } w₂).2) w := by
  unfold redisClustervAppendCommandToNode
  rw [wp_bind]
  refine wp_mono (P := fun _ w₁ => Formats w w₁ ∧ w₁.cc.requests.isSome ∧ w₁.nextNode = w.nextNode)
    ⟨⟨pipelining_of_cc rfl rfl, rfl, rfl, fun _ => rfl, rfl, rfl⟩, rfl, rfl⟩ fun _ w₁ h₁ => ?_
  obtain ⟨hf, hsome, hnext⟩ := h₁
  have hlt₁ : n < w₁.nextNode := by rw [hnext]; exact hlt
  rw [wp_bind]
  refine wp_mono (wp_and (ctxGetByNode_links H n w₁)
    (show wp _ (fun _ w' => ∀ c, Kept w₁ w' c) w₁ from ctxGetByNode_kept H n w₁)) fun r w₂ h₂ => ?_
  obtain ⟨⟨⟨hl, hcon, hm⟩, -⟩, hk⟩ := h₂
  cases r with
  | none => exact ⟨w₁, hf, hsome, hl, Kept.quiet hk⟩
  | some c =>
    dsimp only
    rw [wp_bind, wp_get]
    split
    · rename_i herr
      refine ⟨w₁, hf, hsome, hl.trans (calmly (within_copyError c) w₂).toLinking,
        (Kept.quiet hk).fail (onlyAt_copyError c c w₂) ?_⟩
      show ((copyError c w₂).2.conns c).err ≠ none
      rw [copyError_conns]
      exact Option.isSome_iff_ne_none.mp herr
    · rename_i herr
      rw [wp_bind]
      -- the number of the new command plays no role for the connections
      refine wp_mono (P := fun _ w₃ => w₃.conns = w₂.conns ∧ w₃.heap = w₂.heap ∧ Linking w₁ w₃ ∧
        ∀ c, Kept w₁ w₃ c) ⟨rfl, rfl, ?_, hk⟩ fun id w₃ h₃ => ?_
      · exact ⟨hl.nextNode, hl.endpoint, hl.acc, hl.inflight, hl.cads, hl.nextAConn, hl.cc, hl.nextConn,
          fun hw => ⟨(hl.wired hw).lt, (hl.wired hw).inj⟩, hl.con, hl.trace⟩
      · obtain ⟨hconns, hheap, hl₃, hk₃⟩ := h₃
        rw [wp_bind]
        refine wp_mono (appendTo_spec H (hf.ordered ho) hl₃ (by rw [hheap]; exact hcon hlt₁ c rfl)
          hlt₁ (by rw [hheap]; exact hm) hk₃
          (by rw [hconns]; exact Option.not_isSome_iff_eq_none.mp herr)) fun s w₄ h₄ => ?_
        obtain ⟨hl₄, h₄⟩ := h₄
        cases s with
        | err => exact ⟨w₁, hf, hsome, h₄.2, h₄.1⟩
        | ok =>
          obtain ⟨hcon', hw⟩ := h₄
          refine ⟨w₁, hf, hsome, w₄, id, c, hl₄, hcon', hw, ?_⟩
          rw [← hf.addr n hlt, ← Node.addr_of_endpoint (hl.endpoint n hlt₁)]
          rfl

theorem appendToNode_accounted {n : NodeId} {cmd : Bytes} {w : World ω} (h : Accounted w)
    (hn : w.Known n) (hs : abandons H w (.appendToNode n cmd) = false) :
    wp (redisClustervAppendCommandToNode H n cmd) (fun _ w' => Accounted w') w := by
  have hfind : (w.cc.nodes.getD HashTable.empty).find (cstr (w.heap n).addr) = some n := by
    simpa [abandons] using hs
  refine wp_mono (appendToNode_spec H h.ordered (h.ordered.routed.lt n hn)) fun s w' h' => ?_
  obtain ⟨w₁, hf, hsome, h'⟩ := h'
  have ha := h.formats hf
  cases s with
  | err => exact ha.linking h'.1 (ha.covered.settles h'.2)
  | ok =>
    obtain ⟨w₂, id, c, hl, hcon, hw, rfl⟩ := h'
    refine ha.add hl.pipelining hl.requests hsome (Or.inr (Or.inl rfl)) ?_
    have haddr : w₂.addrConn (cstr (w.heap n).addr) = some c := by
      rw [World.addrConn, hl.nodes, hf.nodes, hfind, Option.bind_some, hcon]
    rw [World.dueOf, if_neg (show ¬ (0 : ℤ) ≤ -1 by decide)]
    dsimp only
    rw [haddr]
    exact ha.covered.writes hw

theorem getReply_accounted {w : World ω} (h : Accounted w)
    (hs : abandons H w .getReply = false) :
    wp (redisClusterGetReply H) (fun p w' => Accounted w' ∧
      w'.cc.requests.getD [] = (w.cc.requests.getD []).tail ∧
      (p = (.ok, none) → w'.cc.requests.getD [] = []) ∧
      (p.2 ≠ none → w.cc.requests.getD [] ≠ [])) w := by
  unfold redisClusterGetReply
  rw [wp_bind]
  refine wp_mono (P := fun _ w₁ => Reading w w₁ ∧ w₁.conns = w.conns ∧ w₁ = (clearError w).2)
    ⟨reading_setError _ _ w, rfl, rfl⟩ fun _ w₁ h₁ => ?_
  obtain ⟨hread, hconns, hw₁⟩ := h₁
  have hreq := hread.requests
  have hdue : w₁.due = w.due := by rw [World.due, hreq, hread.dueOf]; rfl
  have hcov : Covered w₁.due w₁ := by rw [hdue]; exact h.covered.conns_eq hconns
  have ha : Accounted w₁ := ⟨hread.ordered h.ordered, hcov, by rw [hreq]; exact h.filed⟩
  rw [wp_bind, wp_get]
  split
  · rename_i hnone
    refine ⟨ha, ?_, (fun h => by cases h), fun h => absurd rfl h⟩
    show w₁.cc.requests.getD [] = _
    rw [← hreq, hnone]
    rfl
  · rename_i hnil
    have hempty : w₁.cc.requests.getD [] = [] := by rw [hnil]; rfl
    refine ⟨ha, ?_, fun _ => hempty, fun h => absurd rfl h⟩
    show w₁.cc.requests.getD [] = _
    rw [← hreq, hempty]
    rfl
  · rename_i r rs hcons
    have hdue₁ : w₁.due = w₁.dueOf r ++ rs.flatMap w₁.dueOf := by
      rw [World.due, hcons, Option.getD_some, List.flatMap_cons]
    have hstop : r.slotNum < 0 → r.nodeAddr = none →
        stopsShort H w₁ (r.subCommands.getD []) = false := by
      intro hslot haddr
      simp only [abandons, ← hreq, hcons, ← hw₁] at hs
      simpa [hslot, haddr] using hs
    have hfiled : r.Filed ∧ ∀ r' ∈ rs, r'.Filed := by
      have := ha.filed
      rw [hcons, Option.getD_some] at this
      exact List.forall_mem_cons.mp this
    rw [hdue₁] at hcov
    rw [wp_bind]
    refine wp_mono (getRequestReply_covered H hfiled.1 hcov hstop) fun reply w₂ h₂ => ?_
    obtain ⟨hread₂, hcov₂⟩ := h₂
    rw [wp_bind]
    have hreq₃ : (dropRequest w₂).2.cc.requests = some rs := by
      show w₂.cc.requests.map List.tail = _
      rw [hread₂.requests, hcons]
      rfl
    have hdrop : wp dropRequest (fun _ w' => Accounted w' ∧
        w'.cc.requests.getD [] = (w.cc.requests.getD []).tail) w₂ := by
      refine ⟨⟨?_, ?_, ?_⟩, ?_⟩
      · exact (hread₂.ordered ha.ordered).of_cc rfl rfl
      · have : (dropRequest w₂).2.due = rs.flatMap w₁.dueOf := by
          rw [World.due, hreq₃, Option.getD_some, ← hread₂.dueOf]
          rfl
        rw [this]
        exact hcov₂.conns_eq rfl
      · rw [hreq₃]
        exact hfiled.2
      · rw [hreq₃, ← hreq, hcons]
        rfl
    refine wp_mono hdrop fun _ w₃ h₃ => ?_
    cases reply with
    | none => exact ⟨h₃.1, h₃.2, (fun h => by cases h), fun h => absurd rfl h⟩
    | some reply =>
      refine ⟨h₃.1, h₃.2, (fun h => by cases h), fun _ => ?_⟩
      rw [← hreq, hcons]
      exact List.cons_ne_nil _ _

end Calls
