/-
# Redirects

How a MOVED or ASK reply is read, and what it does to the node set and the slot
table.  Both the blocking and the asynchronous path treat redirects with the
routines below.

Embedded source (`hircluster.c`): `cluster_reply_error_type`,
`getNodeFromRedirectReply`, and the MOVED and ASK cases of
`redis_cluster_command_execute` and `redisClusterAsyncCallback`.
-/
import HiredisCluster.Routing

open Program

variable {ω : Type}

/-! ## Reading a redirect -/

/-- `CLUSTER_ERR_TYPE`. -/
inductive ErrorType where
  | notErr | moved | ask | tryagain | clusterdown | sentinel
  deriving DecidableEq, Repr

/-- A text that starts with `word` and is longer. -/
def startsWith (word : String) (str : Bytes) : Bool :=
  (ascii word).length < str.length && (ascii word).isPrefixOf str

/-- `cluster_reply_error_type`. -/
def clusterReplyErrorType : Reply → ErrorType
  | .error str =>
    if startsWith "MOVED" str then .moved
    else if startsWith "ASK" str then .ask
    else if startsWith "TRYAGAIN" str then .tryagain
    else if startsWith "CLUSTERDOWN" str then .clusterdown
    else .sentinel
  | _ => .notErr

/-- `getNodeFromRedirectReply`: the destination, a new node when its address is
unknown, and the slot (`-1` when there is none). -/
def getNodeFromRedirectReply (str : Bytes) : Prog ω (Option NodeId × ℤ) := do
  let w ← get
  match sdssplitlen str 32 with
  | [_, slotText, endpoint] =>
    match strrchr endpoint 58 with
    | none => do
      setError (some .other) (.lit "port separator missing in redirect")
      pure (none, hiAtoi slotText)
    | some p =>
      if p = 0 then do
        setError (some .other) (.lit "endpoint missing in redirect")
        pure (none, hiAtoi slotText)
      else
        let nodes := w.cc.nodes.getD HashTable.empty
        match nodes.find endpoint with
        | some n => pure (some n, hiAtoi slotText)
        | none => do
          let n ← newNode
            { addr := endpoint, host := endpoint.take p
              port := toUint16 (hiAtoi ((cstr endpoint).drop (p + 1))), role := .master }
          match nodes.add endpoint n with
          | none => do
            setError (some .oom) (.lit "Out of memory")
            pure (none, hiAtoi slotText)
          | some nodes' => do
            modifyCc fun cc => { cc with nodes := some nodes' }
            pure (some n, hiAtoi slotText)
  | _ => do
    setError (some .other) (.lit "failed to parse redirect")
    pure (none, -1)

/-- `if (slot >= 0) cc->table[slot] = node;`.  The index is not compared with the
size of the table; a slot outside it is written to memory that is not modelled.  The
history has the index in either case. -/
def storeSlot (slot : ℤ) (n : NodeId) : Prog ω Unit :=
  if slot < 0 then pure ()
  else do
    record (.stored slot n)
    if slot.toNat < redisClusterSlots then
      modifyCc fun cc =>
        { cc with table := cc.table.map fun t => Function.update t slot.toNat (some n) }
    else pure ()

/-- The treatment of a MOVED reply, up to the update of the slot table. -/
def handleMoved (str : Bytes) : Prog ω (Option NodeId) := do
  match ← getNodeFromRedirectReply str with
  | (none, _) => pure none
  | (some n, slot) => do
    storeSlot slot n
    pure (some n)

/-- The treatment of an ASK reply. -/
def handleAsk (str : Bytes) : Prog ω (Option NodeId) := do
  let r ← getNodeFromRedirectReply str
  pure r.1

/-! ## What a redirect does -/

/-- The fields of a redirect that is accepted: the text of the slot, and the
endpoint, which has a port separator after a nonempty host. -/
def redirectFields (str : Bytes) : Option (Bytes × Bytes) :=
  match sdssplitlen str 32 with
  | [_, slotText, endpoint] =>
    match strrchr endpoint 58 with
    | none => none
    | some p => if p = 0 then none else some (slotText, endpoint)
  | _ => none

theorem Learns.refl {w : World ω} {d : NodeDict} (hd : w.cc.nodes = some d) : Learns w w :=
  learns_none w.cc (by rw [hd]; rfl) rfl rfl

/-- **A redirect is rejected without effect, or leads to the node filed under its
endpoint.** -/
theorem getNodeFromRedirectReply_spec (str : Bytes) (w : World ω) :
    wp (getNodeFromRedirectReply str) (fun r w' =>
      match redirectFields str with
      | none => r.1 = none ∧ Calm w w'
      | some (slotText, endpoint) => ∃ n d', r = (some n, hiAtoi slotText) ∧ Learns w w' ∧
          w'.cc.nodes = some d' ∧ d'.find endpoint = some n) w := by
  unfold getNodeFromRedirectReply redirectFields
  rw [wp_bind, wp_get]
  split
  · rename_i slotText endpoint hsplit
    split
    · exact ⟨rfl, calm_setError _ _ w⟩
    · rename_i p hp
      split
      · exact ⟨rfl, calm_setError _ _ w⟩
      · dsimp only
        split
        · rename_i n hfind
          cases hd : w.cc.nodes with
          | none => simp [hd, HashTable.find, HashTable.empty] at hfind
          | some d =>
            rw [hd] at hfind
            exact ⟨n, d, rfl, Learns.refl hd, hd, hfind⟩
        · rename_i hfind
          rw [wp_bind, wp_newNode]
          split
          · rename_i hadd
            have := (HashTable.add_isSome_iff _ endpoint w.nextNode).mpr hfind
            rw [hadd] at this
            cases this
          · rename_i d' hadd
            refine ⟨w.nextNode, d', rfl, learns_add rfl _ hadd rfl rfl rfl, rfl, ?_⟩
            rw [HashTable.find_add hadd, if_pos rfl]
  · exact ⟨rfl, calm_setError _ _ w⟩

/-- The slot entry of a redirect may change, and only to the node `n`. -/
structure SlotPointed (n : NodeId) (w w' : World ω) : Prop where
  cc : ∃ t, w'.cc = { w.cc with table := t } ∧
    (w.cc.table = none ∧ t = none ∨ ∃ t₀ t', w.cc.table = some t₀ ∧ t = some t' ∧
      ∀ s, t' s = t₀ s ∨ t' s = some n)
  heap : w'.heap = w.heap
  nextNode : w'.nextNode = w.nextNode
  conns : w'.conns = w.conns
  nextConn : w'.nextConn = w.nextConn
  async : w'.acc = w.acc ∧ w'.inflight = w.inflight ∧ w'.cads = w.cads ∧ w'.nextCad = w.nextCad
  nextAConn : w'.nextAConn = w.nextAConn
  trace : ∃ new, w'.trace = w.trace ++ new ∧ ∀ e ∈ new, ∃ s, e = .stored s n

theorem storeSlot_pointed (slot : ℤ) (n : NodeId) (w : World ω) :
    SlotPointed n w (storeSlot slot n w).2 := by
  have hsame : w.cc.table = none ∧ w.cc.table = none ∨ ∃ t₀ t', w.cc.table = some t₀ ∧
      w.cc.table = some t' ∧ ∀ s, t' s = t₀ s ∨ t' s = some n := by
    cases ht : w.cc.table with
    | none => exact Or.inl ⟨rfl, rfl⟩
    | some t => exact Or.inr ⟨t, t, rfl, rfl, fun s => Or.inl rfl⟩
  have hone : ∃ new, w.trace ++ [Event.stored slot n] = w.trace ++ new ∧
      ∀ e ∈ new, ∃ s, e = Event.stored s n := ⟨[.stored slot n], rfl, by simp⟩
  unfold storeSlot
  split
  · exact ⟨⟨w.cc.table, rfl, hsame⟩, rfl, rfl, rfl, rfl, ⟨rfl, rfl, rfl, rfl⟩, rfl,
      [], (List.append_nil _).symm, by simp⟩
  · show wp _ (fun _ w' => SlotPointed n w w') w
    rw [wp_bind, wp_record]
    split
    · refine ⟨⟨_, rfl, ?_⟩, rfl, rfl, rfl, rfl, ⟨rfl, rfl, rfl, rfl⟩, rfl, hone⟩
      cases ht : w.cc.table with
      | none => exact Or.inl ⟨rfl, rfl⟩
      | some t₀ =>
        refine Or.inr ⟨t₀, _, rfl, rfl, fun s => ?_⟩
        rcases eq_or_ne s slot.toNat with rfl | hs
        · exact Or.inr (Function.update_self _ _ _)
        · exact Or.inl (Function.update_of_ne hs _ _)
    · exact ⟨⟨w.cc.table, rfl, hsame⟩, rfl, rfl, rfl, rfl, ⟨rfl, rfl, rfl, rfl⟩, rfl, hone⟩

theorem SlotPointed.advance {n : NodeId} {w w' : World ω} (h : SlotPointed n w w') : Advance w w' where
  nextNode := le_of_eq h.nextNode.symm
  endpoint m _ := by rw [h.heap]
  acc := h.async.1
  inflight := h.async.2.1
  cads := h.async.2.2
  nextAConn := h.nextAConn
  settings := by
    obtain ⟨t, hcc, -⟩ := h.cc
    rw [hcc]
    rfl
  nextConn := le_of_eq h.nextConn.symm
  wired hw := hw.of_con (fun m => by rw [h.heap]) (le_of_eq h.nextConn.symm)
  trace := let ⟨new, hnew, _⟩ := h.trace; ⟨new, hnew⟩

theorem SlotPointed.nodeList {n : NodeId} {w w' : World ω} (h : SlotPointed n w w') :
    w'.nodeList = w.nodeList := by
  obtain ⟨t, hcc, -⟩ := h.cc
  simp only [World.nodeList, hcc]

/-- Pointing a slot at a known node keeps the routing invariant. -/
theorem Routed.pointed {n : NodeId} {w w' : World ω} (h : Routed w) (hn : w.Known n)
    (hp : SlotPointed n w w') : Routed w' := by
  obtain ⟨t, hcc, htable⟩ := hp.cc
  have haddr : w'.view.addrOf = w.view.addrOf := by simp only [World.view, hp.heap]
  have hnodes : w'.view.nodes = w.view.nodes := by simp only [World.view, hcc]
  refine ⟨⟨fun d hd k m hm => ?_, fun t' ht' s m hm => ?_⟩, fun m hm => ?_, fun v hv => ?_⟩
  · rw [haddr]
    exact h.view.filed d (hnodes.symm.trans hd) k m hm
  · have ht : t = some t' := by
      have : w'.cc.table = some t' := ht'
      rwa [hcc] at this
    rw [haddr, hnodes]
    rcases htable with ⟨-, hnone⟩ | ⟨t₀, t'', ht₀, ht'', hor⟩
    · rw [hnone] at ht
      cases ht
    obtain rfl := Option.some.inj (ht''.symm.trans ht)
    rcases hor s with hs | hs
    · exact h.view.table t₀ ht₀ s m (hs.symm.trans hm)
    · obtain rfl := Option.some.inj (hs.symm.trans hm)
      cases hd : w.cc.nodes with
      | none => simp [World.Known, World.nodeList, hd] at hn
      | some d =>
        obtain ⟨k, hk⟩ := (World.known_iff hd).mp hn
        refine ⟨d, hd, (d.find_eq_some_iff _ _).mpr ?_⟩
        rw [h.view.filed d hd k n hk]
        exact hk
  · rw [hp.nextNode]
    rw [World.Known, hp.nodeList] at hm
    exact h.lt m hm
  · obtain ⟨new, hnew, hev⟩ := hp.trace
    rw [hnew, List.mem_append] at hv
    rcases hv with hv | hv
    · exact h.shown v hv
    · obtain ⟨s, hs⟩ := hev _ hv
      cases hs

/-- What the treatment of a redirect does: a rejected one nothing, an accepted one
leads to a node filed under its endpoint, to which a MOVED points its slot. -/
theorem handleMoved_spec (str : Bytes) (w : World ω) :
    wp (handleMoved str) (fun r w' =>
      match redirectFields str with
      | none => r = none ∧ Calm w w'
      | some (slotText, endpoint) => ∃ n d' w₁, r = some n ∧ Learns w w₁ ∧
          w₁.cc.nodes = some d' ∧ d'.find endpoint = some n ∧
          w' = (storeSlot (hiAtoi slotText) n w₁).2) w := by
  unfold handleMoved
  rw [wp_bind]
  refine wp_mono (getNodeFromRedirectReply_spec str w) fun r w₁ h => ?_
  obtain ⟨r, slot⟩ := r
  split at h
  · obtain ⟨hr, hc⟩ := h
    dsimp only at hr
    subst hr
    exact ⟨rfl, hc⟩
  · obtain ⟨n, d', hr, hl, hd', hfind⟩ := h
    obtain ⟨rfl, rfl⟩ := Prod.mk.inj hr
    exact ⟨n, d', w₁, rfl, hl, hd', hfind, rfl⟩

theorem handleAsk_spec (str : Bytes) (w : World ω) :
    wp (handleAsk str) (fun r w' =>
      match redirectFields str with
      | none => r = none ∧ Calm w w'
      | some (_, endpoint) => ∃ n d', r = some n ∧ Learns w w' ∧
          w'.cc.nodes = some d' ∧ d'.find endpoint = some n) w := by
  unfold handleAsk
  rw [wp_bind]
  refine wp_mono (getNodeFromRedirectReply_spec str w) fun r w₁ h => ?_
  split at h
  · exact ⟨h.1, h.2⟩
  · obtain ⟨n, d', rfl, hl, hd', hfind⟩ := h
    exact ⟨n, d', rfl, hl, hd', hfind⟩

theorem advance_handleMoved (str : Bytes) : Within Advance (handleMoved str : Prog ω _) := by
  intro w
  have h := handleMoved_spec str w
  unfold wp at h
  split at h
  · exact h.2.advance
  · obtain ⟨n, d', w₁, -, hl, -, -, hw'⟩ := h
    rw [hw']
    exact hl.toAdvance.trans (storeSlot_pointed _ n w₁).advance

theorem advance_handleAsk (str : Bytes) : Within Advance (handleAsk str : Prog ω _) := by
  intro w
  have h := handleAsk_spec str w
  unfold wp at h
  split at h
  · exact h.2.advance
  · obtain ⟨n, d', -, hl, -⟩ := h
    exact hl.toAdvance
