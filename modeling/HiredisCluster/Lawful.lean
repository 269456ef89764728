/-
# What every call keeps

A blocking or pipelined call keeps the routing state in order, whatever happens to its
commands and connections, and does not touch what belongs to the asynchronous API.
-/
import HiredisCluster.Calls

open Program

variable {ω : Type}

/-- The routing state stays in order, the asynchronous commands stay as they are, and so
do the limits; the counter of retries does not get negative, there is a table once there
has been one, and nodes are only added. -/
structure Lawful (w w' : World ω) : Prop where
  ordered : Ordered w → Ordered w'
  acc : w'.acc = w.acc
  inflight : w'.inflight = w.inflight
  cads : w'.cads = w.cads ∧ w'.nextCad = w.nextCad
  nextAConn : w'.nextAConn = w.nextAConn
  shutdown : w'.cc.shutdown = w.cc.shutdown
  maxRetryCount : w'.cc.maxRetryCount = w.cc.maxRetryCount
  retryCount : 0 ≤ w.cc.retryCount → 0 ≤ w'.cc.retryCount
  table : w.cc.table ≠ none → w'.cc.table ≠ none
  nextNode : w.nextNode ≤ w'.nextNode

theorem Lawful.refl (w : World ω) : Lawful w w :=
  ⟨id, rfl, rfl, ⟨rfl, rfl⟩, rfl, rfl, rfl, id, id, le_rfl⟩

theorem Lawful.trans {w w' w'' : World ω} (h : Lawful w w') (h' : Lawful w' w'') : Lawful w w'' :=
  ⟨fun ho => h'.ordered (h.ordered ho), h'.acc.trans h.acc, h'.inflight.trans h.inflight,
    ⟨h'.cads.1.trans h.cads.1, h'.cads.2.trans h.cads.2⟩, h'.nextAConn.trans h.nextAConn,
    h'.shutdown.trans h.shutdown, h'.maxRetryCount.trans h.maxRetryCount,
    fun h0 => h'.retryCount (h.retryCount h0), fun ht => h'.table (h.table ht),
    h.nextNode.trans h'.nextNode⟩

instance : Std.Refl (@Lawful ω) := ⟨Lawful.refl⟩

instance : IsTrans (World ω) Lawful := ⟨fun _ _ _ => Lawful.trans⟩

theorem Advance.lawful {w w' : World ω} (h : Advance w w') (ho : Ordered w → Ordered w')
    (ht : w.cc.table ≠ none → w'.cc.table ≠ none) : Lawful w w' := by
  have hsame : ∀ {α : Type} (f : Context → α), f w'.cc.settings = f w.cc.settings :=
    fun f => congrArg f h.settings
  refine ⟨ho, h.acc, h.inflight, h.cads, h.nextAConn, hsame Context.shutdown,
    hsame Context.maxRetryCount, fun h0 => ?_, ht, h.nextNode⟩
  rwa [show w'.cc.retryCount = w.cc.retryCount from hsame Context.retryCount]

theorem Linking.lawful {w w' : World ω} (h : Linking w w') : Lawful w w' :=
  h.advance.lawful (fun ho => ho.linking h) fun ht => h.table ▸ ht

theorem Calm.lawful {w w' : World ω} (h : Calm w w') : Lawful w w' := h.toLinking.lawful

theorem Updates.lawful {w w' : World ω} {r : Status} (h : Updates w r w') : Lawful w w' := by
  refine h.advance.lawful (fun ho => ho.updates h) fun ht => ?_
  cases r with
  | err => exact h.toLinking.table ▸ ht
  | ok =>
    obtain ⟨d, t, -, htable, -⟩ := h.installed
    rw [htable]
    exact Option.some_ne_none t

theorem Learns.lawful {w w' : World ω} (h : Learns w w') : Lawful w w' :=
  h.toAdvance.lawful (fun ho => ho.learns h) fun ht => h.table ▸ ht

theorem SlotPointed.lawful {n : NodeId} {w w' : World ω} (h : SlotPointed n w w') (hn : w.Known n) :
    Lawful w w' := by
  refine h.advance.lawful (fun ho => ⟨ho.routed.pointed hn h, h.advance.wired ho.wired⟩) fun ht => ?_
  obtain ⟨t, hcc, ⟨hnone, -⟩ | ⟨t₀, t', -, rfl, -⟩⟩ := h.cc
  · exact absurd hnone ht
  · rw [hcc]
    exact Option.some_ne_none t'

/-- A change to the context that leaves the routing state and the limits alone. -/
theorem lawful_modifyCc {f : Context → Context} (hf : Counts f) :
    Within Lawful (modifyCc f : Prog ω Unit) := by
  intro w
  obtain ⟨r, q, n, heq⟩ := hf.same w.cc
  refine ⟨fun ho => ho.of_cc ?_ ?_, rfl, rfl, ⟨rfl, rfl⟩, rfl, ?_, ?_, hf.nonneg w.cc, fun ht => ?_,
    le_rfl⟩
  · rw [heq]
  · rw [heq]
  · show (f w.cc).shutdown = _
    rw [heq]
  · show (f w.cc).maxRetryCount = _
    rw [heq]
  · show (f w.cc).table ≠ none
    rw [heq]
    exact ht

theorem lawful_of_calm {α : Type} {m : Prog ω α} (h : Within Calm m) : Within Lawful m :=
  fun w => (h w).lawful

theorem lawful_record {e : Event} (he : ∀ v, e ≠ .callback v) :
    Within Lawful (record e : Prog ω Unit) :=
  fun _ => ⟨fun ho => ho.record he, rfl, rfl, ⟨rfl, rfl⟩, rfl, rfl, rfl, id, id, le_rfl⟩

theorem lawful_setError (type : Option Err) (str : ErrText) :
    Within Lawful (setError type str : Prog ω Unit) :=
  lawful_of_calm (calm_setError type str)

section Calls

variable (H : Hiredis ω)

theorem lawful_redisClusterUpdateSlotmap : Within Lawful (redisClusterUpdateSlotmap H) :=
  fun w => (redisClusterUpdateSlotmap_updates H w).lawful

theorem lawful_handleReply (c : ConnId) : Within Lawful (clusterUpdateRouteHandleReply H c) :=
  fun w => (clusterUpdateRouteHandleReply_updates H c w).lawful

theorem lawful_ctxGetByNode (n : NodeId) : Within Lawful (ctxGetByNode H n) :=
  fun w => (ctxGetByNode_links H n w).1.1.lawful

theorem lawful_handleMoved (str : Bytes) : Within Lawful (handleMoved str : Prog ω _) := by
  intro w
  have h := handleMoved_spec str w
  unfold wp at h
  split at h
  · exact h.2.lawful
  · obtain ⟨n, d', w₁, -, hl, hd', hfind, hw'⟩ := h
    rw [hw']
    have hn : w₁.Known n := (World.known_iff hd').mpr ⟨_, (d'.find_eq_some_iff _ _).mp hfind⟩
    exact hl.lawful.trans ((storeSlot_pointed _ n w₁).lawful hn)

theorem lawful_handleAsk (str : Bytes) : Within Lawful (handleAsk str : Prog ω _) := by
  intro w
  have h := handleAsk_spec str w
  unfold wp at h
  split at h
  · exact h.2.lawful
  · obtain ⟨n, d', -, hl, -⟩ := h
    exact hl.lawful

theorem lawful_cmdId (w : World ω) (id : ℕ) : Lawful w { w with cmdId := id } :=
  ⟨fun ho => ⟨⟨ho.routed.view, ho.routed.lt, ho.routed.shown⟩, ho.wired.lt, ho.wired.inj⟩,
    rfl, rfl, ⟨rfl, rfl⟩, rfl, rfl, rfl, fun h0 => h0, fun ht => ht, le_rfl⟩

/-- A node may lose its connection. -/
theorem lawful_disconnect (n : NodeId) :
    Within Lawful (modifyNode n fun node => { node with con := none } : Prog ω Unit) := by
  intro w
  have haddr : ∀ m, (Function.update w.heap n { w.heap n with con := none } m).addr =
      (w.heap m).addr := by
    intro m
    rcases eq_or_ne m n with rfl | hm
    · rw [Function.update_self]
    · rw [Function.update_of_ne hm]
  have hcon : ∀ m c, (Function.update w.heap n { w.heap n with con := none } m).con = some c →
      (w.heap m).con = some c := by
    intro m c h
    rcases eq_or_ne m n with rfl | hm
    · rw [Function.update_self] at h
      cases h
    · rw [Function.update_of_ne hm] at h
      exact h
  refine ⟨fun ho => ⟨⟨?_, ho.routed.lt, ho.routed.shown⟩, ?_, ?_⟩, rfl, rfl, ⟨rfl, rfl⟩, rfl, rfl,
    rfl, id, id, le_rfl⟩
  · refine ho.routed.view.of_addrOf rfl rfl fun d hd k m hm => ?_
    exact haddr m
  · exact fun m c h => ho.wired.lt m c (hcon m c h)
  · exact fun m m' c h h' => ho.wired.inj m m' c (hcon m c h) (hcon m' c h')

theorem lawful_redisClusterSetOptionAddNode (addr : Bytes) :
    Within Lawful (redisClusterSetOptionAddNode addr : Prog ω Status) :=
  fun w => (learns_redisClusterSetOptionAddNode addr w).lawful

instance : CommandClosed (@Lawful ω) where
  ask f := lawful_of_calm (calm_ask f)
  modifyConn c f := lawful_of_calm (calm_modifyConn c f)
  newConn host port err := lawful_of_calm (calm_newConn host port err)
  setError := lawful_setError
  wroteOwn _ _ _ := lawful_record fun _ h => by cases h
  wrote _ _ := lawful_record fun _ h => by cases h
  read _ _ _ _ := lawful_record fun _ h => by cases h
  closed _ := lawful_record fun _ h => by cases h
  userHook := lawful_of_calm calm_userHook

instance : LibClosed (@Lawful ω) where
  modifyCc := lawful_modifyCc
  looked _ _ := lawful_record fun _ h => by cases h
  deferred _ _ := lawful_record fun _ h => by cases h
  cmdId := lawful_cmdId
  disconnect := lawful_disconnect
  handleMoved := lawful_handleMoved
  handleAsk := lawful_handleAsk
  addNode := lawful_redisClusterSetOptionAddNode

instance : CallClosed H (@Lawful ω) where
  ctxGetByNode := lawful_ctxGetByNode H
  updateSlotmap := lawful_redisClusterUpdateSlotmap H
  handleReply := lawful_handleReply H

end Calls

/-! ## Weaker relations -/

section Weaker

variable {R : World ω → World ω → Prop} [Std.Refl R] [IsTrans (World ω) R]

/-- What follows from lawfulness is respected by all calls. -/
theorem LibClosed.of_lawful (h : ∀ w w' : World ω, Lawful w w' → R w w') : LibClosed R where
  ask f := (TalkClosed.ask f).mono h
  modifyConn c f := (TalkClosed.modifyConn c f).mono h
  newConn host port err := (TalkClosed.newConn host port err).mono h
  setError type str := (TalkClosed.setError type str).mono h
  wroteOwn c _ hq := (TalkClosed.wroteOwn c hq).mono h
  read c q q' r := (TalkClosed.read c q q' r).mono h
  closed c := (TalkClosed.closed c).mono h
  userHook := TalkClosed.userHook.mono h
  modifyCc hf := (EditClosed.modifyCc hf).mono h
  looked n known := (LoopClosed.looked n known).mono h
  deferred c held := (LoopClosed.deferred c held).mono h
  cmdId w id := h _ _ (EditClosed.cmdId w id)
  disconnect n := (EditClosed.disconnect n).mono h
  handleMoved str := (EditClosed.handleMoved str).mono h
  handleAsk str := (EditClosed.handleAsk str).mono h
  addNode addr := (LibClosed.addNode addr).mono h

theorem CommandClosed.of_lawful (h : ∀ w w' : World ω, Lawful w w' → R w w') :
    CommandClosed R where
  toTalkClosed := (LibClosed.of_lawful h).toTalkClosed
  wrote c q := (CommandClosed.wrote c q).mono h

omit [Std.Refl R] [IsTrans (World ω) R] in
theorem CallClosed.of_lawful (H : Hiredis ω) (h : ∀ w w' : World ω, Lawful w w' → R w w') :
    CallClosed H R where
  ctxGetByNode n := (CallClosed.ctxGetByNode n).mono h
  updateSlotmap := CallClosed.updateSlotmap.mono h
  handleReply c := (CallClosed.handleReply c).mono h

end Weaker
