/-
# What the asynchronous routines leave alone

Reaching a node, choosing one, and submitting a topology query change the asynchronous
connections and the error of the asynchronous context, and nothing else (`Aside`); in
particular they add and remove no submission of a user's command.
-/
import HiredisCluster.AsyncCalls

open Program

variable {ω : Type}

/-- The connections on which the command of a `cluster_async_data` is pending. -/
def World.pendingOn (w : World ω) (k : ℕ) : List AConnId :=
  (w.inflight.filter fun p => p.2 = .user k).map Prod.fst

/-- The replies with which the user's callback of a `cluster_async_data` was called. -/
def World.callsOf (w : World ω) (k : ℕ) : List (Option Reply) :=
  (w.acc.called.filter fun p => p.1 = k).map Prod.snd

/-- How often the command of a `cluster_async_data` was accepted by hiredis. -/
def World.timesSent (w : World ω) (k : ℕ) : ℕ := w.acc.handed.count (.user k, .ok)

/-- A step beside the commands of the user and the routing state. -/
structure Aside (w w' : World ω) : Prop where
  cc : w'.cc = w.cc
  heap : ∀ n, (w'.heap n).addr = (w.heap n).addr ∧ (w'.heap n).con = (w.heap n).con
  nextNode : w'.nextNode = w.nextNode
  conns : w'.conns = w.conns
  nextConn : w'.nextConn = w.nextConn
  trace : w'.trace = w.trace
  cads : w'.cads = w.cads ∧ w'.nextCad = w.nextCad
  pending : ∀ k, w'.pendingOn k = w.pendingOn k
  sent : ∀ k, w'.timesSent k = w.timesSent k
  called : w'.acc.called = w.acc.called
  accepted : w'.acc.accepted = w.acc.accepted
  fatal : w'.acc.fatal = w.acc.fatal ∨ w'.acc.fatal = some .emptyNodes

theorem Aside.refl (w : World ω) : Aside w w :=
  ⟨rfl, fun _ => ⟨rfl, rfl⟩, rfl, rfl, rfl, rfl, ⟨rfl, rfl⟩, fun _ => rfl, fun _ => rfl, rfl, rfl,
    Or.inl rfl⟩

theorem Aside.trans {w w' w'' : World ω} (h : Aside w w') (h' : Aside w' w'') : Aside w w'' where
  cc := h'.cc.trans h.cc
  heap n := ⟨(h'.heap n).1.trans (h.heap n).1, (h'.heap n).2.trans (h.heap n).2⟩
  nextNode := h'.nextNode.trans h.nextNode
  conns := h'.conns.trans h.conns
  nextConn := h'.nextConn.trans h.nextConn
  trace := h'.trace.trans h.trace
  cads := ⟨h'.cads.1.trans h.cads.1, h'.cads.2.trans h.cads.2⟩
  pending k := (h'.pending k).trans (h.pending k)
  sent k := (h'.sent k).trans (h.sent k)
  called := h'.called.trans h.called
  accepted := h'.accepted.trans h.accepted
  fatal := by
    rcases h'.fatal with h' | h'
    · rw [h']
      exact h.fatal
    · exact Or.inr h'

instance : Std.Refl (@Aside ω) := ⟨Aside.refl⟩

instance : IsTrans (World ω) Aside := ⟨fun _ _ _ => Aside.trans⟩

theorem Aside.known {w w' : World ω} (h : Aside w w') {n : NodeId} : w'.Known n ↔ w.Known n := by
  unfold World.Known World.nodeList
  rw [h.cc]

/-- The routing state depends on little. -/
theorem Ordered.of_eq {w w' : World ω} (ho : Ordered w) (hn : w'.cc.nodes = w.cc.nodes)
    (ht : w'.cc.table = w.cc.table)
    (hheap : ∀ n, (w'.heap n).addr = (w.heap n).addr ∧ (w'.heap n).con = (w.heap n).con)
    (hnode : w'.nextNode = w.nextNode) (hconn : w'.nextConn = w.nextConn)
    (htrace : w'.trace = w.trace) : Ordered w' := by
  refine ⟨⟨?_, fun n hk => ?_, ?_⟩, fun n c hc => ?_, fun n n' c hc hc' => ?_⟩
  · exact ho.routed.view.of_addrOf hn ht fun _ _ _ n _ => (hheap n).1
  · rw [hnode]
    refine ho.routed.lt n ?_
    rwa [World.Known, World.nodeList, hn] at hk
  · rw [htrace]
    exact ho.routed.shown
  · rw [hconn]
    rw [(hheap n).2] at hc
    exact ho.wired.lt n c hc
  · rw [(hheap n).2] at hc
    rw [(hheap n').2] at hc'
    exact ho.wired.inj n n' c hc hc'

theorem Ordered.aside {w w' : World ω} (ho : Ordered w) (h : Aside w w') : Ordered w' :=
  ho.of_eq (by rw [h.cc]) (by rw [h.cc]) h.heap h.nextNode h.nextConn h.trace

theorem Aside.callsOf {w w' : World ω} (h : Aside w w') (k : ℕ) : w'.callsOf k = w.callsOf k := by
  rw [World.callsOf, h.called]
  rfl

/-! ## Primitives -/

theorem aside_ask {α : Type} (f : ω → α × ω) : Within Aside (ask f) :=
  fun _ => ⟨rfl, fun _ => ⟨rfl, rfl⟩, rfl, rfl, rfl, rfl, ⟨rfl, rfl⟩, fun _ => rfl,
    fun _ => rfl, rfl, rfl, Or.inl rfl⟩

theorem aside_modifyAConn (a : AConnId) (f : AConn → AConn) :
    Within Aside (modifyAConn a f : Prog ω Unit) :=
  fun _ => ⟨rfl, fun _ => ⟨rfl, rfl⟩, rfl, rfl, rfl, rfl, ⟨rfl, rfl⟩, fun _ => rfl,
    fun _ => rfl, rfl, rfl, Or.inl rfl⟩

/-- A change to the asynchronous context that keeps its history. -/
theorem aside_modifyAcc {f : AsyncContext → AsyncContext} (hc : ∀ acc, (f acc).called = acc.called)
    (ha : ∀ acc, (f acc).accepted = acc.accepted)
    (hs : ∀ acc k, (f acc).handed.count (.user k, .ok) = acc.handed.count (.user k, .ok))
    (hf : ∀ acc, (f acc).fatal = acc.fatal ∨ (f acc).fatal = some .emptyNodes) :
    Within Aside (modifyAcc f : Prog ω Unit) :=
  fun _ => ⟨rfl, fun _ => ⟨rfl, rfl⟩, rfl, rfl, rfl, rfl, ⟨rfl, rfl⟩, fun _ => rfl, hs _, hc _, ha _,
    hf _⟩

theorem aside_modifyNode (n : NodeId) {f : Node → Node} (haddr : ∀ node, (f node).addr = node.addr)
    (hcon : ∀ node, (f node).con = node.con) : Within Aside (modifyNode n f : Prog ω Unit) := by
  intro w
  refine ⟨rfl, fun m => ?_, rfl, rfl, rfl, rfl, ⟨rfl, rfl⟩, fun _ => rfl, fun _ => rfl, rfl, rfl,
    Or.inl rfl⟩
  show (Function.update w.heap n (f (w.heap n)) m).addr = _ ∧
    (Function.update w.heap n (f (w.heap n)) m).con = _
  rcases eq_or_ne m n with rfl | hm
  · rw [Function.update_self]
    exact ⟨haddr _, hcon _⟩
  · rw [Function.update_of_ne hm]
    exact ⟨rfl, rfl⟩

/-- A change to the submissions that keeps those of user commands. -/
theorem aside_inflight {f : List (AConnId × ACallback) → List (AConnId × ACallback)}
    (h : ∀ l k, (f l).filter (fun p => p.2 = .user k) = l.filter fun p => p.2 = .user k) :
    Within Aside (modify fun w => { w with inflight := f w.inflight } : Prog ω Unit) :=
  fun w => ⟨rfl, fun _ => ⟨rfl, rfl⟩, rfl, rfl, rfl, rfl, ⟨rfl, rfl⟩,
    fun k => congrArg (List.map Prod.fst) (h w.inflight k), fun _ => rfl, rfl, rfl, Or.inl rfl⟩

theorem aside_asyncSetError (type : Option Err) (str : ErrText) :
    Within Aside (asyncSetError type str : Prog ω Unit) :=
  aside_modifyAcc (fun _ => rfl) (fun _ => rfl) (fun _ _ => rfl) fun _ => Or.inl rfl

theorem aside_copyAsyncError (a : AConnId) : Within Aside (copyAsyncError a : Prog ω Unit) := by
  refine within_bind within_get fun w => ?_
  split
  · exact aside_asyncSetError _ _
  · exact aside_asyncSetError _ _

theorem aside_copyContextError : Within Aside (copyContextError : Prog ω Unit) :=
  within_bind within_get fun _ => aside_asyncSetError _ _

theorem aside_resetAsyncError : Within Aside (resetAsyncError : Prog ω Unit) :=
  within_bind within_get fun _ => within_ite (aside_asyncSetError _ _) (within_pure _)

theorem aside_redisAsyncFree (a : AConnId) : Within Aside (redisAsyncFree a : Prog ω Unit) := by
  refine within_bind (aside_modifyAConn a _) fun _ => aside_inflight
    (f := fun l => l.filter fun p => p ≠ (a, .null)) fun l k => ?_
  rw [List.filter_filter]
  refine List.filter_congr fun p _ => ?_
  by_cases hp : p.2 = .user k
  · have hne : p ≠ (a, ACallback.null) := by
      rintro rfl
      cases hp
    simp [hp, hne]
  · simp [hp]

section Routines

variable (H : Hiredis ω)

/-- Submitting anything but a user's command. -/
theorem aside_redisAsyncCommand (a : AConnId) {cb : ACallback} (hcb : ∀ k, cb ≠ .user k) (q : Sent) :
    Within Aside (redisAsyncCommand H a cb q) := by
  refine within_bind (within_bind within_get fun w => within_ite (within_pure _)
    (within_bind (aside_ask _) fun r => ?_)) fun s =>
      within_bind (aside_modifyAcc (fun _ => rfl) (fun _ => rfl) (fun acc k => ?_) fun _ => Or.inl rfl)
        fun _ => within_pure _
  · cases r with
    | accepted =>
      refine within_bind (aside_inflight (f := fun l => l ++ [(a, cb)]) fun l k => ?_) fun _ =>
        within_pure _
      rw [List.filter_append, List.filter_cons_of_neg (by simpa using hcb k), List.filter_nil,
        List.append_nil]
    | rejected f => exact within_bind (aside_modifyAConn a _) fun _ => within_pure _
  · have hne : ¬ (ACallback.user k, Status.ok) ∈ [(cb, s)] := fun h =>
      hcb k (congrArg Prod.fst (List.mem_singleton.mp h)).symm
    rw [List.count_append, List.count_eq_zero_of_not_mem hne, Nat.add_zero]

instance : ReachClosed H (@Aside ω) where
  ask := aside_ask
  failed a _ := aside_modifyAConn a _
  asyncSetError := aside_asyncSetError
  sendNull a q := aside_redisAsyncCommand H a (fun _ h => by cases h) q
  attempted n _ := aside_modifyNode n (fun _ => rfl) fun _ => rfl
  newAConn _ _ _ _ := ⟨rfl, fun _ => ⟨rfl, rfl⟩, rfl, rfl, rfl, rfl, ⟨rfl, rfl⟩, fun _ => rfl,
    fun _ => rfl, rfl, rfl, Or.inl rfl⟩
  redisAsyncFree := aside_redisAsyncFree
  linkAsync n a := within_bind (aside_modifyAConn a _) fun _ =>
    aside_modifyNode n (fun _ => rfl) fun _ => rfl
  noNodes := aside_modifyAcc (fun _ => rfl) (fun _ => rfl) (fun _ _ => rfl) fun _ => getD_fatal _ _

/-! ## Slot map updates -/

theorem aside_stampSlotmapUpdate : Within Aside (stampSlotmapUpdate H) :=
  within_bind (aside_ask _) fun _ => aside_modifyAcc (fun _ => rfl) (fun _ => rfl) (fun _ _ => rfl) fun _ => Or.inl rfl

theorem aside_updateSlotMapAsync (a : Option AConnId) : Within Aside (updateSlotMapAsync H a) := by
  refine within_bind within_get fun w => within_ite (within_pure _)
    (within_bind (within_updateTarget H a) fun a => ?_)
  cases a with
  | none => exact within_bind (aside_stampSlotmapUpdate H) fun _ => within_pure _
  | some a =>
    refine within_bind (within_bind within_get fun w =>
      aside_redisAsyncCommand H a (fun k h => by cases h) _) fun s => ?_
    cases s with
    | ok =>
      exact within_bind (aside_modifyAcc (fun _ => rfl) (fun _ => rfl) (fun _ _ => rfl) fun _ => Or.inl rfl) fun _ =>
        within_pure _
    | err => exact within_bind (aside_stampSlotmapUpdate H) fun _ => within_pure _

theorem aside_throttledUpdateSlotMapAsync (a : Option AConnId) :
    Within Aside (throttledUpdateSlotMapAsync H a) :=
  within_bind within_get fun _ => within_ite (within_pure _) (within_bind (aside_ask _) fun _ =>
    within_ite (within_bind (aside_updateSlotMapAsync H a) fun _ => within_pure _) (within_pure _))

end Routines

/-! ## Steps that are steady for the user's commands -/

/-- The routing state stays in order, and the commands of the user stay where they
are. -/
structure Steady (w w' : World ω) : Prop where
  ordered : Ordered w → Ordered w'
  limit : w'.cc.maxRetryCount = w.cc.maxRetryCount
  retryCount : 0 ≤ w.cc.retryCount → 0 ≤ w'.cc.retryCount
  cads : w'.cads = w.cads ∧ w'.nextCad = w.nextCad
  pending : ∀ k, w'.pendingOn k = w.pendingOn k
  sent : ∀ k, w'.timesSent k = w.timesSent k
  called : w'.acc.called = w.acc.called
  accepted : w'.acc.accepted = w.acc.accepted
  fatal : w'.acc.fatal = w.acc.fatal ∨ w'.acc.fatal = some .emptyNodes

theorem Steady.refl (w : World ω) : Steady w w :=
  ⟨id, rfl, id, ⟨rfl, rfl⟩, fun _ => rfl, fun _ => rfl, rfl, rfl, Or.inl rfl⟩

theorem Steady.trans {w w' w'' : World ω} (h : Steady w w') (h' : Steady w' w'') :
    Steady w w'' where
  ordered ho := h'.ordered (h.ordered ho)
  limit := h'.limit.trans h.limit
  retryCount h0 := h'.retryCount (h.retryCount h0)
  cads := ⟨h'.cads.1.trans h.cads.1, h'.cads.2.trans h.cads.2⟩
  pending k := (h'.pending k).trans (h.pending k)
  sent k := (h'.sent k).trans (h.sent k)
  called := h'.called.trans h.called
  accepted := h'.accepted.trans h.accepted
  fatal := by
    rcases h'.fatal with h' | h'
    · rw [h']
      exact h.fatal
    · exact Or.inr h'

instance : Std.Refl (@Steady ω) := ⟨Steady.refl⟩

instance : IsTrans (World ω) Steady := ⟨fun _ _ _ => Steady.trans⟩

theorem Aside.steady {w w' : World ω} (h : Aside w w') : Steady w w' :=
  ⟨fun ho => ho.aside h, by rw [h.cc], by rw [h.cc]; exact id, h.cads, h.pending, h.sent, h.called, h.accepted, h.fatal⟩

theorem Lawful.steady {w w' : World ω} (h : Lawful w w') : Steady w w' := by
  refine ⟨h.ordered, h.maxRetryCount, h.retryCount, h.cads, fun k => ?_, fun k => ?_, by rw [h.acc], by rw [h.acc],
    Or.inl (by rw [h.acc])⟩
  · rw [World.pendingOn, h.inflight]
    rfl
  · rw [World.timesSent, h.acc]
    rfl

theorem steady_of_aside {α : Type} {m : Prog ω α} (h : Within Aside m) : Within Steady m :=
  h.mono fun _ _ => Aside.steady

theorem steady_of_lawful {α : Type} {m : Prog ω α} (h : Within Lawful m) : Within Steady m :=
  h.mono fun _ _ => Lawful.steady

section Topology

variable (H : Hiredis ω)

theorem parseTopology_fresh (useSlots : Bool) (host : Bytes) (r : Reply) (w : World ω) :
    wp (parseTopology useSlots host r) (fun nodes w' => Calm w w' ∧
      ∀ d, nodes = some d → AllFresh w.nextNode w' d) w := by
  cases useSlots with
  | true =>
    exact ⟨Within.wp (R := Calm) (within_parseClusterSlots _ _) w, parseClusterSlots_fresh _ _ w⟩
  | false =>
    exact ⟨Within.wp (R := Calm) (within_parseClusterNodes _ _) w, parseClusterNodes_fresh _ _ w⟩

theorem steady_topologyReplyCallback (a : AConnId) (useSlots : Bool) (reply : Option Reply) :
    Within Steady (topologyReplyCallback H a useSlots reply) := by
  have hagain : Within Steady (do
      let _ ← updateSlotMapAsync H none
      pure false) :=
    within_bind (steady_of_aside (aside_updateSlotMapAsync H none)) fun _ => within_pure _
  refine within_bind (steady_of_aside (aside_stampSlotmapUpdate H)) fun _ => ?_
  split
  · exact hagain
  · rename_i r
    refine within_get_bind fun w => ?_
    show wp _ (fun _ w' => Steady w w') w
    rw [wp_bind]
    refine wp_mono (parseTopology_fresh useSlots (w.aconns a).host r w) fun nodes w₁ h₁ => ?_
    obtain ⟨hc, hfresh⟩ := h₁
    cases nodes with
    | none => exact hc.lawful.steady.trans (hagain w₁)
    | some d =>
      dsimp only
      rw [wp_bind]
      refine wp_mono (installNodes_updates hc (hfresh d rfl)) fun s w₂ h₂ => ?_
      cases s with
      | ok => exact h₂.lawful.steady
      | err => exact h₂.lawful.steady.trans (hagain w₂)

theorem steady_redisClusterAsyncConnect2 : Within Steady (redisClusterAsyncConnect2 H) :=
  within_bind within_get fun _ =>
    within_ite (steady_of_aside (aside_updateSlotMapAsync H none)) (within_pure _)

theorem aside_disconnectNode (n : NodeId) : Within Aside (disconnectNode n : Prog ω Unit) := by
  refine within_bind within_get fun w => ?_
  split
  · exact within_pure _
  · exact aside_modifyAConn _ _

theorem steady_shutdown (b : Bool) :
    Within Steady (modifyCc fun cc => { cc with shutdown := b } : Prog ω Unit) :=
  fun w => ⟨fun ho => Ordered.of_cc (w := w) ho rfl rfl, rfl, id, ⟨rfl, rfl⟩,
    fun _ => rfl, fun _ => rfl, rfl, rfl, Or.inl rfl⟩

theorem steady_redisClusterAsyncDisconnect :
    Within Steady (redisClusterAsyncDisconnect : Prog ω Unit) := by
  refine within_bind (steady_shutdown true) fun _ => within_bind within_get fun w => ?_
  split
  · exact within_pure _
  · rename_i nodes _
    induction nodes.vals with
    | nil => exact within_pure _
    | cons n ns ih => exact within_bind (steady_of_aside (aside_disconnectNode n)) fun _ => ih

/-- A context without nodes and table is in order. -/
theorem Ordered.cleared {w : World ω} (ho : Ordered w) {cc : Context} (hn : cc.nodes = none)
    (ht : cc.table = none) : Ordered { w with cc := cc } := by
  refine ⟨⟨⟨fun d hd => ?_, fun t ht' => ?_⟩, fun n hk => ?_, ho.routed.shown⟩, ho.wired.lt,
    ho.wired.inj⟩
  · exact absurd (hd.symm.trans hn) (by simp)
  · exact absurd (ht'.symm.trans ht) (by simp)
  · rw [World.Known, World.nodeList, hn] at hk
    cases hk

theorem steady_redisClusterFree : Within Steady (redisClusterFree : Prog ω Unit) := by
  refine within_bind (steady_of_lawful TalkClosed.userHook) fun _ =>
    within_bind within_get fun w => within_bind ?_ fun _ => ?_
  · exact fun w => ⟨fun ho => ho.cleared rfl rfl, rfl, id, ⟨rfl, rfl⟩, fun _ => rfl, fun _ => rfl,
      rfl, rfl, Or.inl rfl⟩
  · split
    · exact within_pure _
    · exact steady_of_lawful (lawful_of_calm (within_dictRelease _))

theorem aside_unlinkAsyncContextAndNode (a : AConnId) :
    Within Aside (unlinkAsyncContextAndNode a : Prog ω Unit) := by
  have hend : ∀ f : AConn → AConn, Within Aside (modifyAConn a f : Prog ω Unit) :=
    aside_modifyAConn a
  refine within_bind within_get fun w => ?_
  split
  · exact hend _
  · exact within_bind (aside_modifyNode _ (fun _ => rfl) fun _ => rfl) fun _ => hend _

theorem steady_finishCallback : Within Steady (finishCallback : Prog ω Unit) :=
  within_bind (steady_of_lawful within_resetError) fun _ => steady_of_aside aside_resetAsyncError

end Topology
