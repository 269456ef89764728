/-
# No node is lost, and none released twice

Node objects are created by the parses, by redirects and by `redisClusterSetOptionAddNode`.
Whatever a client has done, every node that was created is held in exactly one place and has not
been released, or it is held nowhere and has been released exactly once: `Housed`, for whole runs
`nodes_owned_once`.

The one exception is a CLUSTER NODES reply with a stray replica, or with one name for two masters
(`parseClusterNodes_accounted_iff`), while replicas are asked for.
-/
import HiredisCluster.Ledger

open Program

variable {ω : Type}

/-! ## Learning a node -/

section Learning

variable {w : World ω}

/-- One node is created and filed, and holds no other. -/
theorem conserves_add (hlt : ∀ m ∈ w.nodeList, m < w.nextNode) {node : Node}
    (hslaves : node.slaves = none) {k : Bytes} {d : NodeDict}
    (hadd : (w.cc.nodes.getD HashTable.empty).add k w.nextNode = some d) {cc : Context}
    (hnodes : cc.nodes = some d) (hmanner : cc.manner = w.manner) :
    Conserves w { w.creating node with cc := cc } where
  nextNode := Nat.le_succ _
  count n := by
    set w' : World ω := { w.creating node with cc := cc }
    have hnone : w'.slavesOf w.nextNode = [] := by
      show ((w.creating node).heap w.nextNode).slaves.getD [] = []
      rw [w.creating_heap_self, hslaves]
      rfl
    have hold : w'.holdings (w.cc.nodes.getD HashTable.empty) = w.owned := by
      cases hd : w.cc.nodes with
      | none =>
        rw [World.owned_of_none hd]
        simp [World.holdings, HashTable.vals, HashTable.entries, HashTable.empty]
      | some d₀ =>
        rw [World.owned_of_some hd, Option.getD_some]
        refine World.holdings_congr fun m hm => ?_
        have hm' := hlt m (show m ∈ w.nodeList from (World.nodeList_of_some hd).symm ▸ hm)
        exact congrArg (fun x : Node => x.slaves.getD []) (w.creating_heap_of_lt node hm')
    have hreleases : w'.releases n = w.releases n := rfl
    have hborn : born w.nextNode w'.nextNode n = [w.nextNode].count n := by
      show born w.nextNode (w.nextNode + 1) n = _
      rw [born_succ le_rfl, born_self, Nat.zero_add]
    rw [World.owned_of_some (w := w') hnodes, count_holdings_add hadd hnone, hold, hreleases, hborn]
    omega
  manner := hmanner
  pending _ _ h := Or.inl h

/-- The dictionary is created. -/
theorem conserves_dictionary {cc : Context} (hnodes : cc.nodes = some (w.cc.nodes.getD HashTable.empty))
    (hmanner : cc.manner = w.manner) :
    Conserves w { w with cc := cc } where
  nextNode := le_rfl
  count n := by
    have howned : ({ w with cc := cc } : World ω).owned = w.owned := by
      cases hd : w.cc.nodes with
      | none =>
        simp [World.owned, World.holdings, hnodes, hd, HashTable.vals, HashTable.entries,
          HashTable.empty]
      | some d =>
        simp only [World.owned, hnodes, hd, Option.getD_some, Option.map_some]
        rfl
    rw [howned]
    show _ = _ + born w.nextNode w.nextNode n
    rw [born_self]
    rfl
  manner := hmanner
  pending _ _ h := Or.inl h

theorem conserves_setError (type : Option Err) (str : ErrText) :
    Conserves w (setError type str w).2 :=
  TalkClosed.setError type str w

variable (hlt : ∀ m ∈ w.nodeList, m < w.nextNode)

include hlt

theorem conserves_getNodeFromRedirectReply (str : Bytes) :
    wp (getNodeFromRedirectReply str) (fun _ w' => Conserves w w') w :=
  getNodeFromRedirectReply_cases (Conserves.refl w) conserves_setError
    (fun _ _ hslaves hadd => conserves_add hlt hslaves hadd rfl rfl) str

theorem conserves_handleAsk (str : Bytes) : wp (handleAsk str) (fun _ w' => Conserves w w') w := by
  unfold handleAsk
  rw [wp_bind]
  exact wp_mono (conserves_getNodeFromRedirectReply hlt str) fun _ _ h => h

omit hlt in
theorem conserves_storeSlot (slot : ℤ) (n : NodeId) :
    Within Conserves (storeSlot slot n : Prog ω Unit) := by
  refine within_ite (within_pure _) (within_bind (fun w => conserves_record (fun _ h => by cases h) w)
    fun _ => within_ite ?_ (within_pure _))
  exact conserves_modifyCc (fun _ => rfl) fun _ => rfl

theorem conserves_handleMoved (str : Bytes) :
    wp (handleMoved str) (fun _ w' => Conserves w w') w := by
  unfold handleMoved
  rw [wp_bind]
  refine wp_mono (conserves_getNodeFromRedirectReply hlt str) fun r w₁ h₁ => ?_
  split
  · exact h₁
  · rw [wp_bind]
    exact wp_mono ((conserves_storeSlot _ _).wp w₁) fun _ w₂ h₂ => h₁.trans h₂

theorem conserves_redisClusterSetOptionAddNode (addr : Bytes) :
    wp (redisClusterSetOptionAddNode addr) (fun _ w' => Conserves w w') w := by
  have hdictionary : Conserves w
      { w with cc := { w.cc with nodes := some (w.cc.nodes.getD HashTable.empty) } } :=
    conserves_dictionary rfl rfl
  exact redisClusterSetOptionAddNode_cases hdictionary
    (fun type str => hdictionary.trans (conserves_setError type str))
    (fun _ _ hslaves hadd => conserves_add hlt hslaves hadd rfl rfl) addr

end Learning

/-! ## Replacing the node set -/

section Installing

/-- What an update of the node set adds to the books: the nodes of the new set, held or released. -/
structure Enters (d : NodeDict) (w w' : World ω) : Prop where
  nextNode : w'.nextNode = w.nextNode
  count : ∀ n, w'.owned.count n + w'.releases n =
    w.owned.count n + w.releases n + (w.holdings d).count n
  manner : w'.manner = w.manner
  inflight : w'.inflight = w.inflight

/-- The exchange of connections concerns neither the nodes nor the replicas. -/
structure Exchanges (w w' : World ω) : Prop where
  nextNode : w'.nextNode = w.nextNode
  cc : w'.cc = w.cc
  slaves : ∀ n, w'.slavesOf n = w.slavesOf n
  inflight : w'.inflight = w.inflight
  trace : w'.trace = w.trace

instance : Std.Refl (@Exchanges ω) := ⟨fun _ => ⟨rfl, rfl, fun _ => rfl, rfl, rfl⟩⟩

instance : IsTrans (World ω) Exchanges :=
  ⟨fun _ _ _ h h' => ⟨h'.nextNode.trans h.nextNode, h'.cc.trans h.cc,
    fun n => (h'.slaves n).trans (h.slaves n), h'.inflight.trans h.inflight,
    h'.trace.trans h.trace⟩⟩

theorem exchanges_modifyNode (n : NodeId) {f : Node → Node} (hf : ∀ node, (f node).slaves = node.slaves) :
    Within Exchanges (modifyNode n f : Prog ω Unit) := by
  intro w
  refine ⟨rfl, rfl, fun m => ?_, rfl, rfl⟩
  show ((Function.update w.heap n (f (w.heap n)) m).slaves.getD [] : List NodeId) = _
  rcases eq_or_ne m n with rfl | hm
  · rw [Function.update_self, hf]
    rfl
  · rw [Function.update_of_ne hm]
    rfl

theorem exchanges_relinkAsync (a : Option AConnId) (n : NodeId) :
    Within Exchanges (relinkAsync a n : Prog ω Unit) := by
  cases a with
  | none => exact within_pure _
  | some a => exact fun _ => ⟨rfl, rfl, fun _ => rfl, rfl, rfl⟩

theorem exchanges_clusterNodesSwapCtx (d : NodeDict) (ts : List NodeId) :
    Within Exchanges (clusterNodesSwapCtx d ts : Prog ω Unit) := by
  induction ts with
  | nil => exact within_pure _
  | cons t ts ih =>
    refine within_bind within_get fun w => ?_
    split
    · exact ih
    · refine within_bind (within_bind within_get fun _ => ?_) fun _ => ih
      exact within_bind (exchanges_modifyNode _ fun _ => rfl) fun _ =>
        within_bind (exchanges_modifyNode _ fun _ => rfl) fun _ => within_ite
          (within_bind (exchanges_relinkAsync _ _) fun _ => exchanges_relinkAsync _ _)
          (within_pure _)

/-- **The old node set or the new one is released**, and the other is held. -/
theorem installNodes_enters (d : NodeDict) (w : World ω) :
    wp (installNodes d) (fun _ w' => Enters d w w') w := by
  unfold installNodes
  rw [wp_bind, wp_get]
  split
  · rw [wp_bind, wp_setError, wp_bind, wp_dictRelease, wp_pure]
    refine ⟨rfl, fun n => ?_, rfl, rfl⟩
    rw [releases_freeing, ← Nat.add_assoc]
    rfl
  · rw [wp_bind, wp_modifyCc]
    split
    · rename_i hold
      rw [wp_bind, wp_modifyCc, wp_pure]
      refine ⟨rfl, fun n => ?_, rfl, rfl⟩
      rw [World.owned_of_none (w := w) hold, World.owned_of_some (d := d) rfl, List.count_nil,
        Nat.zero_add, Nat.add_comm]
      rfl
    · rename_i old hold
      rw [wp_bind]
      refine wp_mono ((exchanges_clusterNodesSwapCtx _ _).wp _) fun _ w₁ h₁ => ?_
      rw [wp_bind, wp_modifyCc, wp_bind, wp_dictRelease, wp_pure]
      refine ⟨h₁.nextNode, fun n => ?_, ?_, h₁.inflight⟩
      · rw [releases_freeing, World.owned_of_some (w := w) hold, World.owned_of_some (d := d) rfl]
        have hnew : ∀ d' : NodeDict, w₁.holdings d' = w.holdings d' := fun d' =>
          World.holdings_congr fun m _ => h₁.slaves m
        have hreleases : w₁.releases n = w.releases n := by
          rw [World.releases, h₁.trace]
          rfl
        show (w₁.holdings d).count n + (w₁.releases n + (w₁.holdings old).count n) = _
        rw [hnew, hnew, hreleases]
        omega
      · show w₁.cc.manner = _
        rw [h₁.cc]
        rfl

/-- A parse and the update that follows it account for all nodes. -/
theorem Filed.entered {w w₁ w₂ : World ω} {d : NodeDict} (h : Filed w (some d) w₁)
    (he : Enters d w₁ w₂) : Conserves w w₂ where
  nextNode := he.nextNode ▸ h.nextNode
  count n := by
    have hparse : (w₁.holdings d).count n + w₁.releases n = _ := h.count n
    rw [he.count, he.nextNode, h.owned]
    omega
  manner := he.manner.trans h.manner
  pending a b hab := by
    rw [he.inflight, h.inflight] at hab
    exact Or.inl hab

theorem Filed.none {w w₁ : World ω} (h : Filed w none w₁) : Conserves w w₁ where
  nextNode := h.nextNode
  count n := by
    have hparse : 0 + w₁.releases n = _ := h.count n
    rw [h.owned]
    omega
  manner := h.manner
  pending a b hab := Or.inl (h.inflight ▸ hab)

theorem conserves_announceSlotmap : Within Conserves (announceSlotmap : Prog ω Unit) :=
  within_bind TalkClosed.userHook fun _ =>
    conserves_modifyCc (fun _ => rfl) fun _ => rfl

theorem Filed.updated {w w₁ : World ω} {nodes : Option NodeDict} (h : Filed w nodes w₁) :
    wp (updateNodesAndSlotmap nodes) (fun _ w' => Conserves w w') w₁ := by
  cases nodes with
  | none => exact h.none
  | some d =>
    unfold updateNodesAndSlotmap
    rw [wp_bind]
    refine wp_mono (installNodes_enters d w₁) fun s w₂ h₂ => ?_
    have hc := h.entered h₂
    cases s with
    | err => exact hc
    | ok =>
      dsimp only
      rw [wp_bind]
      exact wp_mono (conserves_announceSlotmap.wp w₂) fun _ w₃ h₃ => hc.trans h₃

end Installing

/-! ## The settings stay -/

/-- The topology is read in the same way. -/
def SameManner (w w' : World ω) : Prop := w'.manner = w.manner

instance : Std.Refl (@SameManner ω) := ⟨fun _ => rfl⟩

instance : IsTrans (World ω) SameManner := ⟨fun _ _ _ h h' => h'.trans h⟩

theorem sameManner_detachAsync (a : Option AConnId) :
    Within SameManner (detachAsync a : Prog ω Unit) := by
  cases a with
  | none => exact within_pure _
  | some a => exact fun _ => rfl

instance : CommandClosed (@SameManner ω) where
  ask _ _ := rfl
  modifyConn _ _ _ := rfl
  newConn _ _ _ _ := rfl
  setError _ _ _ := rfl
  wroteOwn _ _ _ _ := rfl
  wrote _ _ _ := rfl
  read _ _ _ _ _ := rfl
  closed _ _ := rfl
  userHook _ := rfl

instance : ParseClosed (@SameManner ω) where
  setError _ _ _ := rfl
  redisFree := within_redisFree
  detachAsync := sameManner_detachAsync
  released _ _ := rfl
  newNode _ _ := rfl
  editNode _ _ _ _ := rfl

instance : UpdateClosed (@SameManner ω) where
  modifyCc hf w := by
    obtain ⟨d, t, v, b, heq⟩ := hf w.cc
    exact (congrArg Context.manner heq).trans rfl
  modifyNode _ _ _ := rfl
  relinkAsync a _ := by
    cases a with
    | none => exact within_pure _
    | some a => exact fun _ => rfl
  stored _ _ _ := rfl

instance : LibClosed (@SameManner ω) where
  looked _ _ _ := rfl
  deferred _ _ _ := rfl
  modifyCc hf w := by
    obtain ⟨r, q, n, heq⟩ := hf.same w.cc
    exact (congrArg Context.manner heq).trans rfl
  cmdId _ _ := rfl
  disconnect _ _ := rfl
  handleMoved := within_handleMoved
  handleAsk := within_handleAsk
  addNode := within_redisClusterSetOptionAddNode

section SettingsStay

variable (H : Hiredis ω)

instance : CallClosed H (@SameManner ω) where
  ctxGetByNode := within_ctxGetByNode H
  updateSlotmap := within_redisClusterUpdateSlotmap H (within_clusterUpdateRouteHandleReply H)
  handleReply := within_clusterUpdateRouteHandleReply H

theorem sameManner_redisAsyncCommand (a : AConnId) (cb : ACallback) (q : Sent) :
    Within SameManner (redisAsyncCommand H a cb q) := by
  intro w
  have h := redisAsyncCommand_cases H a cb q w
  unfold wp at h
  rcases h with ⟨-, e, f, hw⟩ | ⟨-, e, hw⟩
  · rw [hw]
    exact rfl
  · rw [hw]
    exact rfl

theorem sameManner_of_aside {α : Type} {m : Prog ω α} (h : Within Aside m) : Within SameManner m :=
  h.mono fun w w' h => by
    exact congrArg Context.manner h.cc

instance : AsyncClosed H (@SameManner ω) where
  modifyAcc _ _ := rfl
  modifyCad _ _ _ := rfl
  newCad _ _ := rfl
  send a _ q _ := sameManner_redisAsyncCommand H a _ q
  actxGetByNode n := sameManner_of_aside (within_actxGetByNode H n)
  updateSlotMapAsync a := sameManner_of_aside (aside_updateSlotMapAsync H a)
  shutdown _ _ := rfl
  disconnectNode n := sameManner_of_aside (aside_disconnectNode n)

theorem sameManner_topologyReplyCallback (a : AConnId) (b : Bool) (reply : Option Reply) :
    Within SameManner (topologyReplyCallback H a b reply) := by
  have hagain : Within SameManner (do
      let _ ← updateSlotMapAsync H none
      pure false) :=
    within_bind (AsyncClosed.updateSlotMapAsync none) fun _ => within_pure _
  refine within_bind (sameManner_of_aside (aside_stampSlotmapUpdate H)) fun _ => ?_
  split
  · exact hagain
  · refine within_bind within_get fun w => within_bind ?_ fun nodes => ?_
    · exact within_ite (within_parseClusterSlots _ _) (within_parseClusterNodes _ _)
    · cases nodes with
      | none => exact hagain
      | some d =>
        refine within_bind (within_installNodes d) fun s => ?_
        cases s with
        | ok => exact within_pure _
        | err => exact hagain

theorem sameManner_redisClusterFree : Within SameManner (redisClusterFree : Prog ω Unit) := by
  refine within_bind TalkClosed.userHook fun _ => within_bind within_get fun w =>
    within_bind (fun _ => rfl) fun _ => ?_
  split
  · exact within_pure _
  · exact within_dictRelease _

/-- **No action changes how the topology is read.** -/
theorem act_manner (c : Client ω) (x : ClientAction) :
    (act H c x).world.manner = c.world.manner := by
  cases x with
  | call op =>
    exact Call.within_run (R := SameManner) H op (fun addr _ => LibClosed.addNode addr)
      (fun _ => sameManner_redisClusterFree) c.world
  | connected a => exact rfl
  | failed a f => exact rfl
  | deliver a reply =>
    unfold act
    dsimp only
    split
    · rfl
    · exact within_runCallback (R := SameManner) H a reply
        (fun b _ => sameManner_topologyReplyCallback H a b reply) (takeCallback a c.world).2
  | free a => exact rfl
  | closed a => exact sameManner_of_aside (aside_unlinkAsyncContextAndNode a) c.world
  | ret =>
    unfold act
    dsimp only
    split
    · rfl
    · exact within_resume (R := SameManner) H _ c.world

end SettingsStay

/-! ## The invariant -/

/-- **Every node has one owner, or it has been released once.**  `first` is the first node of
the context; the queries that wait for their replies were sent as `s` asks for. -/
structure Housed (s : Manner) (first : NodeId) (w : World ω) : Prop where
  ordered : Ordered w
  manner : w.manner = s
  pending : ∀ a b, (a, ACallback.topology b) ∈ w.inflight → b = s.useSlots
  later : first ≤ w.nextNode
  count : ∀ n, w.owned.count n + w.releases n = born first w.nextNode n

/-- A reply by which no node is lost, whatever it answers. -/
def Hiredis.Orderly (H : Hiredis ω) (s : Manner) : Prop :=
  ∀ env p q r, (H.reply env p q).1 = .ok r → s.Orderly r

section Keeping

variable {s : Manner} {first : NodeId}

theorem Housed.conserves {w w' : World ω} (h : Housed s first w) (ho : Ordered w')
    (hc : Conserves w w') : Housed s first w' where
  ordered := ho
  manner := hc.manner.trans h.manner
  pending a b hab := by
    rcases hc.pending a b hab with hab | hb
    · exact h.pending a b hab
    · rw [hb, h.manner]
  later := h.later.trans hc.nextNode
  count n := by rw [hc.count, h.count, born_trans h.later hc.nextNode]

theorem keeps_housed {α : Type} {m : Prog ω α} (ho : Keeps Ordered m) (hc : Within Conserves m) :
    Keeps (Housed s first) m :=
  fun w h => h.conserves (ho w h.ordered) (hc w)

theorem keeps_housed_of {α : Type} {m : Prog ω α} (ho : Keeps Ordered m)
    (hc : ∀ w, (∀ n ∈ w.nodeList, n < w.nextNode) → wp m (fun _ w' => Conserves w w') w) :
    Keeps (Housed s first) m :=
  fun w h => h.conserves (ho w h.ordered) (hc w h.ordered.routed.lt)

instance : CommandClosed (Keeping (@Housed ω s first)) where
  ask f := keeps_housed (TalkClosed.ask f) (TalkClosed.ask f)
  modifyConn c f := keeps_housed (TalkClosed.modifyConn c f) (TalkClosed.modifyConn c f)
  newConn host port err := keeps_housed (TalkClosed.newConn host port err) (TalkClosed.newConn host port err)
  setError type str := keeps_housed (TalkClosed.setError type str) (TalkClosed.setError type str)
  wroteOwn c _ hq := keeps_housed (TalkClosed.wroteOwn c hq) (TalkClosed.wroteOwn c hq)
  wrote c q := keeps_housed (CommandClosed.wrote c q) (CommandClosed.wrote c q)
  read c q q' r := keeps_housed (TalkClosed.read c q q' r) (TalkClosed.read c q q' r)
  closed c := keeps_housed (TalkClosed.closed c) (TalkClosed.closed c)
  userHook := keeps_housed TalkClosed.userHook TalkClosed.userHook

instance : LibClosed (Keeping (@Housed ω s first)) where
  looked n known := keeps_housed (LoopClosed.looked n known) fun w =>
    conserves_record (fun _ h => by cases h) w
  deferred c held := keeps_housed (LoopClosed.deferred c held) fun w =>
    conserves_record (fun _ h => by cases h) w
  modifyCc hf := keeps_housed (EditClosed.modifyCc hf) (by
    refine conserves_modifyCc (fun cc => ?_) fun cc => ?_
    · obtain ⟨r, q, n, heq⟩ := hf.same cc
      rw [heq]
    · obtain ⟨r, q, n, heq⟩ := hf.same cc
      exact (congrArg Context.manner heq).trans rfl)
  cmdId w id := fun h => h.conserves (EditClosed.cmdId (R := Keeping Ordered) w id h.ordered)
    (conserves_of_edit rfl rfl rfl rfl rfl)
  disconnect n := keeps_housed (EditClosed.disconnect n) (conserves_modifyNode n fun _ => rfl)
  handleMoved str := keeps_housed_of (EditClosed.handleMoved str) fun _ hlt =>
    conserves_handleMoved hlt str
  handleAsk str := keeps_housed_of (EditClosed.handleAsk str) fun _ hlt =>
    conserves_handleAsk hlt str
  addNode addr := keeps_housed_of (LibClosed.addNode addr) fun _ hlt =>
    conserves_redisClusterSetOptionAddNode hlt addr

end Keeping

section Calls

variable (H : Hiredis ω) {s : Manner} {first : NodeId}

theorem conserves_ctxGetByNode (n : NodeId) : Within Conserves (ctxGetByNode H n) :=
  ctxGetByNode_within H fun _ => conserves_modifyNode n fun _ => rfl

/-- What is read is a reply of hiredis. -/
theorem redisGetReply_given (c : ConnId) (q : Sent) (w : World ω) :
    wp (redisGetReply H c q) (fun a _ => ∀ x, a = some x →
      ∃ env p q', (H.reply env p q').1 = .ok x.reply) w := by
  unfold redisGetReply
  rw [wp_bind, wp_get]
  split
  · exact fun x hx => by cases hx
  · split
    · exact fun x hx => by cases hx
    · rename_i q' rest _
      rw [wp_bind, wp_ask]
      split
      · exact fun x hx => by cases hx
      · rename_i r hr
        intro x hx
        obtain rfl := Option.some.inj hx
        exact ⟨_, _, _, hr⟩

theorem keeps_ordered_parse (b : Bool) (host : Bytes) (r : Reply) :
    Keeps Ordered (do
      let nodes ← parseTopology b host r
      updateNodesAndSlotmap nodes : Prog ω Status) := by
  intro w ho
  show wp _ (fun _ w' => Ordered w') w
  rw [wp_bind]
  refine wp_mono (parseTopology_fresh b host r w) fun nodes w₁ h₁ => ?_
  exact ho.updates (updateNodesAndSlotmap_updates h₁.1 h₁.2)

/-- A reply is parsed and the node set is replaced. -/
theorem housed_parse (first : ℕ) {r : Reply} (hr : s.Orderly r) (host : Bytes) :
    Keeps (Housed s first) (do
      let nodes ← parseTopology s.useSlots host r
      updateNodesAndSlotmap nodes : Prog ω Status) := by
  intro w h
  refine h.conserves (keeps_ordered_parse _ host r w h.ordered) ?_
  show wp _ (fun _ w' => Conserves w w') w
  rw [wp_bind]
  have hfiled := parseTopology_filed h.ordered (h.manner.symm ▸ hr) host
  rw [h.manner] at hfiled
  exact wp_mono hfiled fun nodes w₁ h₁ => h₁.updated

variable (hH : H.Orderly s)

include hH

theorem housed_handleReply (c : ConnId) :
    Keeps (Housed s first) (clusterUpdateRouteHandleReply H c) := by
  have herr : ∀ type str, Keeps (Housed s first) (do
      setError (some type) str
      pure Status.err : Prog ω _) :=
    fun type str => within_bind (TalkClosed.setError _ _) fun _ => within_pure _
  have hunread : ∀ what, Keeps (Housed s first) (do
      topologyReadError c what
      pure Status.err : Prog ω _) := fun what =>
    within_bind (within_bind within_get fun _ => within_ite (TalkClosed.setError _ _)
      (TalkClosed.setError _ _)) fun _ => within_pure _
  -- both conversations read a reply, and one kind of reply is parsed
  have hread : ∀ (q : Sent) {next : Option Answer → Prog ω Status},
      (∀ a, (∀ x, a = some x → s.Orderly x.reply) → Keeps (Housed s first) (next a)) →
      Keeps (Housed s first) (do
        let a ← redisGetReply H c q
        next a) := by
    intro q next hnext w h
    show wp _ (fun _ w' => Housed s first w') w
    rw [wp_bind]
    have hkeep : wp (redisGetReply H c q) (fun _ w' => Housed s first w') w :=
      within_redisGetReply (R := Keeping (Housed s first)) H c q w h
    refine wp_mono (wp_and hkeep (redisGetReply_given H c q w)) fun a w₁ h₁ => ?_
    refine hnext a (fun x hx => ?_) w₁ h₁.1
    obtain ⟨env, p, q', hr⟩ := h₁.2 x hx
    exact hH env p q' x.reply hr
  intro w h
  show wp _ (fun _ w' => Housed s first w') w
  unfold clusterUpdateRouteHandleReply
  rw [wp_bind, wp_get]
  have huse : w.cc.routeUseSlots = s.useSlots := congrArg Manner.useSlots h.manner
  split
  · rename_i hslots
    refine hread .clusterSlots (fun a ha => ?_) w h
    cases a with
    | none => exact hunread _
    | some a =>
      have hr := ha a rfl
      obtain ⟨q, r⟩ := a
      cases r with
      | array elems =>
        refine within_bind within_get fun w₁ => ?_
        have hparse := housed_parse (ω := ω) first hr (w₁.conns c).host
        rw [← huse, hslots] at hparse
        exact hparse
      | _ => exact herr _ _
  · rename_i hnodes
    refine hread .clusterNodes (fun a ha => ?_) w h
    cases a with
    | none => exact hunread _
    | some a =>
      have hr := ha a rfl
      obtain ⟨q, r⟩ := a
      cases r with
      | string str =>
        refine within_bind within_get fun w₁ => ?_
        have hparse := housed_parse (ω := ω) first hr (w₁.conns c).host
        rw [← huse, Bool.eq_false_iff.mpr hnodes] at hparse
        exact hparse
      | _ => exact herr _ _

theorem housed_redisClusterUpdateSlotmap :
    Keeps (Housed s first) (redisClusterUpdateSlotmap H) :=
  within_redisClusterUpdateSlotmap H (housed_handleReply H hH)

theorem callClosed_housed : CallClosed H (Keeping (@Housed ω s first)) where
  ctxGetByNode n := keeps_housed (CallClosed.ctxGetByNode n) (conserves_ctxGetByNode H n)
  updateSlotmap := housed_redisClusterUpdateSlotmap H hH
  handleReply := housed_handleReply H hH

end Calls

/-! ## Asynchronous calls and callbacks -/

section Asynchronous

variable (H : Hiredis ω) {s : Manner} {first : NodeId}

/-- A query for the topology is submitted as the context asks for it. -/
theorem conserves_submission {w : World ω} {cb : ACallback}
    (hcb : ∀ b, cb = .topology b → b = w.manner.useSlots) (a : AConnId) (q : Sent) :
    wp (redisAsyncCommand H a cb q) (fun _ w' => Conserves w w') w := by
  refine wp_mono (redisAsyncCommand_cases H a cb q w) fun r w' h => ?_
  rcases h with ⟨-, e, f, rfl⟩ | ⟨-, e, rfl⟩
  · exact conserves_of_edit rfl rfl rfl rfl rfl
  · refine ⟨le_rfl, fun n => ?_, rfl, fun a' b hab => ?_⟩
    · show _ = _ + born w.nextNode w.nextNode n
      rw [born_self]
      rfl
    · rcases List.mem_append.mp hab with hab | hab
      · exact Or.inl hab
      · obtain ⟨-, hb⟩ := Prod.mk.inj (List.mem_singleton.mp hab)
        exact Or.inr (hcb b hb.symm)

theorem conserves_redisAsyncCommand (a : AConnId) {cb : ACallback} (hcb : ∀ b, cb ≠ .topology b)
    (q : Sent) : Within Conserves (redisAsyncCommand H a cb q) :=
  fun w => conserves_submission H (fun b hb => absurd hb (hcb b)) a q (w := w)

instance : ReachClosed H (@Conserves ω) where
  ask _ _ := conserves_of_edit rfl rfl rfl rfl rfl
  failed a _ := conserves_modifyAConn a _
  asyncSetError _ _ := conserves_modifyAcc _
  sendNull a q := conserves_redisAsyncCommand H a (fun _ h => by cases h) q
  attempted n _ := conserves_modifyNode n fun _ => rfl
  newAConn _ _ _ _ := conserves_of_edit rfl rfl rfl rfl rfl
  redisAsyncFree a w := by
    have hfreed : Conserves w { (modifyAConn a (fun conn =>
        { conn with freeing := true, alive := false }) w).2 with
        inflight := w.inflight.filter fun p => p ≠ (a, .null) } :=
      { Conserves.refl w with pending := fun _ _ hab => Or.inl (List.mem_of_mem_filter hab) }
    exact hfreed
  linkAsync n a := within_bind (conserves_modifyAConn a _) fun _ =>
    conserves_modifyNode n fun _ => rfl
  noNodes := conserves_modifyAcc _

theorem conserves_stampSlotmapUpdate : Within Conserves (stampSlotmapUpdate H) :=
  within_bind (TalkClosed.ask _) fun _ => conserves_modifyAcc _

theorem conserves_updateSlotMapAsync (a : Option AConnId) :
    Within Conserves (updateSlotMapAsync H a) := by
  have hfail : Within Conserves (do
      stampSlotmapUpdate H
      pure Status.err) :=
    within_bind (conserves_stampSlotmapUpdate H) fun _ => within_pure _
  refine within_bind within_get fun w => within_ite (within_pure _)
    (within_bind (within_updateTarget H a) fun a => ?_)
  cases a with
  | none => exact hfail
  | some a =>
    have hsend : Within Conserves (submitTopologyQuery H a) := fun w =>
      conserves_submission H (fun b hb => by cases hb; rfl) a _ (w := w)
    refine within_bind hsend fun s => ?_
    cases s with
    | ok => exact within_bind (conserves_modifyAcc _) fun _ => within_pure _
    | err => exact hfail

theorem conserves_disconnectNode (n : NodeId) : Within Conserves (disconnectNode n : Prog ω Unit) := by
  refine within_bind within_get fun w => ?_
  split
  · exact within_pure _
  · exact conserves_modifyAConn _ _

theorem asyncClosed_housed (hH : H.Orderly s) : AsyncClosed H (Keeping (@Housed ω s first)) where
  toCallClosed := callClosed_housed H hH
  modifyAcc hf := keeps_housed (AsyncClosed.modifyAcc (H := H) hf) (conserves_modifyAcc _)
  modifyCad k f := keeps_housed (AsyncClosed.modifyCad (H := H) k f) fun _ =>
    conserves_of_edit rfl rfl rfl rfl rfl
  newCad cad := keeps_housed (AsyncClosed.newCad (H := H) cad) fun _ =>
    conserves_of_edit rfl rfl rfl rfl rfl
  send a _ q hcb := keeps_housed (AsyncClosed.send a q hcb) (conserves_redisAsyncCommand H a hcb q)
  actxGetByNode n := keeps_housed (AsyncClosed.actxGetByNode n) (within_actxGetByNode H n)
  updateSlotMapAsync a := keeps_housed (AsyncClosed.updateSlotMapAsync a)
    (conserves_updateSlotMapAsync H a)
  shutdown b := keeps_housed (AsyncClosed.shutdown (H := H) b)
    (conserves_modifyCc (fun _ => rfl) fun _ => rfl)
  disconnectNode n := keeps_housed (AsyncClosed.disconnectNode (H := H) n)
    (conserves_disconnectNode n)

/-- The reply to a query for the topology. -/
theorem conserves_topologyReplyCallback {w : World ω} (ho : Ordered w) (a : AConnId) {b : Bool}
    (hb : b = w.manner.useSlots) {reply : Option Reply} (hr : ∀ r, reply = some r → w.manner.Orderly r) :
    wp (topologyReplyCallback H a b reply) (fun _ w' => Conserves w w') w := by
  have hagain : Within Conserves (do
      let _ ← updateSlotMapAsync H none
      pure false) :=
    within_bind (conserves_updateSlotMapAsync H none) fun _ => within_pure _
  have hstamped : wp (stampSlotmapUpdate H) (fun _ w₁ => Conserves w w₁ ∧ Ordered w₁) w :=
    ⟨conserves_stampSlotmapUpdate H w, ho.aside (aside_stampSlotmapUpdate H w)⟩
  unfold topologyReplyCallback
  rw [wp_bind]
  refine wp_mono hstamped fun _ w₁ h₁ => ?_
  obtain ⟨hc, ho₁⟩ := h₁
  cases reply with
  | none => exact hc.trans (hagain w₁)
  | some r =>
    dsimp only
    rw [wp_bind, wp_get, wp_bind]
    have hfiled := parseTopology_filed ho₁ (hc.manner.symm ▸ hr r rfl) (w₁.aconns a).host
    rw [hc.manner, ← hb] at hfiled
    refine wp_mono hfiled fun nodes w₂ h₂ => ?_
    cases nodes with
    | none => exact hc.trans (h₂.none.trans (hagain w₂))
    | some d =>
      dsimp only
      rw [wp_bind]
      refine wp_mono (installNodes_enters d w₂) fun s w₃ h₃ => ?_
      have hd := hc.trans (h₂.entered h₃)
      cases s with
      | ok => exact hd
      | err => exact hd.trans (hagain w₃)

/-- **All nodes are released** with the context. -/
theorem conserves_redisClusterFree : Within Conserves (redisClusterFree : Prog ω Unit) := by
  refine within_bind TalkClosed.userHook fun _ w => ?_
  show wp _ (fun _ w' => Conserves w w') w
  rw [wp_bind, wp_get, wp_bind, wp_modifyCc]
  split
  · rename_i hnone
    refine conserves_of_eq rfl ?_ rfl (fun _ => rfl) rfl rfl
    exact hnone.symm
  · rename_i d hd
    rw [wp_dictRelease]
    refine ⟨le_rfl, fun n => ?_, rfl, fun _ _ hab => Or.inl hab⟩
    rw [releases_freeing, World.owned_of_some hd, World.owned_of_none rfl, List.count_nil]
    show 0 + (w.releases n + (w.holdings d).count n) = _ + born w.nextNode w.nextNode n
    rw [born_self]
    omega

end Asynchronous

/-! ## Whole runs -/

/-- A reply that is delivered is orderly. -/
def OrderlyDelivery (c : Client ω) (x : ClientAction) : Prop :=
  ∀ a r, x = .deliver a (some r) → c.world.manner.Orderly r

section Runs

variable (H : Hiredis ω)

theorem act_housed {s : Manner} {first : NodeId} (hH : H.Orderly s) {c : Client ω} {x : ClientAction}
    (hx : OrderlyDelivery c x) (h : Housed s first c.world) : Housed s first (act H c x).world := by
  have : AsyncClosed H (Keeping (@Housed ω s first)) := asyncClosed_housed H hH
  have ho := act_ordered H h.ordered x
  cases x with
  | call op =>
    exact Call.within_run (R := Keeping (Housed s first)) H op (fun addr _ => LibClosed.addNode addr)
      (fun _ => keeps_housed (keeps_of_steady steady_redisClusterFree) conserves_redisClusterFree) _ h
  | connected a => exact h.conserves ho (conserves_of_edit rfl rfl rfl rfl rfl)
  | failed a f => exact h.conserves ho (conserves_of_edit rfl rfl rfl rfl rfl)
  | deliver a reply =>
    unfold act
    dsimp only
    split
    · exact h
    · rename_i cb hcb
      obtain ⟨before, after, hsplit, htaken⟩ := World.oldest_split hcb
      have htake : Conserves c.world (takeCallback a c.world).2 :=
        { Conserves.refl c.world with
          pending := fun a' b hab => Or.inl (List.mem_of_mem_eraseP hab) }
      have h' : Housed s first (takeCallback a c.world).2 :=
        h.conserves (h.ordered.of_async rfl rfl rfl rfl rfl) htake
      cases cb with
      | topology b =>
        -- the query was sent as the context asks, and so is its reply read
        have hb : b = s.useSlots := by
          refine h.pending a b ?_
          rw [hsplit]
          exact List.mem_append_right _ List.mem_cons_self
        have hreply : ∀ r, reply = some r → (takeCallback a c.world).2.manner.Orderly r := by
          rintro r rfl
          exact hx a r rfl
        have hcall := conserves_topologyReplyCallback H h'.ordered a (hb.trans (by rw [h'.manner])) hreply
        refine h'.conserves ?_ ?_
        · exact within_runCallback (R := Keeping Ordered) H a reply
            (fun b _ => keeps_of_steady (steady_topologyReplyCallback H a b reply)) _ h'.ordered
        · show wp (runCallback H a (.topology b) reply) (fun _ w' => Conserves _ w') _
          unfold runCallback
          dsimp only
          rw [wp_bind]
          refine wp_mono hcall fun r w₁ h₁ => ?_
          cases r with
          | true => exact h₁
          | false => exact h₁
      | null =>
        exact within_runCallback (R := Keeping (Housed s first)) H a reply (fun b h => by cases h) _ h'
      | user k =>
        exact within_runCallback (R := Keeping (Housed s first)) H a reply (fun b h => by cases h) _ h'
  | free a => exact h.conserves ho (conserves_of_edit rfl rfl rfl rfl rfl)
  | closed a =>
    refine h.conserves ho ?_
    have hunlink : Within Conserves (unlinkAsyncContextAndNode a : Prog ω Unit) := by
      refine within_bind within_get fun w => ?_
      dsimp only
      split
      · exact conserves_modifyAConn a _
      · exact within_bind (conserves_modifyNode _ fun _ => rfl) fun _ => conserves_modifyAConn a _
    exact hunlink c.world
  | ret =>
    unfold act
    dsimp only
    split
    · exact h
    · exact within_resume (R := Keeping (Housed s first)) H _ _ h

theorem World.Fresh.housed {w : World ω} (h : w.Fresh) : Housed w.manner w.nextNode w where
  ordered := h.ordered
  manner := rfl
  pending a b hab := by
    rw [h.inflight] at hab
    cases hab
  later := le_rfl
  count n := by
    rw [World.owned_of_none h.nodes, born_self, World.releases, h.trace]
    rfl

theorem perform_housed {s : Manner} {first : NodeId} (hH : H.Orderly s) {xs : List ClientAction} :
    ∀ {c : Client ω}, Guarded H OrderlyDelivery c xs → Housed s first c.world →
      Housed s first (perform H c xs).world := by
  induction xs with
  | nil => exact fun _ h => h
  | cons x xs ih => exact fun hx h => ih hx.2 (act_housed H hH hx.1.2 h)

/-- **No node is lost and none is released twice.**  However a new context `w` has been used,
each node created since is held in exactly one place and was not released, or it is held nowhere
and was released exactly once; and nothing else was ever held or released. -/
theorem nodes_owned_once {w : World ω} (hw : w.Fresh) (hH : H.Orderly w.manner)
    {xs : List ClientAction} (hxs : Guarded H OrderlyDelivery ⟨w, []⟩ xs) :
    let c := perform H ⟨w, []⟩ xs
    ∀ n, (w.nextNode ≤ n ∧ n < c.world.nextNode →
        (c.world.owned.count n = 1 ∧ c.world.releases n = 0) ∨
          (n ∉ c.world.owned ∧ c.world.releases n = 1)) ∧
      (¬ (w.nextNode ≤ n ∧ n < c.world.nextNode) → n ∉ c.world.owned ∧ c.world.releases n = 0) := by
  intro c n
  have hsum := (perform_housed H hH hxs hw.housed).count n
  change c.world.owned.count n + c.world.releases n = born w.nextNode c.world.nextNode n at hsum
  constructor
  · intro hn
    rw [born, if_pos hn] at hsum
    by_cases hmem : n ∈ c.world.owned
    · have hpos := List.count_pos_iff.mpr hmem
      exact Or.inl (by omega)
    · rw [List.count_eq_zero.mpr hmem] at hsum
      exact Or.inr ⟨hmem, by omega⟩
  · intro hn
    rw [born, if_neg hn] at hsum
    exact ⟨List.count_eq_zero.mp (by omega), by omega⟩

/-- Unless replicas are read from CLUSTER NODES, all replies are orderly. -/
theorem guarded_of_settings {xs : List ClientAction} : ∀ {c : Client ω}, Legal H c xs →
    c.world.manner.useSlots = true ∨ c.world.manner.addSlave = false →
      Guarded H OrderlyDelivery c xs := by
  induction xs with
  | nil => exact fun _ _ => trivial
  | cons x xs ih =>
    intro c hl hs
    refine ⟨⟨hl.1, fun _ r _ => Manner.orderly_of_settings hs r⟩, ih hl.2 ?_⟩
    rw [act_manner]
    exact hs

/-- So the replies do not matter then. -/
theorem nodes_owned_once_of_settings {w : World ω} (hw : w.Fresh)
    (hs : w.manner.useSlots = true ∨ w.manner.addSlave = false) {xs : List ClientAction}
    (hxs : Legal H ⟨w, []⟩ xs) (n : NodeId) :
    (perform H ⟨w, []⟩ xs).world.owned.count n + (perform H ⟨w, []⟩ xs).world.releases n =
      born w.nextNode (perform H ⟨w, []⟩ xs).world.nextNode n :=
  (perform_housed H (fun _ _ _ r _ => Manner.orderly_of_settings hs r)
    (guarded_of_settings H hxs hs) hw.housed).count n

end Runs

/-- The only node of the client was replaced by one on another port: it was released. -/
theorem nodes_owned_once_movedAway :
    let c := perform Hiredis.atWork (newAsyncClient []) movedAway
    0 ∉ c.world.owned ∧ c.world.releases 0 = 1 := by
  have hs : (newAsyncClient ([] : List Reply)).world.manner.useSlots = true ∨
      (newAsyncClient ([] : List Reply)).world.manner.addSlave = false := Or.inr rfl
  have hlegal : Legal Hiredis.atWork (newAsyncClient []) movedAway := by decide +kernel
  have hall := nodes_owned_once Hiredis.atWork (fresh_newAsyncClient [])
    (fun _ _ _ r _ => Manner.orderly_of_settings hs r) (guarded_of_settings _ hlegal hs) 0
  intro c
  have hnot : 0 ∉ c.world.owned := by decide +kernel
  rcases hall.1 (by decide +kernel) with h | h
  · have hone : c.world.owned.count 0 = 1 := h.1
    rw [List.count_eq_zero.mpr hnot] at hone
    cases hone
  · exact h
