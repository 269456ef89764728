/-
# What updates of the slot map and redirects respect

Replacing the node set, reaching a node and following a redirect edit the routing fields
of the context and the connections of the nodes, besides what a conversation and a parse
do.  Whatever these respect, all of it respects: for relations that look at something
else altogether this goes once through the code, here.
-/
import HiredisCluster.Redirect

open Program

variable {ω : Type}

/-! ## Asking for the topology -/

/-- Reading the reply, if reading, the errors, and the installation of a parsed reply are
as wished. -/
theorem within_handleReply (H : Hiredis ω) {R : World ω → World ω → Prop} [Std.Refl R]
    [IsTrans (World ω) R] (hread : ∀ c q, Within R (redisGetReply H c q))
    (herror : ∀ type str, Within R (setError (some type) str))
    (hslots : ∀ host elems, Within R (do
      let nodes ← parseClusterSlots host (.array elems)
      updateNodesAndSlotmap nodes : Prog ω Status))
    (hnodes : ∀ host str, Within R (do
      let nodes ← parseClusterNodes host (.string str)
      updateNodesAndSlotmap nodes : Prog ω Status)) (c : ConnId) :
    Within R (clusterUpdateRouteHandleReply H c) := by
  have herr : ∀ type str, Within R (do setError (some type) str; pure Status.err : Prog ω _) :=
    fun type str => within_bind (herror _ _) fun _ => within_pure _
  have hunread : ∀ what, Within R (topologyReadError c what : Prog ω Unit) := fun what =>
    within_bind within_get fun _ => within_ite (herror _ _) (herror _ _)
  refine within_bind within_get fun w => within_ite ?_ ?_
  · refine within_bind (hread c _) fun a => ?_
    cases a with
    | none => exact within_bind (hunread _) fun _ => within_pure _
    | some a =>
      obtain ⟨q, r⟩ := a
      cases r with
      | array elems => exact within_bind within_get fun _ => hslots _ _
      | _ => exact herr _ _
  · refine within_bind (hread c _) fun a => ?_
    cases a with
    | none => exact within_bind (hunread _) fun _ => within_pure _
    | some a =>
      obtain ⟨q, r⟩ := a
      cases r with
      | string str => exact within_bind within_get fun _ => hnodes _ _
      | _ => exact herr _ _

section Asking

variable (H : Hiredis ω) {R : World ω → World ω → Prop} [TalkClosed R]

variable (hreply : ∀ c : ConnId, Within R (clusterUpdateRouteHandleReply H c))

include hreply

theorem within_queryTopology (c : ConnId) : Within R (queryTopology H c) := by
  refine within_bind within_get fun w =>
    within_ite (within_bind (within_copyError c) fun _ => within_pure _) ?_
  refine within_bind (within_startTls H c) fun s => ?_
  cases s with
  | err => exact within_pure _
  | ok =>
    refine within_bind (within_authenticate H c) fun s => ?_
    cases s with
    | err => exact within_pure _
    | ok =>
      refine within_bind (within_clusterUpdateRouteSendCommand H c) fun s => ?_
      cases s with
      | err => exact within_pure _
      | ok => exact hreply c

theorem within_updateSlotmapFrom (ns : List NodeId) : Within R (updateSlotmapFrom H ns) := by
  induction ns with
  | nil => exact within_pure _
  | cons n ns ih =>
    refine within_bind within_get fun w => within_bind (within_ite ?_ ?_) fun s => ?_
    · exact within_bind (TalkClosed.setError _ _) fun _ => within_pure _
    · refine within_bind (within_redisConnectWithOptions H _ _) fun c => ?_
      cases c with
      | none => exact within_bind (TalkClosed.setError _ _) fun _ => within_pure _
      | some c =>
        exact within_bind TalkClosed.userHook fun _ => within_bind (within_queryTopology H hreply c)
          fun _ => within_bind (within_redisFree _) fun _ => within_pure _
    · cases s with
      | ok => exact within_bind (TalkClosed.setError _ _) fun _ => within_pure _
      | err => exact ih

theorem within_redisClusterUpdateSlotmap : Within R (redisClusterUpdateSlotmap H) := by
  refine within_bind within_get fun w => ?_
  split
  · exact within_bind (TalkClosed.setError _ _) fun _ => within_pure _
  · exact within_ite (within_bind (TalkClosed.setError _ _) fun _ => within_pure _)
      (within_updateSlotmapFrom H hreply _)

end Asking

/-! ## Reaching a node -/

section Reaching

variable (H : Hiredis ω) {R : World ω → World ω → Prop} [TalkClosed R]

variable {n : NodeId}
  (hcon : ∀ c : ConnId, Within R (modifyNode n fun node => { node with con := some c }))

include hcon

theorem openNode_within : Within R (openNode H n) := by
  refine within_bind within_get fun w =>
    within_bind (within_redisConnectWithOptions H _ _) fun c => ?_
  cases c with
  | none => exact within_bind (TalkClosed.setError _ _) fun _ => within_pure _
  | some c =>
    have hgive : Within R (do redisFree (some c); pure none : Prog ω (Option ConnId)) :=
      within_bind (within_redisFree _) fun _ => within_pure _
    refine within_bind TalkClosed.userHook fun _ => within_bind within_get fun w =>
      within_ite (within_bind (within_copyError c) fun _ => hgive) ?_
    refine within_bind (within_startTls H c) fun s => ?_
    cases s with
    | err => exact hgive
    | ok =>
      refine within_bind (within_authenticate H c) fun s => ?_
      cases s with
      | err => exact hgive
      | ok => exact within_bind (hcon c) fun _ => within_pure _

/-- Reaching a node is a conversation, and a first connection is remembered. -/
theorem ctxGetByNode_within : Within R (ctxGetByNode H n) := by
  refine within_bind within_get fun w => ?_
  split
  · exact within_ite (within_bind (within_reconnectNode H _) fun _ => within_pure _)
      (within_pure _)
  · exact within_ite (within_pure _) (openNode_within H hcon)

end Reaching

/-! ## Replacing the node set -/

/-- Edits of the context that concern its routing state only. -/
def Routes (f : Context → Context) : Prop :=
  ∀ cc, ∃ d t v b, f cc = { cc with nodes := d, table := t, routeVersion := v, needUpdateRoute := b }

/-- Relations that are respected by what replacing the node set and following a redirect
are made of. -/
class InstallClosed (R : World ω → World ω → Prop) : Prop extends ParseClosed R where
  userHook : Within R userHook
  modifyCc : ∀ {f : Context → Context}, Routes f → Within R (modifyCc f)
  swapNodeCtx : ∀ f t : NodeId, Within R (swapNodeCtx f t)
  stored : ∀ (slot : ℤ) (n : NodeId), Within R (record (.stored slot n))

section Installing

variable {R : World ω → World ω → Prop} [InstallClosed R]

theorem within_clusterNodesSwapCtx (d : NodeDict) (ns : List NodeId) :
    Within R (clusterNodesSwapCtx d ns : Prog ω Unit) := by
  induction ns with
  | nil => exact within_pure _
  | cons t ts ih =>
    refine within_bind within_get fun w => ?_
    split
    · exact ih
    · exact within_bind (InstallClosed.swapNodeCtx _ _) fun _ => ih

theorem within_installNodes (d : NodeDict) : Within R (installNodes d : Prog ω Status) := by
  refine within_bind within_get fun w => ?_
  split
  · exact within_bind (ParseClosed.setError _ _) fun _ =>
      within_bind (within_dictRelease _) fun _ => within_pure _
  · refine within_bind (InstallClosed.modifyCc fun _ => ⟨_, _, _, _, rfl⟩) fun _ => ?_
    split
    · exact within_bind (InstallClosed.modifyCc fun _ => ⟨_, _, _, _, rfl⟩) fun _ => within_pure _
    · exact within_bind (within_clusterNodesSwapCtx _ _) fun _ =>
        within_bind (InstallClosed.modifyCc fun _ => ⟨_, _, _, _, rfl⟩) fun _ =>
          within_bind (within_dictRelease _) fun _ => within_pure _

theorem within_updateNodesAndSlotmap (d : Option NodeDict) :
    Within R (updateNodesAndSlotmap d : Prog ω Status) := by
  unfold updateNodesAndSlotmap
  split
  · exact within_pure _
  · refine within_bind (within_installNodes _) fun s => ?_
    cases s with
    | err => exact within_pure _
    | ok =>
      refine within_bind (within_bind InstallClosed.userHook fun _ => ?_) fun _ => within_pure _
      exact InstallClosed.modifyCc fun _ => ⟨_, _, _, _, rfl⟩

theorem within_redisClusterSetOptionAddNode (addr : Bytes) :
    Within R (redisClusterSetOptionAddNode addr : Prog ω Status) := by
  have herr : ∀ type str, Within R (do setError (some type) str; pure Status.err : Prog ω _) :=
    fun type str => within_bind (ParseClosed.setError _ _) fun _ => within_pure _
  refine within_bind within_get fun w =>
    within_bind (InstallClosed.modifyCc fun _ => ⟨_, _, _, _, rfl⟩) fun _ => ?_
  split
  · exact within_pure _
  · split
    · exact herr _ _
    · refine within_ite (herr _ _) (within_ite (herr _ _) (within_ite (herr _ _) ?_))
      refine within_bind (ParseClosed.newNode rfl) fun n => ?_
      split
      · exact herr _ _
      · exact within_bind (InstallClosed.modifyCc fun _ => ⟨_, _, _, _, rfl⟩) fun _ =>
          within_pure _

/-! ## Redirects -/

theorem within_getNodeFromRedirectReply (str : Bytes) :
    Within R (getNodeFromRedirectReply str : Prog ω _) := by
  have hfail : ∀ e s (x : Option NodeId × ℤ), Within R (do setError (some e) s; pure x : Prog ω _) :=
    fun e s x => within_bind (ParseClosed.setError _ _) fun _ => within_pure _
  refine within_bind within_get fun w => ?_
  split
  · split
    · exact hfail _ _ _
    · refine within_ite (hfail _ _ _) ?_
      dsimp only
      split
      · exact within_pure _
      · refine within_bind (ParseClosed.newNode rfl) fun n => ?_
        split
        · exact hfail _ _ _
        · exact within_bind (InstallClosed.modifyCc fun _ => ⟨_, _, _, _, rfl⟩) fun _ =>
            within_pure _
  · exact hfail _ _ _

theorem within_handleMoved (str : Bytes) : Within R (handleMoved str : Prog ω _) := by
  refine within_bind (within_getNodeFromRedirectReply str) fun r => ?_
  split
  · exact within_pure _
  · refine within_bind (within_ite (within_pure _) (within_bind (InstallClosed.stored _ _) fun _ =>
      within_ite ?_ (within_pure _))) fun _ => within_pure _
    exact InstallClosed.modifyCc fun _ => ⟨_, _, _, _, rfl⟩

theorem within_handleAsk (str : Bytes) : Within R (handleAsk str : Prog ω _) :=
  within_bind (within_getNodeFromRedirectReply str) fun _ => within_pure _

end Installing

/-! ## All of it -/

/-- Relations that are respected by what updates of the slot map are made of. -/
class UpdateClosed (R : World ω → World ω → Prop) [TalkClosed R] [ParseClosed R] : Prop where
  modifyCc : ∀ {f : Context → Context}, Routes f → Within R (modifyCc f)
  modifyNode : ∀ (n : NodeId) (f : Node → Node), Within R (modifyNode n f)
  relinkAsync : ∀ (a : Option AConnId) (n : NodeId), Within R (relinkAsync a n)
  stored : ∀ (slot : ℤ) (n : NodeId), Within R (record (.stored slot n))

section Updating

variable (H : Hiredis ω) {R : World ω → World ω → Prop} [TalkClosed R] [ParseClosed R]
  [UpdateClosed R]

theorem within_swapNodeCtx (f t : NodeId) : Within R (swapNodeCtx f t : Prog ω Unit) :=
  within_bind within_get fun _ => within_bind (UpdateClosed.modifyNode _ _) fun _ =>
    within_bind (UpdateClosed.modifyNode _ _) fun _ => within_ite
      (within_bind (UpdateClosed.relinkAsync _ _) fun _ => UpdateClosed.relinkAsync _ _)
      (within_pure _)

instance : InstallClosed R where
  toParseClosed := inferInstance
  userHook := TalkClosed.userHook
  modifyCc := UpdateClosed.modifyCc
  swapNodeCtx := within_swapNodeCtx
  stored := UpdateClosed.stored

theorem within_clusterUpdateRouteHandleReply (c : ConnId) :
    Within R (clusterUpdateRouteHandleReply H c) :=
  within_handleReply H (within_redisGetReply H) (fun type => TalkClosed.setError (some type))
    (fun _ _ => within_bind (within_parseClusterSlots _ _) fun _ => within_updateNodesAndSlotmap _)
    (fun _ _ => within_bind (within_parseClusterNodes _ _) fun _ => within_updateNodesAndSlotmap _) c

theorem within_ctxGetByNode (n : NodeId) : Within R (ctxGetByNode H n) :=
  ctxGetByNode_within H fun _ => UpdateClosed.modifyNode n _

end Updating
