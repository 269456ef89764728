/-
# What all calls respect

A blocking or pipelined call is made of conversations over a connection, of a few edits
of the context, and of the routines that reach a node, follow a redirect or update the
slot map.  Whatever these respect, every call respects: the lemmas here go once through
all calls, for any such relation.
-/
import HiredisCluster.Pipeline

open Program

variable {ω : Type}

/-- Edits of the context that concern the counter of retries, the list of requests and
the scheduling of an update only. -/
structure Counts (f : Context → Context) : Prop where
  same : ∀ cc, ∃ r q n, f cc = { cc with retryCount := r, requests := q, needUpdateRoute := n }
  nonneg : ∀ cc, 0 ≤ cc.retryCount → 0 ≤ (f cc).retryCount

theorem counts_retryCount {r : ℤ} (h : 0 ≤ r) : Counts fun cc => { cc with retryCount := r } :=
  ⟨fun _ => ⟨_, _, _, rfl⟩, fun _ _ => h⟩

theorem counts_redirect : Counts fun cc => { cc with retryCount := cc.retryCount + 1 } :=
  ⟨fun _ => ⟨_, _, _, rfl⟩, fun _ h => Int.le_add_one h⟩

theorem counts_requests (f : Context → Option (List Request)) :
    Counts fun cc => { cc with requests := f cc } :=
  ⟨fun _ => ⟨_, _, _, rfl⟩, fun _ h => h⟩

theorem counts_needUpdateRoute (f : Context → Bool) :
    Counts fun cc => { cc with needUpdateRoute := f cc } :=
  ⟨fun _ => ⟨_, _, _, rfl⟩, fun _ h => h⟩

theorem counts_failedRead : Counts fun cc =>
    if cc.needUpdateRoute then cc
    else if cc.maxRetryCount < cc.retryCount + 1 then
      { cc with needUpdateRoute := true, retryCount := 0 }
    else { cc with retryCount := cc.retryCount + 1 } := by
  constructor
  · intro cc
    split
    · exact ⟨_, _, _, rfl⟩
    · split
      · exact ⟨_, _, _, rfl⟩
      · exact ⟨_, _, _, rfl⟩
  · intro cc h
    split
    · exact h
    · split
      · exact Int.le_refl 0
      · exact Int.le_add_one h

/-- Relations that are respected by what the command loop does between two commands. -/
class LoopClosed (R : World ω → World ω → Prop) : Prop extends TalkClosed R where
  looked : ∀ (n : NodeId) (known : Bool), Within R (record (.lookup n known))
  deferred : ∀ (c : ConnId) (held : Bool), Within R (record (.deferred c held))

/-- Relations that are respected by what a call does to the context on its own. -/
class ContextClosed (R : World ω → World ω → Prop) : Prop extends ErrorClosed R where
  redisFree : ∀ c : Option ConnId, Within R (redisFree c)
  modifyCc : ∀ {f : Context → Context}, Counts f → Within R (modifyCc f)
  cmdId : ∀ (w : World ω) (id : ℕ), R w { w with cmdId := id }
  disconnect : ∀ n : NodeId, Within R (modifyNode n fun node => { node with con := none })

/-- Relations that are also respected by reading replies, and by flushing. -/
class ReadClosed (H : Hiredis ω) (R : World ω → World ω → Prop) : Prop extends
    ContextClosed R where
  redisGetReply : ∀ (c : ConnId) (q : Sent), Within R (redisGetReply H c q)
  redisBufferWrite : ∀ c : ConnId, Within R (redisBufferWrite H c)

/-- Relations that are respected by what a call does between its conversations. -/
class EditClosed (R : World ω → World ω → Prop) : Prop extends LoopClosed R where
  modifyCc : ∀ {f : Context → Context}, Counts f → Within R (modifyCc f)
  cmdId : ∀ (w : World ω) (id : ℕ), R w { w with cmdId := id }
  disconnect : ∀ n : NodeId, Within R (modifyNode n fun node => { node with con := none })
  handleMoved : ∀ str : Bytes, Within R (handleMoved str)
  handleAsk : ∀ str : Bytes, Within R (handleAsk str)

/-- Relations that are respected by what calls do without asking hiredis. -/
class LibClosed (R : World ω → World ω → Prop) : Prop extends EditClosed R where
  addNode : ∀ addr : Bytes, Within R (redisClusterSetOptionAddNode addr)

instance {R : World ω → World ω → Prop} [EditClosed R] : ContextClosed R where
  redisFree := within_redisFree
  modifyCc := EditClosed.modifyCc
  cmdId := EditClosed.cmdId
  disconnect := EditClosed.disconnect

instance (H : Hiredis ω) {R : World ω → World ω → Prop} [EditClosed R] : ReadClosed H R where
  redisGetReply := within_redisGetReply H
  redisBufferWrite := within_redisBufferWrite H

/-- Relations that are respected by what calls are made of. -/
class CallClosed (H : Hiredis ω) (R : World ω → World ω → Prop) : Prop where
  ctxGetByNode : ∀ n : NodeId, Within R (ctxGetByNode H n)
  updateSlotmap : Within R (redisClusterUpdateSlotmap H)
  handleReply : ∀ c : ConnId, Within R (clusterUpdateRouteHandleReply H c)

/-! ## On the context -/

section Contexts

variable {R : World ω → World ω → Prop} [ContextClosed R]

theorem within_commandGet : Within R (commandGet : Prog ω ℕ) :=
  within_bind (fun w => ContextClosed.cmdId w _) fun _ => within_bind within_get fun _ => within_pure _

theorem within_commandFormatBySlot (r : Request) :
    Within R (commandFormatBySlot r : Prog ω _) := by
  refine within_ite (within_pure _) ?_
  split
  · exact within_bind (ErrorClosed.setError _ _) fun _ => within_pure _
  · dsimp only
    split
    · exact within_bind (ErrorClosed.setError _ _) fun _ => within_pure _
    · exact within_pure _
    · exact within_bind within_get fun w => within_bind (fun w => ContextClosed.cmdId w _) fun _ =>
        within_ite (within_pure _) (within_pure _)

theorem within_resetError : Within R (resetError : Prog ω Unit) :=
  within_bind within_get fun _ => within_ite (ErrorClosed.setError _ _) (within_pure _)

theorem within_commandPostFragment (type : CmdType) (fragSeq : List ℤ)
    (frags : List (Cmd × Option Reply)) :
    Within R (commandPostFragment type fragSeq frags : Prog ω _) := by
  unfold commandPostFragment
  split
  · exact within_pure _
  · exact within_pure _
  · exact within_bind (ErrorClosed.setError _ _) fun _ => within_pure _

theorem within_closeNode (n : NodeId) : Within R (closeNode n : Prog ω Unit) :=
  within_bind within_get fun _ => within_bind (ContextClosed.redisFree _) fun _ =>
    ContextClosed.disconnect n

theorem within_redisClusterClearAll : Within R (redisClusterClearAll : Prog ω Status) := by
  refine within_bind within_resetError fun _ => within_bind within_get fun w => ?_
  split
  · exact within_pure _
  · exact within_bind (within_forEach within_closeNode _) fun _ => within_pure _

end Contexts

/-! ## Reading -/

section Reads

variable (H : Hiredis ω) {R : World ω → World ω → Prop} [ReadClosed H R]

theorem within_clusterGetReplyFromNode (n : NodeId) (q : Sent) :
    Within R (clusterGetReplyFromNode H n q) := by
  refine within_bind within_get fun w => ?_
  split
  · exact within_pure _
  · refine within_ite (within_bind (ContextClosed.modifyCc counts_failedRead) fun _ =>
      within_bind (within_copyError _) fun _ => within_pure _) ?_
    refine within_bind (ReadClosed.redisGetReply _ q) fun a => ?_
    cases a with
    | none => exact within_bind (within_copyError _) fun _ => within_pure _
    | some a =>
      exact within_bind (ContextClosed.modifyCc (counts_needUpdateRoute _)) fun _ => within_pure _

theorem within_clusterGetReply (slot : ℤ) (q : Sent) : Within R (clusterGetReply H slot q) := by
  refine within_ite (within_pure _) (within_bind (within_nodeGetByTable _) fun n => ?_)
  cases n with
  | none => exact within_pure _
  | some n => exact within_clusterGetReplyFromNode H n q

theorem within_getFragmentReplies (frags : List Cmd) :
    ∀ done, Within R (getFragmentReplies H done frags) := by
  induction frags with
  | nil => exact fun done => within_pure _
  | cons f fs ih =>
    intro done
    refine within_ite (within_bind (ErrorClosed.setError _ _) fun _ => within_pure _) ?_
    refine within_bind (within_clusterGetReply H _ _) fun r => ?_
    cases r with
    | none => exact within_pure _
    | some r => exact ih _

theorem within_getRequestReply (r : Request) : Within R (getRequestReply H r) := by
  refine within_bind within_get fun w => within_ite (within_clusterGetReply H _ _) ?_
  split
  · split
    · exact within_clusterGetReplyFromNode H _ _
    · exact within_bind (ErrorClosed.setError _ _) fun _ => within_pure _
  · split
    · exact within_bind (ErrorClosed.setError _ _) fun _ => within_pure _
    · refine within_bind (within_getFragmentReplies H _ _) fun rs => ?_
      cases rs with
      | none => exact within_pure _
      | some rs => exact within_commandPostFragment _ _ rs

theorem within_redisClusterGetReply : Within R (redisClusterGetReply H) := by
  refine within_bind (ErrorClosed.setError _ _) fun _ => within_bind within_get fun w => ?_
  split
  · exact within_pure _
  · exact within_pure _
  · refine within_bind (within_getRequestReply H _) fun r =>
      within_bind (ContextClosed.modifyCc (counts_requests _)) fun _ => ?_
    cases r with
    | none => exact within_pure _
    | some r => exact within_pure _

theorem within_drainReplies (fuel : ℕ) : Within R (drainReplies H fuel) := by
  induction fuel with
  | zero => exact within_pure _
  | succ fuel ih =>
    refine within_bind (within_redisClusterGetReply H) fun p => ?_
    obtain ⟨s, r⟩ := p
    cases s with
    | err => exact within_bind within_redisClusterClearAll fun _ => within_pure _
    | ok =>
      cases r with
      | none => exact within_pure _
      | some r => exact ih

/-! ## Reset -/

/-- A reset is respected if flushing and updates of the slot map are. -/
theorem redisClusterReset_within (hsend : Within R (redisClusterSendAll H))
    (hupdate : Within R (redisClusterUpdateSlotmap H)) : Within R (redisClusterReset H) := by
  have hneeded : Within R (updateIfNeeded H) := by
    refine within_bind within_get fun w => within_ite (within_bind hupdate fun s => ?_) (within_pure _)
    cases s with
    | err => exact within_pure _
    | ok => exact ContextClosed.modifyCc (counts_needUpdateRoute _)
  refine within_bind within_get fun w => ?_
  split
  · exact within_pure _
  · have hrest : Within R (do
        modifyCc fun cc => { cc with requests := none }
        updateIfNeeded H) :=
      within_bind (ContextClosed.modifyCc (counts_requests _)) fun _ => hneeded
    refine within_ite ?_ ?_
    · exact within_bind within_redisClusterClearAll fun _ => hrest
    · exact within_bind hsend fun _ => within_bind (within_drainReplies H _) fun _ => hrest

variable [CallClosed H R]

theorem within_sendAllFrom (ns : List NodeId) : Within R (sendAllFrom H ns) := by
  induction ns with
  | nil => exact within_pure _
  | cons n ns ih =>
    refine within_bind (CallClosed.ctxGetByNode n) fun c => ?_
    cases c with
    | none => exact ih
    | some c =>
      refine within_bind (ReadClosed.redisBufferWrite c) fun s => ?_
      cases s with
      | err => exact within_pure _
      | ok => exact ih

theorem within_redisClusterSendAll : Within R (redisClusterSendAll H) := by
  refine within_bind within_get fun w => ?_
  split
  · exact within_pure _
  · exact within_sendAllFrom H _

theorem within_redisClusterReset : Within R (redisClusterReset H) :=
  redisClusterReset_within H (within_redisClusterSendAll H) CallClosed.updateSlotmap

end Reads

/-! ## The command loop between two commands -/

section Loop

variable (H : Hiredis ω) {R : World ω → World ω → Prop}

theorem within_execAsking [TalkClosed R] (c : ConnId) (u : Option ConnId) :
    Within R (execAsking H c u) := by
  refine within_bind (within_redisCommand H c rfl) fun r => ?_
  cases r with
  | none => exact within_bind (within_copyError c) fun _ => within_pure _
  | some a => exact within_pure _

variable [LoopClosed R] [CallClosed H R]

theorem within_lookupNode (n : NodeId) : Within R (lookupNode H n) :=
  within_bind within_get fun _ =>
    within_bind (LoopClosed.looked _ _) fun _ => CallClosed.ctxGetByNode n

theorem within_connectOrFail (n : NodeId) (next : ConnId → Pc) (u : Option ConnId) :
    Within R (connectOrFail H n next u) := by
  refine within_bind (within_lookupNode H n) fun r => ?_
  cases r with
  | none => exact within_pure _
  | some c =>
    exact within_bind within_get fun w => within_ite
      (within_bind (within_copyError c) fun _ => within_pure _) (within_pure _)

theorem within_reconnectAfterUpdate (cmd : Cmd) (u : Option ConnId) :
    Within R (reconnectAfterUpdate H cmd u) := by
  refine within_bind (CallClosed.updateSlotmap (H := H)) fun r => ?_
  cases r with
  | err => exact within_pure _
  | ok =>
    refine within_bind (within_nodeGetByTable _) fun n => ?_
    cases n with
    | none => exact within_pure _
    | some n => exact within_connectOrFail H n _ u

theorem within_connectOrUpdate (cmd : Cmd) (n : NodeId) (u : Option ConnId) :
    Within R (connectOrUpdate H cmd n u) := by
  refine within_bind (within_lookupNode H n) fun r => ?_
  cases r with
  | none => exact within_reconnectAfterUpdate H cmd u
  | some c =>
    exact within_bind within_get fun w => within_ite (within_reconnectAfterUpdate H cmd u)
      (within_pure _)

theorem within_execRetry (cmd : Cmd) (u : Option ConnId) : Within R (execRetry H cmd u) := by
  refine within_bind (within_nodeGetByTable _) fun n => ?_
  cases n with
  | some n => exact within_connectOrUpdate H cmd n u
  | none =>
    refine within_bind (CallClosed.updateSlotmap (H := H)) fun r => ?_
    cases r with
    | err => exact within_pure _
    | ok =>
      refine within_bind (within_nodeGetByTable _) fun n => ?_
      cases n with
      | none => exact within_pure _
      | some n => exact within_connectOrUpdate H cmd n u

theorem within_execMoved (n : NodeId) (c : ConnId) (u : Option ConnId) :
    Within R (execMoved H n c u) := by
  unfold execMoved
  split
  · exact within_pure _
  · refine within_bind (within_clusterUpdateRouteSendCommand H c) fun s => ?_
    cases s with
    | ok => exact within_pure _
    | err =>
      refine within_bind (CallClosed.updateSlotmap (H := H)) fun r => ?_
      cases r with
      | ok => exact within_bind (TalkClosed.setError _ _) fun _ => within_pure _
      | err => exact within_pure _

theorem within_execDone (r : Option Answer) (u : Option ConnId) :
    Within R (execDone H r u) := by
  unfold execDone
  split
  · exact within_pure _
  · refine within_bind within_get fun w => within_bind (LoopClosed.deferred _ _) fun _ =>
      within_bind (CallClosed.handleReply _) fun s => ?_
    cases s with
    | ok => exact within_pure _
    | err =>
      refine within_bind (TalkClosed.setError _ _) fun _ =>
        within_bind (CallClosed.updateSlotmap (H := H)) fun s => ?_
      cases s with
      | ok => exact within_pure _
      | err => exact within_pure _

end Loop

section Calls

variable (H : Hiredis ω) {R : World ω → World ω → Prop} [EditClosed R]

/-! ## Over the connections at hand -/

theorem within_execRedirect (c : ConnId) (u : Option ConnId) (type : ErrorType) (str : Bytes) :
    Within R (execRedirect c u type str : Prog ω Exec) := by
  refine within_bind (EditClosed.modifyCc counts_redirect) fun _ =>
    within_bind within_get fun w =>
      within_ite (within_bind (TalkClosed.setError _ _) fun _ => within_pure _) ?_
  split
  · refine within_bind (EditClosed.handleMoved str) fun n => ?_
    cases n with
    | none => exact within_pure _
    | some n => exact within_pure _
  · refine within_bind (EditClosed.handleAsk str) fun n => ?_
    cases n with
    | none => exact within_pure _
    | some n => exact within_pure _
  · exact within_pure _

theorem within_execSend [CommandClosed R] (cmd : Cmd) (c : ConnId) (u : Option ConnId) :
    Within R (execSend H cmd c u) := by
  refine within_bind (within_redisAppendCommand H c _) fun s => ?_
  cases s with
  | err => exact within_bind (within_copyError c) fun _ => within_pure _
  | ok =>
    refine within_bind (within_pipelineUpdate H c u) fun u' =>
      within_bind (within_redisGetReply H c _) fun a => ?_
    cases a with
    | none =>
      exact within_bind (within_copyError c) fun _ => within_bind within_get fun w =>
        within_ite (within_pure _)
          (within_bind (EditClosed.modifyCc (counts_needUpdateRoute _)) fun _ => within_pure _)
    | some a =>
      show Within R (execReply c u' a)
      unfold execReply
      split
      · exact within_pure _
      · exact within_pure _
      · exact within_execRedirect c u' _ _

theorem within_commandToNodeUpdate (c : ConnId) : Within R (commandToNodeUpdate H c) := by
  refine within_bind within_get fun w => within_ite
    (within_bind (within_clusterUpdateRouteSendCommand H c) fun s => ?_)
    (within_pure _)
  cases s with
  | ok => exact within_pure _
  | err => exact within_pure _

theorem commandToNodeReply_within (hreply : ∀ c, Within R (clusterUpdateRouteHandleReply H c))
    (c : ConnId) (q : Sent) (b : Bool) : Within R (commandToNodeReply H c q b) := by
  refine within_bind (within_redisGetReply H c q) fun a => ?_
  cases a with
  | none =>
    exact within_bind (within_copyError c) fun _ => within_bind within_get fun w =>
      within_ite (within_pure _)
        (within_bind (EditClosed.modifyCc (counts_needUpdateRoute _)) fun _ => within_pure _)
  | some a =>
    refine within_ite (within_bind (hreply c) fun s => ?_) (within_pure _)
    cases s with
    | ok => exact within_pure _
    | err => exact within_bind (TalkClosed.setError _ _) fun _ => within_pure _

/-! ## Commands that are split -/

section Executing

variable (hexec : ∀ cmd, Within R (redisClusterCommandExecute H cmd))

include hexec

theorem executeFragments_within (frags : List Cmd) :
    ∀ done, Within R (executeFragments H done frags) := by
  induction frags with
  | nil => exact fun done => within_pure _
  | cons f fs ih =>
    intro done
    refine within_bind (hexec f) fun r => ?_
    cases r with
    | none => exact within_pure _
    | some a =>
      obtain ⟨sent, reply⟩ := a
      cases reply with
      | error s => exact within_pure _
      | _ => exact ih _

theorem executeFormatted_within (r : Request) : Within R (executeFormatted H r) := by
  unfold executeFormatted
  split
  · exact within_bind (hexec _) fun _ => within_pure _
  · refine within_bind (executeFragments_within H hexec _ _) fun x => ?_
    cases x with
    | failed => exact within_pure _
    | error r => exact within_pure _
    | replies rs => exact within_commandPostFragment _ _ rs

/-- A command is respected if its execution on one node is. -/
theorem redisClusterFormattedCommand_within (cmd : Bytes) :
    Within R (redisClusterFormattedCommand H cmd) := by
  refine within_bind within_resetError fun _ => within_bind within_commandGet fun id =>
    within_bind (within_commandFormatBySlot _) fun p => ?_
  refine within_ite (within_bind (EditClosed.modifyCc (counts_retryCount (Int.le_refl 0))) fun _ => within_pure _) (within_ite ?_ ?_)
  · exact within_bind (TalkClosed.setError _ _) fun _ =>
      within_bind (EditClosed.modifyCc (counts_retryCount (Int.le_refl 0))) fun _ => within_pure _
  · exact within_bind (executeFormatted_within H hexec _) fun _ =>
      within_bind (EditClosed.modifyCc (counts_retryCount (Int.le_refl 0))) fun _ => within_pure _

end Executing

section Appending

variable (happend : ∀ f, Within R (clusterAppendCommand H f))

include happend

theorem appendFragments_within (frags : List Cmd) : Within R (appendFragments H frags) := by
  induction frags with
  | nil => exact within_pure _
  | cons f fs ih =>
    refine within_bind (happend f) fun s => ?_
    cases s with
    | err => exact within_pure _
    | ok => exact ih

theorem redisClusterAppendFormattedCommand_within (cmd : Bytes) :
    Within R (redisClusterAppendFormattedCommand H cmd) := by
  refine within_bind (EditClosed.modifyCc (counts_requests _)) fun _ => within_bind within_commandGet fun id =>
    within_bind (within_commandFormatBySlot _) fun p => ?_
  refine within_ite (within_pure _) (within_ite
    (within_bind (TalkClosed.setError _ _) fun _ => within_pure _) (within_bind ?_ fun s => ?_))
  · unfold appendFormatted
    split
    · exact happend _
    · exact appendFragments_within H happend _
  · cases s with
    | err => exact within_pure _
    | ok => exact within_bind (EditClosed.modifyCc (counts_requests _)) fun _ => within_pure _

end Appending

variable [CallClosed H R]

/-! ## Blocking commands -/

theorem within_execStep [CommandClosed R] (cmd : Cmd) (e : Exec) :
    Within R (execStep H cmd e) := by
  unfold execStep
  split
  · exact within_execRetry H cmd _
  · exact within_execSend H cmd _ _
  · exact within_execMoved H _ _ _
  · exact within_connectOrFail H _ _ _
  · exact within_execAsking H _ _
  · exact within_execDone H _ _
  · exact within_pure _

theorem within_execAt [CommandClosed R] (cmd : Cmd) (w : World ω) (n : ℕ) :
    R w (execAt H cmd w n).2 := by
  unfold execAt
  induction n with
  | zero => exact Std.Refl.refl w
  | succ n ih =>
    rw [Function.iterate_succ_apply']
    exact IsTrans.trans _ _ _ ih (within_execStep H cmd _ _)

theorem within_redisClusterCommandExecute [CommandClosed R] (cmd : Cmd) :
    Within R (redisClusterCommandExecute H cmd) :=
  fun w => within_execAt H cmd w (execFuel w)

theorem within_redisClusterFormattedCommand [CommandClosed R] (cmd : Bytes) :
    Within R (redisClusterFormattedCommand H cmd) :=
  redisClusterFormattedCommand_within H (within_redisClusterCommandExecute H) cmd

theorem within_commandToNodeReply (c : ConnId) (q : Sent) (b : Bool) :
    Within R (commandToNodeReply H c q b) :=
  commandToNodeReply_within H (CallClosed.handleReply (H := H)) c q b

theorem within_redisClustervCommandToNode [CommandClosed R] (n : NodeId) (cmd : Bytes) :
    Within R (redisClustervCommandToNode H n cmd) := by
  refine within_bind (CallClosed.ctxGetByNode n) fun c => ?_
  cases c with
  | none => exact within_pure _
  | some c =>
    refine within_bind within_get fun w =>
      within_ite (within_bind (within_copyError c) fun _ => within_pure _) ?_
    refine within_bind within_resetError fun _ => within_bind within_commandGet fun id =>
      within_bind (within_redisAppendCommand H c _) fun s => ?_
    cases s with
    | err => exact within_bind (within_copyError c) fun _ => within_pure _
    | ok =>
      exact within_bind (within_commandToNodeUpdate H c) fun b =>
        within_bind (within_commandToNodeReply H c _ b) fun _ => within_pure _

/-! ## Pipelines -/

theorem within_clusterAppendCommand [CommandClosed R] (f : Cmd) :
    Within R (clusterAppendCommand H f) := by
  refine within_bind (within_nodeGetByTable _) fun n => ?_
  cases n with
  | none => exact within_pure _
  | some n =>
    refine within_bind (CallClosed.ctxGetByNode n) fun c => ?_
    cases c with
    | none => exact within_pure _
    | some c =>
      refine within_bind within_get fun w =>
        within_ite (within_bind (within_copyError c) fun _ => within_pure _) ?_
      refine within_bind (within_redisAppendCommand H c _) fun s => ?_
      cases s with
      | err => exact within_bind (within_copyError c) fun _ => within_pure _
      | ok => exact within_pure _

theorem within_redisClusterAppendFormattedCommand [CommandClosed R] (cmd : Bytes) :
    Within R (redisClusterAppendFormattedCommand H cmd) :=
  redisClusterAppendFormattedCommand_within H (within_clusterAppendCommand H) cmd

theorem within_redisClustervAppendCommandToNode [CommandClosed R] (n : NodeId) (cmd : Bytes) :
    Within R (redisClustervAppendCommandToNode H n cmd) := by
  refine within_bind (EditClosed.modifyCc (counts_requests _)) fun _ => within_bind (CallClosed.ctxGetByNode n) fun c => ?_
  cases c with
  | none => exact within_pure _
  | some c =>
    refine within_bind within_get fun w =>
      within_ite (within_bind (within_copyError c) fun _ => within_pure _) ?_
    refine within_bind within_commandGet fun id =>
      within_bind (within_redisAppendCommand H c _) fun s => ?_
    cases s with
    | err => exact within_bind (within_copyError c) fun _ => within_pure _
    | ok => exact within_bind (EditClosed.modifyCc (counts_requests _)) fun _ => within_pure _

end Calls
