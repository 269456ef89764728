/-
# The blocking command loop

`redis_cluster_command_execute` sends a single-slot command, follows redirects,
and takes along a topology query when one is due.  The function is a loop over
labels (`retry`, `moved_retry`/`ask_retry`, `done`), so it is embedded as a
machine: `Pc` is the place in the source, `execStep` runs the code from one
place to the next, and the function iterates it (`redisClusterCommandExecute`).

Embedded source (`hircluster.c`): `redis_cluster_command_execute`.
-/
import HiredisCluster.Connections
import HiredisCluster.Redirect
import HiredisCluster.Lib.Machine

open Program

variable {ω : Type}

/-! ## The loop -/

/-- The place in the source. -/
inductive Pc where
  /-- label `retry` -/
  | retry
  /-- labels `moved_retry` and `ask_retry`: the command is about to be written to `c` -/
  | send (c : ConnId)
  /-- a MOVED from `c` was accepted, its destination is `n` -/
  | moved (n : NodeId) (c : ConnId)
  /-- the connection of the destination `n` is about to be looked up -/
  | follow (n : NodeId) (ask : Bool)
  /-- ASKING is about to be sent to `c` -/
  | asking (c : ConnId)
  /-- label `done`, with `reply` being `NULL` when it was reached through `error` -/
  | done (reply : Option Answer)
  /-- the function has returned -/
  | ret (reply : Option Answer)

/-- The place and the local variable `c_updating_route`. -/
structure Exec where
  pc : Pc
  cUpdatingRoute : Option ConnId

/-- The first state of the function. -/
def execStart : Exec := ⟨.retry, none⟩

variable (H : Hiredis ω)

/-- `ctx_get_by_node`, as called by the loop. -/
def lookupNode (n : NodeId) : Prog ω (Option ConnId) := do
  let w ← get
  record (.lookup n (decide (w.Known n)))
  ctxGetByNode H n

/-- Get the connection of `n` and go on at `next`, or give up. -/
def connectOrFail (n : NodeId) (next : ConnId → Pc) (u : Option ConnId) : Prog ω Exec := do
  match ← lookupNode H n with
  | none => pure ⟨.done none, u⟩
  | some c => do
    let w ← get
    if (w.conns c).err.isSome then do
      copyError c
      pure ⟨.done none, u⟩
    else pure ⟨next c, u⟩

/-- After a failed connect: update the slot map and try the node serving the
slot then. -/
def reconnectAfterUpdate (cmd : Cmd) (u : Option ConnId) : Prog ω Exec := do
  match ← redisClusterUpdateSlotmap H with
  | .err => pure ⟨.done none, u⟩
  | .ok => do
    match ← nodeGetByTable (toUint32 cmd.slotNum) with
    | none => pure ⟨.done none, u⟩
    | some n => connectOrFail H n .send u

/-- The first attempt to connect to the node serving the slot. -/
def connectOrUpdate (cmd : Cmd) (n : NodeId) (u : Option ConnId) : Prog ω Exec := do
  match ← lookupNode H n with
  | none => reconnectAfterUpdate H cmd u
  | some c => do
    let w ← get
    if (w.conns c).err.isSome then reconnectAfterUpdate H cmd u
    else pure ⟨.send c, u⟩

/-- The code at label `retry`. -/
def execRetry (cmd : Cmd) (u : Option ConnId) : Prog ω Exec := do
  match ← nodeGetByTable (toUint32 cmd.slotNum) with
  | some n => connectOrUpdate H cmd n u
  | none => do
    match ← redisClusterUpdateSlotmap H with
    | .err => pure ⟨.done none, u⟩
    | .ok => do
      match ← nodeGetByTable (toUint32 cmd.slotNum) with
      | none => pure ⟨.done none, u⟩
      | some n => connectOrUpdate H cmd n u

/-- Send a scheduled topology query in the same pipeline. -/
def pipelineUpdate (c : ConnId) (u : Option ConnId) : Prog ω (Option ConnId) := do
  let w ← get
  if w.cc.needUpdateRoute = true ∧ u = none then do
    match ← clusterUpdateRouteSendCommand H c with
    | .ok => pure (some c)
    | .err => pure none
  else pure u

/-- A redirect or a transient error: count it, and treat it unless there were too
many. -/
def execRedirect (c : ConnId) (u : Option ConnId) (type : ErrorType) (str : Bytes) :
    Prog ω Exec := do
  modifyCc fun cc => { cc with retryCount := cc.retryCount + 1 }
  let w ← get
  if w.cc.maxRetryCount < w.cc.retryCount then do
    setError (some .tooManyRetries) (.lit "too many cluster retries")
    pure ⟨.done none, u⟩
  else
    match type with
    | .moved => do
      match ← handleMoved str with
      | none => pure ⟨.done none, u⟩
      | some n => pure ⟨.moved n c, u⟩
    | .ask => do
      match ← handleAsk str with
      | none => pure ⟨.done none, u⟩
      | some n => pure ⟨.follow n true, u⟩
    | _ => pure ⟨.retry, u⟩

/-- What happens with the reply to the command. -/
def execReply (c : ConnId) (u : Option ConnId) (a : Answer) : Prog ω Exec :=
  match clusterReplyErrorType a.reply with
  | .notErr => pure ⟨.done (some a), u⟩
  | .sentinel => pure ⟨.done (some a), u⟩
  | type => execRedirect c u type a.reply.text

/-- The failure to read the reply: an update is scheduled for later. -/
def execReadFailed (c : ConnId) (u : Option ConnId) : Prog ω Exec := do
  copyError c
  let w ← get
  if (w.conns c).err.map Fault.code = some .oom then pure ⟨.done none, u⟩
  else do
    modifyCc fun cc => { cc with needUpdateRoute := true }
    pure ⟨.done none, u⟩

/-- The code at label `ask_retry`. -/
def execSend (cmd : Cmd) (c : ConnId) (u : Option ConnId) : Prog ω Exec := do
  match ← redisAppendCommand H c (.command cmd.id cmd.cmd) with
  | .err => do
    copyError c
    pure ⟨.done none, u⟩
  | .ok => do
    let u' ← pipelineUpdate H c u
    match ← redisGetReply H c (.command cmd.id cmd.cmd) with
    | none => execReadFailed c u'
    | some a => execReply c u' a

/-- The update of the slot map after a MOVED: deferred, using the node that sent
the redirect, or else at once over a new connection. -/
def execMoved (n : NodeId) (c : ConnId) (u : Option ConnId) : Prog ω Exec :=
  match u with
  | some c' => pure ⟨.follow n false, some c'⟩
  | none => do
    match ← clusterUpdateRouteSendCommand H c with
    | .ok => pure ⟨.follow n false, some c⟩
    | .err => do
      match ← redisClusterUpdateSlotmap H with
      | .ok => do
        clearError
        pure ⟨.follow n false, none⟩
      | .err => pure ⟨.done none, none⟩

/-- Send ASKING and wait for its reply. -/
def execAsking (c : ConnId) (u : Option ConnId) : Prog ω Exec := do
  match ← redisCommand H c .asking with
  | none => do
    copyError c
    pure ⟨.done none, u⟩
  | some _ => pure ⟨.send c, u⟩

/-- The code at label `done`. -/
def execDone (r : Option Answer) (u : Option ConnId) : Prog ω Exec :=
  match u with
  | none => pure ⟨.ret r, none⟩
  | some c => do
    let w ← get
    record (.deferred c (decide (w.Held c)))
    match ← clusterUpdateRouteHandleReply H c with
    | .ok => pure ⟨.ret r, some c⟩
    | .err => do
      clearError
      match ← redisClusterUpdateSlotmap H with
      | .ok => pure ⟨.ret r, some c⟩
      | .err => pure ⟨.ret none, some c⟩

/-- The code from one place to the next. -/
def execStep (cmd : Cmd) (e : Exec) : Prog ω Exec :=
  match e.pc with
  | .retry => execRetry H cmd e.cUpdatingRoute
  | .send c => execSend H cmd c e.cUpdatingRoute
  | .moved n c => execMoved H n c e.cUpdatingRoute
  | .follow n ask =>
    connectOrFail H n (if ask then .asking else .send) e.cUpdatingRoute
  | .asking c => execAsking H c e.cUpdatingRoute
  | .done r => execDone H r e.cUpdatingRoute
  | .ret r => pure ⟨.ret r, e.cUpdatingRoute⟩

/-- The machine of the command loop. -/
def execNext (cmd : Cmd) (s : Exec × World ω) : Exec × World ω :=
  execStep H cmd s.1 s.2

/-- The state after `n` steps from the function's entry. -/
def execAt (cmd : Cmd) (w : World ω) (n : ℕ) : Exec × World ω :=
  (execNext H cmd)^[n] (execStart, w)

/-- Enough steps for a run from `w` to return; see `execAt_returned`. -/
def execFuel (w : World ω) : ℕ :=
  5 * (w.cc.maxRetryCount - w.cc.retryCount).toNat + 10

/-- The value returned. -/
def Exec.result (e : Exec) : Option Answer :=
  match e.pc with
  | .ret r => r
  | _ => none

/-- `redis_cluster_command_execute`. -/
def redisClusterCommandExecute (cmd : Cmd) : Prog ω (Option Answer) := fun w =>
  ((execAt H cmd w (execFuel w)).1.result, (execAt H cmd w (execFuel w)).2)

/-! ## Between the sends

Everything the loop does between sending commands advances and settles. -/

/-- A step that advances, and leaves no reply unread. -/
structure Proceeds (w w' : World ω) : Prop where
  advance : Advance w w'
  settles : Settles w w'

theorem Proceeds.trans {w w' w'' : World ω} (h : Proceeds w w') (h' : Proceeds w' w'') :
    Proceeds w w'' :=
  ⟨h.advance.trans h'.advance, h.settles.trans h'.settles⟩

theorem proceeds_lookupNode (n : NodeId) : Within Proceeds (lookupNode H n) := by
  intro w
  have hrec : Proceeds w (record (.lookup n (decide (w.Known n))) w).2 :=
    ⟨⟨le_rfl, fun _ _ => rfl, rfl, rfl, ⟨rfl, rfl⟩, rfl, rfl, le_rfl, fun h => ⟨h.lt, h.inj⟩, _, rfl⟩,
      settles_record (e := .lookup n (decide (w.Known n))) trivial w⟩
  exact hrec.trans ⟨(ctxGetByNode_links H n _).1.1.advance, settles_ctxGetByNode H n _⟩

theorem proceeds_nodeGetByTable (slot : ℕ) : Within Proceeds (nodeGetByTable slot : Prog ω _) :=
  fun w => ⟨(calmly (within_nodeGetByTable slot) w).advance, settles_nodeGetByTable slot w⟩

theorem proceeds_redisClusterUpdateSlotmap : Within Proceeds (redisClusterUpdateSlotmap H) :=
  fun w => ⟨(redisClusterUpdateSlotmap_updates H w).advance,
    settles_redisClusterUpdateSlotmap H w⟩

theorem proceeds_copyError (c : ConnId) : Within Proceeds (copyError c : Prog ω Unit) :=
  fun w => ⟨(calmly (within_copyError c) w).advance, settles_copyError c w⟩

theorem connectOrFail_next (n : NodeId) (next : ConnId → Pc) (u : Option ConnId) (w : World ω) :
    wp (connectOrFail H n next u) (fun e w' => Proceeds w w' ∧ e.cUpdatingRoute = u ∧
      (e.pc = .done none ∨ ∃ c, e.pc = next c)) w := by
  unfold connectOrFail
  rw [wp_bind]
  refine wp_mono ((proceeds_lookupNode H n).wp w) fun r w₁ h₁ => ?_
  cases r with
  | none => exact ⟨h₁, rfl, Or.inl rfl⟩
  | some c =>
    dsimp only
    rw [wp_bind, wp_get]
    split
    · exact ⟨h₁.trans (proceeds_copyError c w₁), rfl, Or.inl rfl⟩
    · exact ⟨h₁, rfl, Or.inr ⟨c, rfl⟩⟩

theorem reconnectAfterUpdate_next (cmd : Cmd) (u : Option ConnId) (w : World ω) :
    wp (reconnectAfterUpdate H cmd u) (fun e w' => Proceeds w w' ∧ e.cUpdatingRoute = u ∧
      (e.pc = .done none ∨ ∃ c, e.pc = .send c)) w := by
  unfold reconnectAfterUpdate
  rw [wp_bind]
  refine wp_mono ((proceeds_redisClusterUpdateSlotmap H).wp w) fun r w₁ h₁ => ?_
  cases r with
  | err => exact ⟨h₁, rfl, Or.inl rfl⟩
  | ok =>
    dsimp only
    rw [wp_bind]
    refine wp_mono ((proceeds_nodeGetByTable _).wp w₁) fun r w₂ hc => ?_
    have h₂ := h₁.trans hc
    cases r with
    | none => exact ⟨h₂, rfl, Or.inl rfl⟩
    | some n =>
      exact wp_mono (connectOrFail_next H n .send u w₂) fun e w₃ h₃ =>
        ⟨h₂.trans h₃.1, h₃.2⟩

theorem connectOrUpdate_next (cmd : Cmd) (n : NodeId) (u : Option ConnId) (w : World ω) :
    wp (connectOrUpdate H cmd n u) (fun e w' => Proceeds w w' ∧ e.cUpdatingRoute = u ∧
      (e.pc = .done none ∨ ∃ c, e.pc = .send c)) w := by
  unfold connectOrUpdate
  rw [wp_bind]
  refine wp_mono ((proceeds_lookupNode H n).wp w) fun r w₁ h₁ => ?_
  have hre := wp_mono (reconnectAfterUpdate_next H cmd u w₁) fun e w₂ h₂ =>
    (⟨h₁.trans h₂.1, h₂.2⟩ : Proceeds w w₂ ∧ e.cUpdatingRoute = u ∧
      (e.pc = .done none ∨ ∃ c, e.pc = .send c))
  cases r with
  | none => exact hre
  | some c =>
    dsimp only
    rw [wp_bind, wp_get]
    split
    · exact hre
    · exact ⟨h₁, rfl, Or.inr ⟨c, rfl⟩⟩

theorem execRetry_next (cmd : Cmd) (u : Option ConnId) (w : World ω) :
    wp (execRetry H cmd u) (fun e w' => Proceeds w w' ∧ e.cUpdatingRoute = u ∧
      (e.pc = .done none ∨ ∃ c, e.pc = .send c)) w := by
  unfold execRetry
  rw [wp_bind]
  refine wp_mono ((proceeds_nodeGetByTable _).wp w) fun r w₁ h₁ => ?_
  cases r with
  | some n =>
    exact wp_mono (connectOrUpdate_next H cmd n u w₁) fun e w₂ h₂ => ⟨h₁.trans h₂.1, h₂.2⟩
  | none =>
    dsimp only
    rw [wp_bind]
    refine wp_mono ((proceeds_redisClusterUpdateSlotmap H).wp w₁) fun r w₂ hu => ?_
    have h₂ := h₁.trans hu
    cases r with
    | err => exact ⟨h₂, rfl, Or.inl rfl⟩
    | ok =>
      dsimp only
      rw [wp_bind]
      refine wp_mono ((proceeds_nodeGetByTable _).wp w₂) fun r w₃ hc₃ => ?_
      have h₃ := h₂.trans hc₃
      cases r with
      | none => exact ⟨h₃, rfl, Or.inl rfl⟩
      | some n =>
        exact wp_mono (connectOrUpdate_next H cmd n u w₃) fun e w₄ h₄ => ⟨h₃.trans h₄.1, h₄.2⟩

/-! ## Sending a command -/

theorem within_pipelineUpdate {R : World ω → World ω → Prop} [TalkClosed R] (c : ConnId)
    (u : Option ConnId) : Within R (pipelineUpdate H c u) := by
  refine within_bind within_get fun w => within_ite ?_ (within_pure _)
  refine within_bind (within_clusterUpdateRouteSendCommand H c) fun r => ?_
  cases r with
  | ok => exact within_pure _
  | err => exact within_pure _

/-- The topology query goes along, or nothing happens, or the connection fails. -/
theorem pipelineUpdate_conns (c : ConnId) (u : Option ConnId) (w : World ω) :
    wp (pipelineUpdate H c u) (fun u' w' => OnlyAt c w w' ∧ Matches w w' ∧
      (u' = u ∧ w'.conns c = w.conns c ∨
        u = none ∧ u' = some c ∧ (w.conns c).err = none ∧ w'.conns c =
          { w.conns c with queue := (w.conns c).queue ++ [w.cc.topologyQuery] } ∨
        u = none ∧ u' = none ∧ (w'.conns c).err ≠ none)) w := by
  unfold pipelineUpdate
  rw [wp_bind, wp_get]
  split
  · rename_i hneed
    rw [wp_bind]
    refine wp_mono (clusterUpdateRouteSendCommand_conns H c w) fun r w₁ hr => ?_
    obtain ⟨honly, hm, hr⟩ := hr
    cases r with
    | ok => exact ⟨honly, hm, Or.inr (Or.inl ⟨hneed.2, rfl, hr.1, hr.2⟩)⟩
    | err => exact ⟨honly, hm, Or.inr (Or.inr ⟨hneed.2, rfl, hr⟩)⟩
  · exact ⟨OnlyAt.refl c w, Matches.refl w, Or.inl ⟨rfl, rfl⟩⟩

theorem settles_getNodeFromRedirectReply (str : Bytes) :
    Within Settles (getNodeFromRedirectReply str : Prog ω _) := by
  have hfail : ∀ e s (x : Option NodeId × ℤ), Within Settles (do setError e s; pure x : Prog ω _) :=
    fun e s x => within_bind (settles_modifyCc _) fun _ => within_pure _
  refine within_bind within_get fun w => ?_
  split
  · split
    · exact hfail _ _ _
    · refine within_ite (hfail _ _ _) ?_
      dsimp only
      split
      · exact within_pure _
      · refine within_bind (ParseClosed.newNode rfl) fun n => ?_
        split
        · exact hfail _ _ _
        · exact within_bind (settles_modifyCc _) fun _ => within_pure _
  · exact hfail _ _ _

theorem settles_storeSlot (slot : ℤ) (n : NodeId) :
    Within Settles (storeSlot slot n : Prog ω Unit) :=
  within_ite (within_pure _) (within_bind (settles_record trivial) fun _ =>
    within_ite (settles_modifyCc _) (within_pure _))

theorem settles_handleMoved (str : Bytes) : Within Settles (handleMoved str : Prog ω _) := by
  refine within_bind (settles_getNodeFromRedirectReply str) fun r => ?_
  split
  · exact within_pure _
  · exact within_bind (settles_storeSlot _ _) fun _ => within_pure _

theorem settles_handleAsk (str : Bytes) : Within Settles (handleAsk str : Prog ω _) :=
  within_bind (settles_getNodeFromRedirectReply str) fun _ => within_pure _

theorem settles_execRedirect (c : ConnId) (u : Option ConnId) (type : ErrorType) (str : Bytes) :
    Within Settles (execRedirect c u type str : Prog ω Exec) := by
  refine within_bind (settles_modifyCc _) fun _ => within_bind within_get fun w => ?_
  refine within_ite (within_bind (settles_modifyCc _) fun _ => within_pure _) ?_
  split
  · refine within_bind (settles_handleMoved str) fun r => ?_
    cases r with
    | none => exact within_pure _
    | some n => exact within_pure _
  · refine within_bind (settles_handleAsk str) fun r => ?_
    cases r with
    | none => exact within_pure _
    | some n => exact within_pure _
  · exact within_pure _

theorem settles_execReply (c : ConnId) (u : Option ConnId) (a : Answer) :
    Within Settles (execReply c u a : Prog ω Exec) := by
  unfold execReply
  split
  · exact within_pure _
  · exact within_pure _
  · exact settles_execRedirect _ _ _ _

theorem settles_execReadFailed (c : ConnId) (u : Option ConnId) :
    Within Settles (execReadFailed c u : Prog ω Exec) := by
  refine within_bind (settles_copyError c) fun _ => within_bind within_get fun w => ?_
  exact within_ite (within_pure _) (within_bind (settles_modifyCc _) fun _ => within_pure _)

/-! ## The loop returns -/

/-- The retries that are left. -/
def World.budget (w : World ω) : ℕ := (w.cc.maxRetryCount - w.cc.retryCount).toNat

/-- An upper bound for the steps to the function's return. -/
def Exec.rank (e : Exec) (w : World ω) : ℕ :=
  match e.pc with
  | .retry => 4 * w.budget + 3
  | .send _ => 4 * w.budget + 2
  | .moved _ _ => 4 * w.budget + 5
  | .follow _ _ => 4 * w.budget + 4
  | .asking _ => 4 * w.budget + 3
  | .done _ => 1
  | .ret _ => 0

theorem Advance.budget {w w' : World ω} (h : Advance w w') : w'.budget = w.budget := by
  have hr : w'.cc.settings.retryCount = w.cc.settings.retryCount := by rw [h.settings]
  have hm : w'.cc.settings.maxRetryCount = w.cc.settings.maxRetryCount := by rw [h.settings]
  change w'.cc.retryCount = w.cc.retryCount at hr
  change w'.cc.maxRetryCount = w.cc.maxRetryCount at hm
  rw [World.budget, World.budget, hr, hm]

/-- A redirect uses up one retry, or is the end. -/
theorem execRedirect_rank (c : ConnId) (u : Option ConnId) (type : ErrorType) (str : Bytes)
    (w : World ω) :
    wp (execRedirect c u type str) (fun e w' => e.rank w' < 4 * w.budget + 2) w := by
  unfold execRedirect
  rw [wp_bind, wp_modifyCc, wp_bind, wp_get]
  have hdone : 1 < 4 * w.budget + 2 := by omega
  split
  · exact hdone
  · rename_i hmax
    generalize hw₁ : ({ w with cc := { w.cc with retryCount := w.cc.retryCount + 1 } } :
      World ω) = w₁ at hmax ⊢
    have hlt : w₁.budget + 1 = w.budget := by
      have hcc : w₁.cc.retryCount = w.cc.retryCount + 1 ∧
          w₁.cc.maxRetryCount = w.cc.maxRetryCount := by
        rw [← hw₁]
        exact ⟨rfl, rfl⟩
      unfold World.budget
      omega
    split
    · rw [wp_bind]
      refine wp_mono ((advance_handleMoved str).wp w₁) fun r w₂ h => ?_
      cases r with
      | none => exact hdone
      | some n =>
        show 4 * w₂.budget + 5 < _
        rw [h.budget]
        omega
    · rw [wp_bind]
      refine wp_mono ((advance_handleAsk str).wp w₁) fun r w₂ h => ?_
      cases r with
      | none => exact hdone
      | some n =>
        show 4 * w₂.budget + 4 < _
        rw [h.budget]
        omega
    · show 4 * w₁.budget + 3 < _
      omega

theorem execReply_rank (c : ConnId) (u : Option ConnId) (a : Answer) (w : World ω) :
    wp (execReply c u a) (fun e w' => e.rank w' < 4 * w.budget + 2) w := by
  unfold execReply
  split
  · show 1 < _
    omega
  · show 1 < _
    omega
  · exact execRedirect_rank c u _ _ w

theorem execSend_rank (cmd : Cmd) (c : ConnId) (u : Option ConnId) (w : World ω) :
    wp (execSend H cmd c u) (fun e w' => e.rank w' < 4 * w.budget + 2) w := by
  have hdone : 1 < 4 * w.budget + 2 := by omega
  unfold execSend
  rw [wp_bind]
  refine wp_mono (calmly (within_redisAppendCommand H c _) w) fun r w₁ h₁ => ?_
  cases r with
  | err => exact hdone
  | ok =>
    dsimp only
    rw [wp_bind]
    refine wp_mono (calmly (within_pipelineUpdate H c u) w₁) fun u' w₂ h₂ => ?_
    rw [wp_bind]
    refine wp_mono (calmly (within_redisGetReply H c _) w₂) fun r w₃ h₃ => ?_
    rw [← ((h₁.trans h₂).trans h₃).advance.budget]
    cases r with
    | none =>
      unfold execReadFailed
      dsimp only
      rw [wp_bind]
      refine wp_mono (calmly (within_copyError c) w₃) fun _ w₄ _ => ?_
      rw [wp_bind, wp_get]
      split
      · show 1 < _
        omega
      · show 1 < _
        omega
    | some a => exact execReply_rank c u' a w₃

theorem execMoved_rank (n : NodeId) (c : ConnId) (u : Option ConnId) (w : World ω) :
    wp (execMoved H n c u) (fun e w' => e.rank w' < 4 * w.budget + 5) w := by
  unfold execMoved
  cases u with
  | some c' =>
    show 4 * w.budget + 4 < _
    omega
  | none =>
    dsimp only
    rw [wp_bind]
    refine wp_mono (calmly (within_clusterUpdateRouteSendCommand H c) w) fun r w₁ h₁ => ?_
    cases r with
    | ok =>
      show 4 * w₁.budget + 4 < _
      rw [h₁.advance.budget]
      omega
    | err =>
      dsimp only
      rw [wp_bind]
      refine wp_mono (redisClusterUpdateSlotmap_updates H w₁) fun r w₂ h₂ => ?_
      cases r with
      | ok =>
        show 4 * w₂.budget + 4 < _
        rw [h₂.advance.budget, h₁.advance.budget]
        omega
      | err =>
        show 1 < _
        omega

theorem execAsking_rank (c : ConnId) (u : Option ConnId) (w : World ω) :
    wp (execAsking H c u) (fun e w' => e.rank w' < 4 * w.budget + 3) w := by
  unfold execAsking
  rw [wp_bind]
  refine wp_mono (calmly (within_redisCommand H c rfl) w) fun r w₁ h₁ => ?_
  cases r with
  | none =>
    show 1 < _
    omega
  | some a =>
    show 4 * w₁.budget + 2 < _
    rw [h₁.advance.budget]
    omega

theorem execDone_returns (r : Option Answer) (u : Option ConnId) (w : World ω) :
    wp (execDone H r u) (fun e w' => Advance w w' ∧ (e.pc = .ret r ∨ e.pc = .ret none)) w := by
  unfold execDone
  cases u with
  | none => exact ⟨Advance.refl w, Or.inl rfl⟩
  | some c =>
    dsimp only
    rw [wp_bind, wp_get, wp_bind, wp_record, wp_bind]
    have h₀ : Advance w { w with trace := w.trace ++ [.deferred c (decide (w.Held c))] } :=
      ⟨le_rfl, fun _ _ => rfl, rfl, rfl, ⟨rfl, rfl⟩, rfl, rfl, le_rfl, fun h => ⟨h.lt, h.inj⟩, _, rfl⟩
    refine wp_mono (clusterUpdateRouteHandleReply_updates H c _) fun s w₁ h₁ => ?_
    have h₁' := h₀.trans h₁.advance
    cases s with
    | ok => exact ⟨h₁', Or.inl rfl⟩
    | err =>
      dsimp only
      rw [wp_bind]
      refine wp_mono ((calm_setError none (.lit "")).wp w₁) fun _ w₂ h₂ => ?_
      rw [wp_bind]
      refine wp_mono (redisClusterUpdateSlotmap_updates H w₂) fun s w₃ h₃ => ?_
      have h₃' := (h₁'.trans h₂.advance).trans h₃.advance
      cases s with
      | ok => exact ⟨h₃', Or.inl rfl⟩
      | err => exact ⟨h₃', Or.inr rfl⟩

/-- **Every step that does not return brings the return closer.** -/
theorem execStep_rank (cmd : Cmd) (e : Exec) (w : World ω) :
    (∃ r, e.pc = .ret r) ∨ wp (execStep H cmd e) (fun e' w' => e'.rank w' < e.rank w) w := by
  obtain ⟨pc, u⟩ := e
  cases pc with
  | ret r => exact Or.inl ⟨r, rfl⟩
  | retry =>
    refine Or.inr (wp_mono (execRetry_next H cmd u w) fun e w' h => ?_)
    obtain ⟨hp, -, hpc | ⟨c, hpc⟩⟩ := h
    · simp only [Exec.rank, hpc]
      omega
    · simp only [Exec.rank, hpc, hp.advance.budget]
      omega
  | send c => exact Or.inr (execSend_rank H cmd c u w)
  | moved n c => exact Or.inr (execMoved_rank H n c u w)
  | follow n ask =>
    refine Or.inr (wp_mono (connectOrFail_next H n _ u w) fun e w' h => ?_)
    obtain ⟨hp, -, hpc | ⟨c, hpc⟩⟩ := h
    · simp only [Exec.rank, hpc]
      omega
    · cases ask with
      | true =>
        simp only [if_true] at hpc
        simp only [Exec.rank, hpc, hp.advance.budget]
        omega
      | false =>
        simp only [Bool.false_eq_true, if_false] at hpc
        simp only [Exec.rank, hpc, hp.advance.budget]
        omega
  | asking c => exact Or.inr (execAsking_rank H c u w)
  | done r =>
    refine Or.inr (wp_mono (execDone_returns H r u w) fun e w' h => ?_)
    rcases h.2 with h | h
    · simp only [Exec.rank, h]
      omega
    · simp only [Exec.rank, h]
      omega

/-- The function has returned. -/
def Returned (s : Exec × World ω) : Prop := ∃ r, s.1.pc = .ret r

instance (s : Exec × World ω) : Decidable (Returned s) :=
  match h : s.1.pc with
  | .ret r => .isTrue ⟨r, h⟩
  | .retry => .isFalse (by rintro ⟨r, hr⟩; rw [h] at hr; cases hr)
  | .send _ => .isFalse (by rintro ⟨r, hr⟩; rw [h] at hr; cases hr)
  | .moved _ _ => .isFalse (by rintro ⟨r, hr⟩; rw [h] at hr; cases hr)
  | .follow _ _ => .isFalse (by rintro ⟨r, hr⟩; rw [h] at hr; cases hr)
  | .asking _ => .isFalse (by rintro ⟨r, hr⟩; rw [h] at hr; cases hr)
  | .done _ => .isFalse (by rintro ⟨r, hr⟩; rw [h] at hr; cases hr)

theorem execNext_returned (cmd : Cmd) (s : Exec × World ω) (h : Returned s) :
    execNext H cmd s = s := by
  obtain ⟨⟨pc, u⟩, w⟩ := s
  obtain ⟨r, hr⟩ := h
  dsimp only at hr
  subst hr
  rfl

/-- **The command loop returns**, after at most `execFuel` steps. -/
theorem execAt_returned (cmd : Cmd) (w : World ω) :
    Returned (execAt H cmd w (execFuel w)) := by
  refine Machine.halted_of_measure (I := fun _ => True) (μ := fun s => s.1.rank s.2)
    (execNext_returned H cmd) (fun _ _ => trivial) (fun s _ => ?_) _ _ trivial ?_
  · exact (execStep_rank H cmd s.1 s.2).imp id fun h => h
  · show 4 * w.budget + 3 ≤ 5 * w.budget + 10
    omega

/-- What holds up to the return holds all along. -/
theorem execAt_forall {P : Exec × World ω → Prop} {cmd : Cmd} {w : World ω} (m : ℕ)
    (hret : Returned (execAt H cmd w m)) (h : ∀ k < m + 1, P (execAt H cmd w k)) (k : ℕ) :
    P (execAt H cmd w k) := by
  rcases Nat.lt_or_ge k (m + 1) with hk | hk
  · exact h k hk
  · obtain ⟨j, rfl⟩ := Nat.exists_eq_add_of_lt hk
    have heq : execAt H cmd w (m + j + 1) = execAt H cmd w m := by
      unfold execAt
      rw [show m + j + 1 = (j + 1) + m by omega, Function.iterate_add_apply]
      exact Machine.iterate_halted (execNext_returned H cmd) hret (j + 1)
    rw [heq]
    exact h m (Nat.lt_succ_self m)
