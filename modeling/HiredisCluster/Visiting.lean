/-
# Calls that reach known nodes only

All calls and callbacks reach nodes that they have just looked up: in the slot table, in `cc->nodes`,
for a redirect, or given by the user.  Such a node is known.  There is one exception: while a MOVED
is followed, an update of the slot map may replace the node set before the node is reached.

So an invariant is kept by all of them if reaching a node that may be visited keeps it, and
submissions, bookkeeping and updates of the slot map do.
-/
import HiredisCluster.Client
import HiredisCluster.Preference
import HiredisCluster.Updating

open Program

variable {ω : Type}

/-- Invariants that are kept by what calls and callbacks are made of.  `J (some n)` says besides
that node `n` may be visited. -/
class VisitClosed (H : Hiredis ω) (J : Option NodeId → World ω → Prop) : Prop where
  ordered : ∀ {w}, J none w → Ordered w
  visit : ∀ {w n}, J none w → w.Known n → J (some n) w
  leave : ∀ {v w}, J v w → J none w
  ctxGetByNode : ∀ {w n}, J (some n) w → wp (ctxGetByNode H n) (fun _ w' => J none w') w
  actxGetByNode : ∀ {w n}, J none w → w.Known n → wp (actxGetByNode H n) (fun _ w' => J none w') w
  replaced : ∀ (b : Bool) (host : Bytes) (r : Reply) {v w}, J v w →
    wp (parseTopology b host r) (fun nodes w₁ => J v w₁ ∧
      ∀ d, nodes = some d → wp (installNodes d) (fun _ w' => J v w') w₁) w
  modifyAcc : ∀ f : AsyncContext → AsyncContext, Keeps (J none) (modifyAcc f)
  modifyCad : ∀ (k : ℕ) (f : AsyncData → AsyncData), Keeps (J none) (modifyCad k f)
  newCad : ∀ cad : AsyncData, Keeps (J none) (newCad cad)
  submit : ∀ (a : AConnId) (cb : ACallback) (q : Sent), Keeps (J none) (redisAsyncCommand H a cb q)
  shutdown : ∀ b : Bool, Keeps (J none) (modifyCc fun cc => { cc with shutdown := b })
  disconnectNode : ∀ n : NodeId, Keeps (J none) (disconnectNode n)
  free : Keeps (J none) (redisClusterFree : Prog ω Unit)

instance (H : Hiredis ω) {J : Option NodeId → World ω → Prop} [VisitClosed H J] :
    NoteClosed H (Keeping (J none)) where
  modifyAcc _ := VisitClosed.modifyAcc (H := H) _
  modifyCad := VisitClosed.modifyCad (H := H)
  newCad := VisitClosed.newCad (H := H)
  send a _ q _ := VisitClosed.submit a _ q
  shutdown := VisitClosed.shutdown (H := H)
  disconnectNode := VisitClosed.disconnectNode (H := H)

/-! ## Selecting a node -/

/-- The loop selects a node it has looked at. -/
theorem selectFrom_mem (w : World ω) (limit : ℤ) (c : ℕ) (ns : List NodeId) :
    ∀ (i : ℕ) {selected : Option NodeId} {n : NodeId},
      selectFrom w limit c i selected ns = some n → selected = some n ∨ n ∈ ns := by
  induction ns with
  | nil => exact fun _ _ _ h => Or.inl h
  | cons m ns ih =>
    intro i selected n h
    have hcandidate : ∀ {x}, candidate w limit c i selected m = some x →
        selected = some x ∨ x = m := by
      intro x hx
      unfold candidate at hx
      cases selected with
      | none => exact Or.inr (by grind)
      | some y => grind
    have hfirst : candidate w limit c i selected m = some n → selected = some n ∨ n ∈ m :: ns :=
      fun hx => (hcandidate hx).imp_right fun heq => by rw [heq]; exact List.mem_cons_self
    rw [selectFrom_cons] at h
    split at h
    · exact hfirst h
    · rcases ih (i + 1) h with hx | hmem
      · exact hfirst hx
      · exact Or.inr (List.mem_cons_of_mem _ hmem)

/-! ## Nodes that are looked up -/

section Lookups

variable {I : World ω → Prop} [LibClosed (Keeping I)]

/-- A MOVED names a node that is known from then on. -/
theorem visits_handleMoved {w : World ω} (h : I w) (str : Bytes) :
    wp (handleMoved str) (fun r w' => I w' ∧ ∀ n, r = some n → w'.Known n) w := by
  have ht : wp (handleMoved str) (fun _ w' => I w') w :=
    EditClosed.handleMoved (R := Keeping (I)) str w h
  refine wp_mono (wp_and ht (handleMoved_spec str w)) fun r w' h' => ?_
  obtain ⟨ht, hm⟩ := h'
  refine ⟨ht, fun n hn => ?_⟩
  subst hn
  split at hm
  · cases hm.1
  · obtain ⟨m, d', w₁, hr, -, hd', hfind, rfl⟩ := hm
    obtain rfl := Option.some.inj hr
    have hk : w₁.Known n := (World.known_iff hd').mpr ⟨_, (d'.find_eq_some_iff _ _).mp hfind⟩
    obtain ⟨t, hcc, -⟩ := (storeSlot_pointed (hiAtoi _) n w₁).cc
    rw [World.Known, World.nodeList, hcc]
    exact hk

theorem visits_handleAsk {w : World ω} (h : I w) (str : Bytes) :
    wp (handleAsk str) (fun r w' => I w' ∧ ∀ n, r = some n → w'.Known n) w := by
  have ht : wp (handleAsk str) (fun _ w' => I w') w :=
    EditClosed.handleAsk (R := Keeping (I)) str w h
  refine wp_mono (wp_and ht (handleAsk_spec str w)) fun r w' h' => ?_
  obtain ⟨ht, ha⟩ := h'
  refine ⟨ht, fun n hn => ?_⟩
  subst hn
  split at ha
  · cases ha.1
  · obtain ⟨m, d', hr, -, hd', hfind⟩ := ha
    obtain rfl := Option.some.inj hr
    exact (World.known_iff hd').mpr ⟨_, (d'.find_eq_some_iff _ _).mp hfind⟩

/-- Commands go to nodes of the table, which are known. -/
theorem visits_nodeGetByTable {w : World ω} (h : I w) (ho : Ordered w) (slot : ℕ) :
    wp (nodeGetByTable slot) (fun r w' => I w' ∧ ∀ n, r = some n → w'.Known n) w := by
  have herror : ∀ type str, I (setError type str w).2 := fun type str =>
    TalkClosed.setError (R := Keeping (I)) type str w h
  unfold nodeGetByTable
  rw [wp_bind, wp_get]
  split
  · exact ⟨herror _ _, fun n hn => by cases hn⟩
  · split
    · exact ⟨herror _ _, fun n hn => by cases hn⟩
    · rename_i table htable
      split
      · exact ⟨herror _ _, fun n hn => by cases hn⟩
      · rename_i n hn
        refine ⟨h, fun m hm => ?_⟩
        obtain rfl := Option.some.inj hm
        exact ho.routed.known htable hn

end Lookups

section Visiting

variable (H : Hiredis ω) {J : Option NodeId → World ω → Prop} [∀ v, LibClosed (Keeping (J v))]
  [VisitClosed H J]

include H

theorem visits_tableNode {w : World ω} (h : J none w) (slot : ℕ) :
    wp (nodeGetByTable slot) (fun r w' => J none w' ∧ ∀ n, r = some n → w'.Known n) w :=
  visits_nodeGetByTable h (VisitClosed.ordered H h) slot

/-! ## Updates of the slot map -/

theorem visits_updateNodesAndSlotmap (v : Option NodeId) (b : Bool) (host : Bytes) (r : Reply) :
    Keeps (J v) (do
      let nodes ← parseTopology b host r
      updateNodesAndSlotmap nodes : Prog ω Status) := by
  intro w h
  show wp _ (fun _ w' => J v w') w
  rw [wp_bind]
  refine wp_mono (VisitClosed.replaced H b host r h) fun nodes w₁ h₁ => ?_
  cases nodes with
  | none => exact h₁.1
  | some d =>
    unfold updateNodesAndSlotmap
    dsimp only
    rw [wp_bind]
    refine wp_mono (h₁.2 d rfl) fun s w₂ h₂ => ?_
    cases s with
    | err => exact h₂
    | ok =>
      have hannounced : Keeps (J v) (announceSlotmap : Prog ω Unit) :=
        within_bind TalkClosed.userHook fun _ => EditClosed.modifyCc (counts_needUpdateRoute _)
      exact hannounced w₂ h₂

theorem visits_handleReply (v : Option NodeId) (c : ConnId) :
    Keeps (J v) (clusterUpdateRouteHandleReply H c) :=
  within_handleReply H (within_redisGetReply H) (fun type => TalkClosed.setError (some type))
    (fun host elems => visits_updateNodesAndSlotmap H v true host (.array elems))
    (fun host str => visits_updateNodesAndSlotmap H v false host (.string str)) c

theorem visits_updateSlotmap (v : Option NodeId) : Keeps (J v) (redisClusterUpdateSlotmap H) :=
  within_redisClusterUpdateSlotmap H (visits_handleReply H v)

/-! ## The command loop -/

/-- What the loop is about to reach may be visited. -/
def Visiting (J : Option NodeId → World ω → Prop) (e : Exec) (w : World ω) : Prop :=
  match e.pc with
  | .moved n _ => J (some n) w
  | .follow n _ => J (some n) w
  | _ => J none w

theorem visits_lookupNode {w : World ω} {n : NodeId} (h : J (some n) w) :
    wp (lookupNode H n) (fun _ w' => J none w') w := by
  unfold lookupNode
  rw [wp_bind, wp_get, wp_bind]
  have hlooked : Keeps (J (some n)) (record (.lookup n (decide (w.Known n))) : Prog ω Unit) :=
    LoopClosed.looked n _
  exact wp_mono (hlooked.wp h) fun _ _ h₁ => VisitClosed.ctxGetByNode h₁

theorem visits_connectOrFail {w : World ω} {n : NodeId} (h : J (some n) w) {next : ConnId → Pc}
    (hnext : ∀ c u w', J none w' → Visiting J ⟨next c, u⟩ w') (u : Option ConnId) :
    wp (connectOrFail H n next u) (Visiting J) w := by
  unfold connectOrFail
  rw [wp_bind]
  refine wp_mono (visits_lookupNode H h) fun r w₁ h₁ => ?_
  cases r with
  | none => exact h₁
  | some c =>
    dsimp only
    rw [wp_bind, wp_get]
    split
    · rw [wp_bind]
      exact within_copyError (R := Keeping (J none)) c w₁ h₁
    · exact hnext c u w₁ h₁

theorem visits_reconnectAfterUpdate {w : World ω} (h : J none w) (cmd : Cmd) (u : Option ConnId) :
    wp (reconnectAfterUpdate H cmd u) (Visiting J) w := by
  unfold reconnectAfterUpdate
  rw [wp_bind]
  refine wp_mono ((visits_updateSlotmap H none).wp h) fun s w₁ h₁ => ?_
  cases s with
  | err => exact h₁
  | ok =>
    dsimp only
    rw [wp_bind]
    refine wp_mono (visits_tableNode H h₁ _) fun n w₂ h₂ => ?_
    cases n with
    | none => exact h₂.1
    | some n =>
      exact visits_connectOrFail H (VisitClosed.visit H h₂.1 (h₂.2 n rfl))
        (fun c u w' h' => show Visiting J ⟨.send c, u⟩ w' from h') u

theorem visits_connectOrUpdate {w : World ω} {n : NodeId} (h : J (some n) w) (cmd : Cmd)
    (u : Option ConnId) : wp (connectOrUpdate H cmd n u) (Visiting J) w := by
  unfold connectOrUpdate
  rw [wp_bind]
  refine wp_mono (visits_lookupNode H h) fun r w₁ h₁ => ?_
  cases r with
  | none => exact visits_reconnectAfterUpdate H h₁ cmd u
  | some c =>
    dsimp only
    rw [wp_bind, wp_get]
    split
    · exact visits_reconnectAfterUpdate H h₁ cmd u
    · exact h₁

theorem visits_execRetry {w : World ω} (h : J none w) (cmd : Cmd) (u : Option ConnId) :
    wp (execRetry H cmd u) (Visiting J) w := by
  unfold execRetry
  rw [wp_bind]
  refine wp_mono (visits_tableNode H h _) fun n w₁ h₁ => ?_
  cases n with
  | some n => exact visits_connectOrUpdate H (VisitClosed.visit H h₁.1 (h₁.2 n rfl)) cmd u
  | none =>
    dsimp only
    rw [wp_bind]
    refine wp_mono ((visits_updateSlotmap H none).wp h₁.1) fun s w₂ h₂ => ?_
    cases s with
    | err => exact h₂
    | ok =>
      dsimp only
      rw [wp_bind]
      refine wp_mono (visits_tableNode H h₂ _) fun n w₃ h₃ => ?_
      cases n with
      | none => exact h₃.1
      | some n => exact visits_connectOrUpdate H (VisitClosed.visit H h₃.1 (h₃.2 n rfl)) cmd u

theorem visits_execRedirect {w : World ω} (h : J none w) (c : ConnId) (u : Option ConnId)
    (type : ErrorType) (str : Bytes) : wp (execRedirect c u type str) (Visiting J) w := by
  have hcounted : Keeps (J none)
      (modifyCc fun cc => { cc with retryCount := cc.retryCount + 1 } : Prog ω Unit) :=
    EditClosed.modifyCc counts_redirect
  unfold execRedirect
  rw [wp_bind]
  refine wp_mono (hcounted.wp h) fun _ w₁ h₁ => ?_
  rw [wp_bind, wp_get]
  split
  · rw [wp_bind]
    exact TalkClosed.setError (R := Keeping (J none)) _ _ w₁ h₁
  · split
    · rw [wp_bind]
      refine wp_mono (visits_handleMoved h₁ str) fun n w₂ h₂ => ?_
      cases n with
      | none => exact h₂.1
      | some n => exact VisitClosed.visit H h₂.1 (h₂.2 n rfl)
    · rw [wp_bind]
      refine wp_mono (visits_handleAsk h₁ str) fun n w₂ h₂ => ?_
      cases n with
      | none => exact h₂.1
      | some n => exact VisitClosed.visit H h₂.1 (h₂.2 n rfl)
    · exact h₁

/-- The node of a MOVED may still be visited, whether it has been replaced or not. -/
theorem visits_execMoved {w : World ω} {n : NodeId} (h : J (some n) w) (c : ConnId)
    (u : Option ConnId) : wp (execMoved H n c u) (Visiting J) w := by
  unfold execMoved
  split
  · exact h
  · rw [wp_bind]
    refine wp_mono (Keeps.wp (I := J (some n)) (within_clusterUpdateRouteSendCommand H c) h)
      fun s w₁ h₁ => ?_
    cases s with
    | ok => exact h₁
    | err =>
      dsimp only
      rw [wp_bind]
      refine wp_mono ((visits_updateSlotmap H (some n)).wp h₁) fun s w₂ h₂ => ?_
      cases s with
      | ok =>
        dsimp only
        rw [wp_bind]
        exact TalkClosed.setError (R := Keeping (J (some n))) _ _ w₂ h₂
      | err => exact VisitClosed.leave H h₂

omit [VisitClosed H J] in
theorem visits_execAsking {w : World ω} (h : J none w) (c : ConnId) (u : Option ConnId) :
    wp (execAsking H c u) (Visiting J) w := by
  unfold execAsking
  rw [wp_bind]
  refine wp_mono (Keeps.wp (I := J none) (within_redisCommand H c rfl) h) fun r w₁ h₁ => ?_
  cases r with
  | none =>
    dsimp only
    rw [wp_bind]
    exact within_copyError (R := Keeping (J none)) c w₁ h₁
  | some a => exact h₁

theorem visits_execDone {w : World ω} (h : J none w) (r : Option Answer) (u : Option ConnId) :
    wp (execDone H r u) (Visiting J) w := by
  unfold execDone
  split
  · exact h
  · rw [wp_bind, wp_get, wp_bind]
    refine wp_mono (Keeps.wp (I := J none) (LoopClosed.deferred _ _) h) fun _ w₁ h₁ => ?_
    rw [wp_bind]
    refine wp_mono ((visits_handleReply H none _).wp h₁) fun s w₂ h₂ => ?_
    cases s with
    | ok => exact h₂
    | err =>
      dsimp only
      rw [wp_bind]
      refine wp_mono (Keeps.wp (I := J none) (TalkClosed.setError _ _) h₂) fun _ w₃ h₃ => ?_
      rw [wp_bind]
      refine wp_mono ((visits_updateSlotmap H none).wp h₃) fun s w₄ h₄ => ?_
      cases s with
      | ok => exact h₄
      | err => exact h₄

omit [∀ v, LibClosed (Keeping (J v))] in
theorem Visiting.leave {e : Exec} {w : World ω} (h : Visiting J e w) : J none w := by
  obtain ⟨pc, u⟩ := e
  cases pc with
  | moved n c => exact VisitClosed.leave H h
  | follow n ask => exact VisitClosed.leave H h
  | _ => exact h

section Sending

variable [∀ v, CommandClosed (Keeping (J v))]

theorem visits_execSend {w : World ω} (h : J none w) (cmd : Cmd) (c : ConnId) (u : Option ConnId) :
    wp (execSend H cmd c u) (Visiting J) w := by
  unfold execSend
  rw [wp_bind]
  refine wp_mono (Keeps.wp (I := J none) (within_redisAppendCommand H c _) h) fun s w₁ h₁ => ?_
  cases s with
  | err =>
    dsimp only
    rw [wp_bind]
    exact within_copyError (R := Keeping (J none)) c w₁ h₁
  | ok =>
    dsimp only
    rw [wp_bind]
    refine wp_mono (Keeps.wp (I := J none) (within_pipelineUpdate H c u) h₁) fun u' w₂ h₂ => ?_
    rw [wp_bind]
    refine wp_mono (Keeps.wp (I := J none) (within_redisGetReply H c _) h₂) fun a w₃ h₃ => ?_
    cases a with
    | none =>
      dsimp only
      unfold execReadFailed
      rw [wp_bind]
      refine wp_mono (Keeps.wp (I := J none) (within_copyError c) h₃) fun _ w₄ h₄ => ?_
      rw [wp_bind, wp_get]
      split
      · exact h₄
      · rw [wp_bind]
        have hscheduled : Keeps (J none)
            (modifyCc fun cc => { cc with needUpdateRoute := true } : Prog ω Unit) :=
          EditClosed.modifyCc (counts_needUpdateRoute _)
        exact hscheduled w₄ h₄
    | some a =>
      dsimp only
      unfold execReply
      split
      · exact h₃
      · exact h₃
      · exact visits_execRedirect H h₃ c u' _ _

theorem visits_execStep {w : World ω} {e : Exec} (h : Visiting J e w) (cmd : Cmd) :
    wp (execStep H cmd e) (Visiting J) w := by
  obtain ⟨pc, u⟩ := e
  cases pc with
  | retry => exact visits_execRetry H h cmd u
  | send c => exact visits_execSend H h cmd c u
  | moved n c => exact visits_execMoved H h c u
  | follow n ask =>
    refine visits_connectOrFail H h (fun c u w' h' => ?_) u
    cases ask with
    | true => exact h'
    | false => exact h'
  | asking c => exact visits_execAsking H h c u
  | done r => exact visits_execDone H h r u
  | ret r => exact h

theorem visits_redisClusterCommandExecute (cmd : Cmd) :
    Keeps (J none) (redisClusterCommandExecute H cmd) := by
  intro w h
  have hat : ∀ k, Visiting J (execAt H cmd w k).1 (execAt H cmd w k).2 := by
    intro k
    induction k with
    | zero => exact h
    | succ k ih =>
      unfold execAt
      rw [Function.iterate_succ_apply']
      exact visits_execStep H ih cmd
  exact Visiting.leave H (hat (execFuel w))

/-! ## Blocking calls -/

theorem visits_redisClustervCommandToNode {w : World ω} (h : J none w) {n : NodeId}
    (hn : w.Known n) (cmd : Bytes) : J none (redisClustervCommandToNode H n cmd w).2 := by
  show wp _ (fun _ w' => J none w') w
  unfold redisClustervCommandToNode
  rw [wp_bind]
  refine wp_mono (VisitClosed.ctxGetByNode (VisitClosed.visit H h hn)) fun r w₁ h₁ => ?_
  cases r with
  | none => exact h₁
  | some c =>
    refine within_bind (R := Keeping (J none)) within_get (fun w => ?_) w₁ h₁
    refine within_ite (within_bind (within_copyError c) fun _ => within_pure _) ?_
    refine within_bind within_resetError fun _ => within_bind within_commandGet fun id =>
      within_bind (within_redisAppendCommand H c _) fun s => ?_
    cases s with
    | err => exact within_bind (within_copyError c) fun _ => within_pure _
    | ok =>
      exact within_bind (within_commandToNodeUpdate H c) fun b =>
        within_bind (commandToNodeReply_within H (visits_handleReply H none) c _ b) fun _ =>
          within_pure _

theorem visits_clusterAppendCommand (f : Cmd) : Keeps (J none) (clusterAppendCommand H f) := by
  intro w h
  show wp _ (fun _ w' => J none w') w
  unfold clusterAppendCommand
  rw [wp_bind]
  refine wp_mono (visits_tableNode H h _) fun n w₁ h₁ => ?_
  cases n with
  | none => exact h₁.1
  | some n =>
    dsimp only
    rw [wp_bind]
    refine wp_mono (VisitClosed.ctxGetByNode (VisitClosed.visit H h₁.1 (h₁.2 n rfl))) fun r w₂ h₂ => ?_
    cases r with
    | none => exact h₂
    | some c =>
      refine within_bind (R := Keeping (J none)) within_get (fun w => ?_) w₂ h₂
      refine within_ite (within_bind (within_copyError c) fun _ => within_pure _) ?_
      refine within_bind (within_redisAppendCommand H c _) fun s => ?_
      cases s with
      | err => exact within_bind (within_copyError c) fun _ => within_pure _
      | ok => exact within_pure _

theorem visits_redisClustervAppendCommandToNode {w : World ω} (h : J none w) {n : NodeId}
    (hn : w.Known n) (cmd : Bytes) : J none (redisClustervAppendCommandToNode H n cmd w).2 := by
  have hrequests : J none (ensureRequests w).2 :=
    EditClosed.modifyCc (R := Keeping (J none)) (counts_requests _) w h
  have hknown : (ensureRequests w).2.Known n := hn
  show wp _ (fun _ w' => J none w') w
  unfold redisClustervAppendCommandToNode
  rw [wp_bind]
  refine wp_mono (show wp ensureRequests (fun _ w' => J none w' ∧ w'.Known n) w from
    ⟨hrequests, hknown⟩) fun _ w₁ h₁ => ?_
  rw [wp_bind]
  refine wp_mono (VisitClosed.ctxGetByNode (VisitClosed.visit H h₁.1 h₁.2)) fun r w₂ h₂ => ?_
  cases r with
  | none => exact h₂
  | some c =>
    refine within_bind (R := Keeping (J none)) within_get (fun w => ?_) w₂ h₂
    refine within_ite (within_bind (within_copyError c) fun _ => within_pure _) ?_
    refine within_bind within_commandGet fun id =>
      within_bind (within_redisAppendCommand H c _) fun s => ?_
    cases s with
    | err => exact within_bind (within_copyError c) fun _ => within_pure _
    | ok => exact within_bind (EditClosed.modifyCc (counts_requests _)) fun _ => within_pure _

end Sending

/-- Nothing that is flushed changes the node set. -/
theorem visits_sendAllFrom (ns : List NodeId) : ∀ {w : World ω}, J none w →
    (∀ n ∈ ns, w.Known n) → wp (sendAllFrom H ns) (fun _ w' => J none w') w := by
  have hstays : ∀ {w w' : World ω} {n : NodeId}, Linking w w' → w.Known n → w'.Known n := by
    intro w w' n hl hn
    rw [World.Known, World.nodeList, hl.nodes]
    exact hn
  induction ns with
  | nil => exact fun h _ => h
  | cons n ns ih =>
    intro w h hns
    rw [List.forall_mem_cons] at hns
    unfold sendAllFrom
    rw [wp_bind]
    refine wp_mono (wp_and (ctxGetByNode_links H n w)
      (VisitClosed.ctxGetByNode (VisitClosed.visit H h hns.1))) fun r w₁ h₁ => ?_
    obtain ⟨⟨hl, -⟩, h₁⟩ := h₁
    have hns₁ : ∀ m ∈ ns, w₁.Known m := fun m hm => hstays hl.1 (hns.2 m hm)
    cases r with
    | none => exact ih h₁ hns₁
    | some c =>
      dsimp only
      rw [wp_bind]
      refine wp_mono (wp_and (calmly (within_redisBufferWrite H c) w₁)
        (Keeps.wp (I := J none) (within_redisBufferWrite H c) h₁)) fun s w₂ h₂ => ?_
      cases s with
      | err => exact h₂.2
      | ok => exact ih h₂.2 fun m hm => hstays h₂.1.toLinking (hns₁ m hm)

theorem visits_redisClusterSendAll : Keeps (J none) (redisClusterSendAll H) := by
  intro w h
  show wp _ (fun _ w' => J none w') w
  unfold redisClusterSendAll
  rw [wp_bind, wp_get]
  split
  · exact h
  · rename_i nodes hnodes
    refine visits_sendAllFrom H _ h fun n hn => ?_
    rwa [World.Known, World.nodeList, hnodes]

/-! ## Asking for the topology -/

theorem visits_selectNode {w : World ω} (h : J none w) {nodes : NodeDict} (hnodes : w.cc.nodes = some nodes) :
    wp (selectNode H nodes) (fun r w' => J none w' ∧ ∀ n, r = some n → w'.Known n) w := by
  have hasked : ∀ {α : Type} (f : ω → α × ω) {w : World ω}, J none w → J none (ask f w).2 :=
    fun f w h => TalkClosed.ask (R := Keeping (J none)) f w h
  have hempty : Keeps (J none) (abort .emptyNodes) := VisitClosed.modifyAcc (H := H) _
  have h' := hasked H.random (hasked H.now h)
  unfold selectNode
  rw [wp_bind, wp_ask, wp_bind, wp_ask]
  split
  · exact ⟨hempty _ h', fun n hn => by cases hn⟩
  · rw [wp_bind, wp_get, wp_pure]
    refine ⟨h', fun n hn => ?_⟩
    have hmem : n ∈ nodes.vals := (selectFrom_mem _ _ _ _ _ hn).resolve_left (by simp)
    show n ∈ w.nodeList
    rwa [World.nodeList, hnodes]

theorem visits_updateTarget (a : Option AConnId) : Keeps (J none) (updateTarget H a) := by
  unfold updateTarget
  split
  · exact within_pure _
  · intro w h
    show wp _ (fun _ w' => J none w') w
    rw [wp_bind, wp_get]
    split
    · exact within_asyncSetError (R := Keeping (J none)) H _ _ w h
    · rw [wp_bind]
      refine wp_mono (visits_selectNode H h ‹_›) fun r w₁ h₁ => ?_
      cases r with
      | none => exact h₁.1
      | some n => exact VisitClosed.actxGetByNode h₁.1 (h₁.2 n rfl)

theorem visits_stampSlotmapUpdate : Keeps (J none) (stampSlotmapUpdate H) :=
  within_bind (TalkClosed.ask _) fun _ => VisitClosed.modifyAcc (H := H) _

theorem visits_updateSlotMapAsync (a : Option AConnId) : Keeps (J none) (updateSlotMapAsync H a) := by
  have hfail : Keeps (J none) (do
      stampSlotmapUpdate H
      pure Status.err) :=
    within_bind (visits_stampSlotmapUpdate H) fun _ => within_pure _
  refine within_bind within_get fun w => within_ite (within_pure _)
    (within_bind (visits_updateTarget H a) fun a => ?_)
  cases a with
  | none => exact hfail
  | some a =>
    refine within_bind (within_bind within_get fun _ => VisitClosed.submit a _ _) fun s => ?_
    cases s with
    | ok => exact within_bind (VisitClosed.modifyAcc (H := H) _) fun _ => within_pure _
    | err => exact hfail

theorem visits_throttledUpdateSlotMapAsync (a : Option AConnId) :
    Keeps (J none) (throttledUpdateSlotMapAsync H a) :=
  within_bind within_get fun _ => within_ite (within_pure _) (within_bind (TalkClosed.ask _) fun _ =>
    within_ite (within_bind (visits_updateSlotMapAsync H a) fun _ => within_pure _) (within_pure _))

theorem visits_topologyReplyCallback (a : AConnId) (b : Bool) (reply : Option Reply) :
    Keeps (J none) (topologyReplyCallback H a b reply) := by
  have hagain : Keeps (J none) (do
      let _ ← updateSlotMapAsync H none
      pure false) :=
    within_bind (visits_updateSlotMapAsync H none) fun _ => within_pure _
  refine within_bind (visits_stampSlotmapUpdate H) fun _ => ?_
  split
  · exact hagain
  · rename_i r
    refine within_get_bind fun w h => ?_
    show wp _ (fun _ w' => J none w') w
    rw [wp_bind]
    refine wp_mono (VisitClosed.replaced H b (w.aconns a).host r h) fun nodes w₁ h₁ => ?_
    obtain ⟨h₁, hinstall⟩ := h₁
    cases nodes with
    | none => exact hagain w₁ h₁
    | some d =>
      dsimp only
      rw [wp_bind]
      refine wp_mono (hinstall d rfl)
        fun s w₂ h₂ => ?_
      cases s with
      | ok => exact h₂
      | err => exact hagain w₂ h₂

/-! ## Asynchronous commands -/

theorem visits_asyncMoved (a : AConnId) (k : ℕ) (r : Reply) : Keeps (J none) (asyncMoved H a k r) := by
  refine within_bind (visits_throttledUpdateSlotMapAsync H _) fun _ w h => ?_
  show wp _ (fun _ w' => J none w') w
  rw [wp_bind]
  refine wp_mono (visits_handleMoved h r.text) fun n w₁ h₁ => ?_
  obtain ⟨h₁, hn⟩ := h₁
  cases n with
  | none =>
    exact within_bind (R := Keeping (J none)) (within_copyContextError H)
      (fun _ => within_callUser H k (some r)) w₁ h₁
  | some n =>
    dsimp only
    rw [wp_bind]
    refine wp_mono (VisitClosed.actxGetByNode h₁ (hn n rfl)) fun a' w₂ h₂ => ?_
    cases a' with
    | none =>
      exact within_bind (R := Keeping (J none)) (within_abort H fun h => by cases h)
        (fun _ => within_pure false) w₂ h₂
    | some a' => exact within_resubmit (R := Keeping (J none)) H k a' w₂ h₂

theorem visits_asyncAsk (k : ℕ) (r : Reply) : Keeps (J none) (asyncAsk H k r) := by
  intro w h
  show wp _ (fun _ w' => J none w') w
  unfold asyncAsk
  rw [wp_bind]
  refine wp_mono (visits_handleAsk h r.text) fun n w₁ h₁ => ?_
  obtain ⟨h₁, hn⟩ := h₁
  cases n with
  | none =>
    exact within_bind (R := Keeping (J none)) (within_copyContextError H)
      (fun _ => within_callUser H k (some r)) w₁ h₁
  | some n =>
    dsimp only
    rw [wp_bind]
    refine wp_mono (VisitClosed.actxGetByNode h₁ (hn n rfl)) fun a w₂ h₂ => ?_
    cases a with
    | none => exact within_callUser (R := Keeping (J none)) H k (some r) w₂ h₂
    | some a =>
      have hasked : wp (redisAsyncCommand H a .null .asking) (fun _ w' => J none w') w₂ :=
        NoteClosed.send (R := Keeping (J none)) a _ (fun _ h => by cases h) w₂ h₂
      dsimp only
      rw [wp_bind]
      refine wp_mono hasked fun s w₃ h₃ => ?_
      cases s with
      | err => exact h₃
      | ok => exact within_resubmit (R := Keeping (J none)) H k a w₃ h₃

theorem visits_asyncRedirect (a : AConnId) (k : ℕ) (type : ErrorType) (r : Reply) :
    Keeps (J none) (asyncRedirect H a k type r) := by
  refine within_bind (NoteClosed.modifyCad (H := H) _ _) fun _ => within_bind within_get fun w =>
    within_ite ?_ ?_
  · exact within_bind (NoteClosed.modifyCad (H := H) _ _) fun _ =>
      within_bind (within_asyncSetError H _ _) fun _ => within_callUser H _ _
  · split
    · exact visits_asyncMoved H a k r
    · exact visits_asyncAsk H k r
    · exact within_resubmit H k a

theorem visits_redisClusterAsyncCallback (a : AConnId) (k : ℕ) (reply : Option Reply) :
    Keeps (J none) (redisClusterAsyncCallback H a k reply) := by
  unfold redisClusterAsyncCallback
  split
  · refine within_bind (within_copyAsyncError H a) fun _ => within_bind within_get fun w => ?_
    split
    · exact within_callUser H _ _
    · exact within_bind (visits_throttledUpdateSlotMapAsync H _) fun _ => within_callUser H _ _
  · exact within_bind within_get fun w => within_ite (within_callUser H _ _)
      (visits_asyncRedirect H a k _ _)

theorem visits_redisClusterAsyncFormattedCommand (fn : Option ℕ) (cmd : Bytes) :
    Keeps (J none) (redisClusterAsyncFormattedCommand H fn cmd) := by
  have herr : ∀ type str, Keeps (J none) (do asyncSetError type str; pure Status.err : Prog ω _) :=
    fun type str => within_bind (within_asyncSetError H _ _) fun _ => within_pure _
  refine within_bind within_get fun w => within_ite (herr _ _) ?_
  refine within_bind within_resetError fun _ => within_bind (within_resetAsyncError H) fun _ =>
    within_bind within_commandGet fun id => within_bind (within_commandFormatBySlot _) fun p => ?_
  refine within_ite (within_bind (within_copyContextError H) fun _ => within_pure _)
    (within_ite (herr _ _) (within_ite (herr _ _) ?_))
  intro w₁ h₁
  show wp _ (fun _ w' => J none w') w₁
  rw [wp_bind]
  refine wp_mono (visits_tableNode H h₁ _) fun n w₂ h₂ => ?_
  obtain ⟨h₂, hn⟩ := h₂
  cases n with
  | none =>
    exact within_bind (R := Keeping (J none)) (visits_throttledUpdateSlotMapAsync H none)
      (fun _ => within_bind (within_copyContextError H) fun _ => within_pure Status.err) w₂ h₂
  | some n =>
    dsimp only
    rw [wp_bind]
    refine wp_mono (VisitClosed.actxGetByNode h₂ (hn n rfl)) fun a w₃ h₃ => ?_
    cases a with
    | none => exact h₃
    | some a => exact within_submitCommand (R := Keeping (J none)) H a _ w₃ h₃

theorem visits_redisClusterAsyncFormattedCommandToNode {w : World ω} (h : J none w) {n : NodeId}
    (hn : w.Known n) (fn : Option ℕ) (cmd : Bytes) :
    J none (redisClusterAsyncFormattedCommandToNode H n fn cmd w).2 := by
  show wp _ (fun _ w' => J none w') w
  unfold redisClusterAsyncFormattedCommandToNode
  rw [wp_bind, wp_get]
  split
  · exact within_asyncSetError (R := Keeping (J none)) H _ _ w h
  · rw [wp_bind]
    refine wp_mono (VisitClosed.actxGetByNode h hn) fun a w₁ h₁ => ?_
    cases a with
    | none => exact h₁
    | some a =>
      have hsend : ∀ cad : ℕ → AsyncData, Keeps (J none) (do
          resetError
          resetAsyncError
          let id ← commandGet
          submitCommand H a (cad id)) := fun cad =>
        within_bind within_resetError fun _ => within_bind (within_resetAsyncError H) fun _ =>
          within_bind within_commandGet fun id => within_submitCommand H a _
      exact hsend _ w₁ h₁

theorem visits_redisClusterConnect2 : Keeps (J none) (redisClusterConnect2 H) :=
  within_bind (NoteClosed.shutdown (H := H) false) fun _ => within_bind within_get fun _ =>
    within_ite (within_bind (TalkClosed.setError _ _) fun _ => within_pure _)
      (visits_updateSlotmap H none)

theorem visits_redisClusterAsyncConnect2 : Keeps (J none) (redisClusterAsyncConnect2 H) :=
  within_bind within_get fun _ => within_ite (visits_updateSlotMapAsync H none) (within_pure _)

theorem visits_redisClusterAsyncFree : Keeps (J none) (redisClusterAsyncFree : Prog ω Unit) :=
  within_redisClusterAsyncFree H (VisitClosed.free H)

/-! ## Whole runs -/

theorem visits_runCallback (a : AConnId) (cb : ACallback) (reply : Option Reply) :
    Keeps (J none) (runCallback H a cb reply) := by
  cases cb with
  | null => exact within_pure _
  | topology b =>
    exact within_bind (visits_topologyReplyCallback H a b reply) fun _ =>
      within_ite (within_pure _) (within_pure _)
  | user k =>
    exact within_bind (visits_redisClusterAsyncCallback H a k reply) fun _ =>
      within_ite (within_pure _) (within_pure _)

theorem visits_resume (f : Frame) : Keeps (J none) (resume f : Prog ω (List Frame)) :=
  within_resume H f

variable [∀ v, CommandClosed (Keeping (J v))]

/-- **Every call keeps the invariant** if the user names known nodes only. -/
theorem Call.run_visits (op : Call) {w : World ω} (h : J none w)
    (hnode : ∀ n ∈ op.node?, w.Known n) : J none (op.run H w).2 := by
  cases op with
  | addNode addr => exact within_drop (R := Keeping (J none)) (LibClosed.addNode addr) w h
  | connect2 => exact within_drop (R := Keeping (J none)) (visits_redisClusterConnect2 H) w h
  | updateSlotmap =>
    exact within_drop (R := Keeping (J none)) (visits_updateSlotmap H none) w h
  | command cmd =>
    exact within_drop (R := Keeping (J none)) (redisClusterFormattedCommand_within H
      (visits_redisClusterCommandExecute H) cmd) w h
  | commandToNode n cmd => exact visits_redisClustervCommandToNode H h (hnode n rfl) cmd
  | pipe op =>
    cases op with
    | append cmd =>
      exact within_drop (R := Keeping (J none)) (redisClusterAppendFormattedCommand_within H
        (visits_clusterAppendCommand H) cmd) w h
    | appendToNode n cmd => exact visits_redisClustervAppendCommandToNode H h (hnode n rfl) cmd
    | getReply => exact within_drop (R := Keeping (J none)) (within_redisClusterGetReply H) w h
  | reset =>
    exact redisClusterReset_within (R := Keeping (J none)) H (visits_redisClusterSendAll H)
      (visits_updateSlotmap H none) w h
  | asyncConnect2 =>
    exact within_drop (R := Keeping (J none)) (visits_redisClusterAsyncConnect2 H) w h
  | asyncCommand fn cmd =>
    exact within_drop (R := Keeping (J none)) (visits_redisClusterAsyncFormattedCommand H fn cmd) w h
  | asyncCommandToNode n fn cmd =>
    exact visits_redisClusterAsyncFormattedCommandToNode H h (hnode n rfl) fn cmd
  | asyncDisconnect => exact within_redisClusterAsyncDisconnect (R := Keeping (J none)) H w h
  | asyncFree => exact visits_redisClusterAsyncFree H w h

end Visiting
