/-
# Failures are reported

A blocking call that fails is expected to leave a nonzero `cc->err`.  Most
failures set it; what does not is

* a topology query that cannot be written out (`redisBufferWrite` fails in
  `clusterUpdateRouteSendCommand`);
* `ctx_get_by_node` on a node without a connection and with port zero;
* a command that failed and whose deferred update fails too, if another update
  then succeeds and clears the error.

`Silent` and `Voiced` name these situations by the state in which they arise;
away from them every failure is reported.
-/
import HiredisCluster.Blocking

open Program

variable {ω : Type}

/-- An error is set on the context. -/
def World.Failed (w : World ω) : Prop := w.cc.err ≠ none

instance (w : World ω) : Decidable w.Failed := inferInstanceAs (Decidable (_ ≠ _))

/-! ## Errors that stay

Apart from the places that clear it on purpose, an error once set is replaced by
another error at most. -/

theorem failed_of_err {w w' : World ω} (h : w'.cc.err = w.cc.err) : Keeping World.Failed w w' :=
  fun hw => by
    rw [World.Failed, h]
    exact hw

theorem failed_setError {type : Err} {str : ErrText} {w : World ω} :
    (setError (some type) str w).2.Failed := Option.some_ne_none type

theorem keeps_redisFree (c : Option ConnId) :
    Keeps World.Failed (redisFree c : Prog ω Unit) := by
  cases c with
  | none => exact within_pure _
  | some c => exact fun _ => failed_of_err rfl

theorem keeps_detachAsync (a : Option AConnId) :
    Keeps World.Failed (detachAsync a : Prog ω Unit) := by
  cases a with
  | none => exact within_pure _
  | some a => exact fun _ => failed_of_err rfl

instance : ParseClosed (Keeping (@World.Failed ω)) where
  setError _ _ _ := fun _ => failed_setError
  redisFree := keeps_redisFree
  detachAsync := keeps_detachAsync
  released _ _ := failed_of_err rfl
  newNode _ _ := failed_of_err rfl
  editNode _ _ _ _ := failed_of_err rfl

theorem parseFailed_failed (nodes : NodeDict) (e : Complaint) (w : World ω) :
    wp (parseFailed nodes e) (fun r w' => r = none → w'.Failed) w := by
  unfold parseFailed
  rw [wp_bind, wp_setError, wp_bind]
  refine wp_mono ((within_dictRelease (R := Keeping World.Failed) nodes).wp _) fun _ w' h _ => ?_
  exact h (Option.some_ne_none e.1)

theorem parseClusterSlots_failed (tcpHost : Bytes) (r : Reply) (w : World ω) :
    wp (parseClusterSlots tcpHost r) (fun r w' => r = none → w'.Failed) w := by
  unfold parseClusterSlots
  split
  · rw [wp_bind]
    refine wp_mono (P := fun _ _ => True) trivial fun r w₁ _ => ?_
    obtain ⟨nodes, _ | msg⟩ := r
    · exact fun h => by cases h
    · exact parseFailed_failed nodes msg w₁
  · exact parseFailed_failed _ _ w

theorem parseClusterNodes_failed (tcpHost : Bytes) (r : Reply) (w : World ω) :
    wp (parseClusterNodes tcpHost r) (fun r w' => r = none → w'.Failed) w := by
  unfold parseClusterNodes
  rw [wp_bind]
  refine wp_mono (P := fun _ _ => True) trivial fun r w₁ _ => ?_
  obtain ⟨scan, _ | msg⟩ := r
  · dsimp only
    split
    · exact parseFailed_failed _ _ w₁
    · exact fun h => by cases h
  · exact parseFailed_failed _ _ w₁

/-! ## Installing a topology -/

theorem keeps_relinkAsync (a : Option AConnId) (n : NodeId) :
    Keeps World.Failed (relinkAsync a n : Prog ω Unit) := by
  cases a with
  | none => exact within_pure _
  | some a => exact fun _ => failed_of_err rfl

theorem keeps_swapNodeCtx (f t : NodeId) :
    Keeps World.Failed (swapNodeCtx f t : Prog ω Unit) := by
  refine within_bind within_get fun w => within_bind (fun _ => failed_of_err rfl) fun _ =>
    within_bind (fun _ => failed_of_err rfl) fun _ => within_ite ?_ (within_pure _)
  exact within_bind (keeps_relinkAsync _ _) fun _ => keeps_relinkAsync _ _

theorem keeps_clusterNodesSwapCtx (oldnodes : NodeDict) (ns : List NodeId) :
    Keeps World.Failed (clusterNodesSwapCtx oldnodes ns : Prog ω Unit) := by
  induction ns with
  | nil => exact within_pure _
  | cons t ts ih =>
    refine within_bind within_get fun w => ?_
    split
    · exact ih
    · exact within_bind (keeps_swapNodeCtx _ _) fun _ => ih

/-- What a routine with a status does to the error: success keeps one that was set
before, and failure sets one. -/
def Reports (w : World ω) (r : Status) (w' : World ω) : Prop :=
  match r with
  | .ok => Keeping World.Failed w w'
  | .err => w'.Failed

theorem installNodes_reports (nodes : NodeDict) (w : World ω) :
    wp (installNodes nodes) (fun r w' => Reports w r w') w := by
  unfold installNodes
  rw [wp_bind, wp_get]
  split
  · rw [wp_bind, wp_setError, wp_bind]
    refine wp_mono ((within_dictRelease (R := Keeping World.Failed) nodes).wp _) fun _ w' h => ?_
    exact h failed_setError
  · rw [wp_bind, wp_modifyCc]
    split
    · exact failed_of_err rfl
    · rw [wp_bind]
      refine wp_mono (Within.wp (keeps_clusterNodesSwapCtx _ _) _) fun _ w₁ h₁ => ?_
      rw [wp_bind, wp_modifyCc, wp_bind]
      refine wp_mono ((within_dictRelease (R := Keeping World.Failed) _).wp _) fun _ w₂ h₂ => ?_
      exact fun hw => h₂ (h₁ hw)

theorem updateNodesAndSlotmap_reports {nodes : Option NodeDict} {w : World ω}
    (h : nodes = none → w.Failed) :
    wp (updateNodesAndSlotmap nodes) (fun r w' => Reports w r w') w := by
  cases nodes with
  | none => exact h rfl
  | some nodes =>
    unfold updateNodesAndSlotmap
    dsimp only
    rw [wp_bind]
    refine wp_mono (installNodes_reports nodes w) fun r w₁ h₁ => ?_
    cases r with
    | err => exact h₁
    | ok => exact fun hw => h₁ hw

variable (H : Hiredis ω)

/-! ## Calls of hiredis

They leave the context alone, so a failure has to be copied from the connection. -/

/-- The cluster context is untouched. -/
def SameCc (w w' : World ω) : Prop := w'.cc = w.cc

instance : Std.Refl (@SameCc ω) := ⟨fun _ => rfl⟩

instance : IsTrans (World ω) SameCc := ⟨fun _ _ _ h h' => h'.trans h⟩

theorem SameCc.keeping {w w' : World ω} (h : SameCc w w') : Keeping World.Failed w w' :=
  failed_of_err (congrArg Context.err h)

theorem same_redisConnectWithOptions (host : Bytes) (port : ℕ) :
    Within SameCc (redisConnectWithOptions H host port) := by
  refine within_bind (fun _ => rfl) fun r => ?_
  cases r with
  | oom => exact within_pure _
  | failed f => exact within_bind (fun _ => rfl) fun _ => within_pure _
  | ok => exact within_bind (fun _ => rfl) fun _ => within_pure _

theorem same_redisAppendCommand (c : ConnId) (q : Sent) :
    Within SameCc (redisAppendCommand H c q) := by
  refine within_bind within_get fun w => within_bind (fun _ => rfl) fun r => ?_
  cases r with
  | none => exact fun _ => rfl
  | some f => exact fun _ => rfl

theorem same_redisBufferWrite (c : ConnId) : Within SameCc (redisBufferWrite H c) := by
  refine within_bind within_get fun w => within_ite (within_pure _) ?_
  refine within_bind (fun _ => rfl) fun r => ?_
  cases r with
  | none => exact within_pure _
  | some f => exact fun _ => rfl

theorem same_redisGetReply (c : ConnId) (q : Sent) : Within SameCc (redisGetReply H c q) := by
  refine within_bind within_get fun w => within_ite (within_pure _) ?_
  split
  · exact fun _ => rfl
  · refine within_bind (fun _ => rfl) fun r => ?_
    cases r with
    | error f => exact fun _ => rfl
    | ok r => exact fun _ => rfl

theorem same_redisCommand (c : ConnId) (q : Sent) : Within SameCc (redisCommand H c q) := by
  refine within_bind (same_redisAppendCommand H c q) fun r => ?_
  cases r with
  | err => exact within_pure _
  | ok => exact same_redisGetReply H c q

theorem same_redisFree (c : Option ConnId) : Within SameCc (redisFree c : Prog ω Unit) := by
  cases c with
  | none => exact within_pure _
  | some c => exact fun _ => rfl

/-- The error of a connection in error is copied. -/
theorem copyError_failed {c : ConnId} {w : World ω} (h : (w.conns c).err ≠ none) :
    (copyError c w).2.Failed := by
  obtain ⟨f, hf⟩ := Option.ne_none_iff_exists'.mp h
  suffices hs : wp (copyError c) (fun _ w' => w'.Failed) w from hs
  unfold copyError
  rw [wp_bind, wp_get, hf]
  exact failed_setError

theorem startTls_reports (c : ConnId) (w : World ω) :
    wp (startTls H c) (fun r w' => match r with
      | .ok => SameCc w w'
      | .err => w'.Failed) w := by
  unfold startTls sslInitFn
  rw [wp_bind, wp_get]
  split
  · rw [wp_bind, wp_bind, wp_get, wp_bind, wp_ask]
    split
    · exact rfl
    · rw [wp_bind, wp_modifyConn]
      refine copyError_failed ?_
      show (Function.update w.conns c _ c).err ≠ none
      rw [Function.update_self]
      exact Option.some_ne_none _
  · exact rfl

theorem authenticate_reports (c : ConnId) (w : World ω) :
    wp (authenticate H c) (fun r w' => match r with
      | .ok => SameCc w w'
      | .err => w'.Failed) w := by
  unfold authenticate
  rw [wp_bind, wp_get]
  split
  · exact rfl
  · rw [wp_bind]
    refine wp_mono (Within.wp (same_redisCommand H c _) w) fun r w₁ h₁ => ?_
    cases r with
    | none => exact failed_setError
    | some a =>
      dsimp only
      split
      · exact failed_setError
      · exact h₁

/-! ## Topology queries -/

theorem topologyReadError_failed (c : ConnId) (what : String) (w : World ω) :
    wp (topologyReadError c what) (fun _ w' => w'.Failed) w := by
  unfold topologyReadError
  rw [wp_bind, wp_get]
  split
  · exact failed_setError
  · exact failed_setError

theorem Reports.after {w w₁ w' : World ω} {r : Status} (h : Keeping World.Failed w w₁)
    (hr : Reports w₁ r w') : Reports w r w' := by
  cases r with
  | ok => exact fun hw => hr (h hw)
  | err => exact hr

/-- A parsed topology is installed. -/
theorem parseAndUpdate_reports {m : Prog ω (Option NodeDict)} (hk : Keeps World.Failed m)
    {w : World ω} (hm : wp m (fun r w' => r = none → w'.Failed) w) :
    wp (m >>= updateNodesAndSlotmap) (fun r w' => Reports w r w') w := by
  rw [wp_bind]
  refine wp_mono (wp_and hm (Within.wp hk w)) fun r w₁ h₁ => ?_
  exact wp_mono (updateNodesAndSlotmap_reports h₁.1) fun s w₂ h₂ => h₂.after h₁.2

theorem handleClusterSlotsReply_reports (c : ConnId) (w : World ω) :
    wp (handleClusterSlotsReply H c) (fun r w' => Reports w r w') w := by
  unfold handleClusterSlotsReply
  rw [wp_bind]
  refine wp_mono (Within.wp (same_redisGetReply H c _) w) fun r w₁ h₁ => ?_
  cases r with
  | none => exact topologyReadError_failed c _ w₁
  | some a =>
    dsimp only
    split
    · rw [wp_bind, wp_get]
      exact wp_mono (parseAndUpdate_reports (within_parseClusterSlots _ _)
        (parseClusterSlots_failed _ _ w₁)) fun s w₂ h₂ => h₂.after h₁.keeping
    · exact failed_setError
    · exact failed_setError

theorem handleClusterNodesReply_reports (c : ConnId) (w : World ω) :
    wp (handleClusterNodesReply H c) (fun r w' => Reports w r w') w := by
  unfold handleClusterNodesReply
  rw [wp_bind]
  refine wp_mono (Within.wp (same_redisGetReply H c _) w) fun r w₁ h₁ => ?_
  cases r with
  | none => exact topologyReadError_failed c _ w₁
  | some a =>
    dsimp only
    split
    · rw [wp_bind, wp_get]
      exact wp_mono (parseAndUpdate_reports (within_parseClusterNodes _ _)
        (parseClusterNodes_failed _ _ w₁)) fun s w₂ h₂ => h₂.after h₁.keeping
    · exact failed_setError
    · exact failed_setError

theorem clusterUpdateRouteHandleReply_reports (c : ConnId) (w : World ω) :
    wp (clusterUpdateRouteHandleReply H c) (fun r w' => Reports w r w') w := by
  unfold clusterUpdateRouteHandleReply
  rw [wp_bind, wp_get]
  split
  · exact handleClusterSlotsReply_reports H c w
  · exact handleClusterNodesReply_reports H c w

/-! ## The query that is not written out

The one failure on the way that is not reported; the routines below follow
`clusterUpdateRouteSendCommand`, `cluster_update_route_by_addr` and
`redisClusterUpdateSlotmap` up to it. -/

/-- The topology query is accepted by the connection, but cannot be written out. -/
def sendUnflushed (c : ConnId) : Prog ω Bool := do
  let w ← get
  match ← redisAppendCommand H c w.cc.topologyQuery with
  | .err => pure false
  | .ok => do
    let r ← redisBufferWrite H c
    pure (decide (r = .err))

/-- The same on a new connection, once it is ready. -/
def queryUnflushed (c : ConnId) : Prog ω Bool := do
  let w ← get
  if (w.conns c).err.isSome then pure false
  else
    match ← startTls H c with
    | .err => pure false
    | .ok =>
      match ← authenticate H c with
      | .err => pure false
      | .ok => sendUnflushed H c

/-- The same for an address. -/
def updateUnflushed (ip : Bytes) (port : ℕ) : Prog ω Bool := do
  if port = 0 then pure false
  else
    match ← redisConnectWithOptions H ip port with
    | none => pure false
    | some c => do
      userHook
      queryUnflushed H c

/-- None of the nodes still to be asked can be written to. -/
def silentFrom : List NodeId → World ω → Bool
  | [], _ => true
  | n :: ns, w =>
    (updateUnflushed H (w.heap n).host (w.heap n).port w).1 &&
      silentFrom ns (clusterUpdateRouteByAddr H (w.heap n).host (w.heap n).port w).2

/-- An update of the slot map started now says nothing: no error is set, and there
are nodes, none of which can be written to. -/
def silent (w : World ω) : Bool :=
  w.cc.err.isNone &&
    match w.cc.nodes with
    | none => false
    | some nodes => decide (nodes.vals ≠ []) && silentFrom H nodes.vals w

/-- What a routine does to the error if `mute` says that its failure is one that
goes unreported. -/
def Told (mute : Bool) (w : World ω) (r : Status) (w' : World ω) : Prop :=
  match r, mute with
  | .ok, mute => mute = false ∧ Keeping World.Failed w w'
  | .err, true => w'.cc.err = w.cc.err
  | .err, false => w'.Failed

theorem Told.keeping {mute : Bool} {w w' : World ω} {r : Status} (h : Told mute w r w') :
    Keeping World.Failed w w' := by
  cases r with
  | ok => exact h.2
  | err =>
    cases mute with
    | true => exact failed_of_err h
    | false => exact fun _ => h

theorem Reports.told {w w' : World ω} {r : Status} (h : Reports w r w') : Told false w r w' := by
  cases r with
  | ok => exact ⟨rfl, h⟩
  | err => exact h

theorem Told.after {mute : Bool} {w w₁ w' : World ω} {r : Status} (h : SameCc w w₁)
    (ht : Told mute w₁ r w') : Told mute w r w' := by
  cases r with
  | ok => exact ⟨ht.1, fun hw => ht.2 (h.keeping hw)⟩
  | err =>
    cases mute with
    | true => exact ht.trans (congrArg Context.err h)
    | false => exact ht

theorem Told.before {mute : Bool} {w w₁ w' : World ω} {r : Status} (ht : Told mute w r w₁)
    (h : SameCc w₁ w') : Told mute w r w' := by
  cases r with
  | ok => exact ⟨ht.1, fun hw => h.keeping (ht.2 hw)⟩
  | err =>
    cases mute with
    | true => exact (congrArg Context.err h).trans ht
    | false => exact h.keeping ht

theorem clusterUpdateRouteSendCommand_told (c : ConnId) (w : World ω) :
    alongside (clusterUpdateRouteSendCommand H c) (sendUnflushed H c)
      (fun r w' mute => Told mute w r w') w := by
  unfold clusterUpdateRouteSendCommand sendUnflushed
  rw [alongside_bind, wp_get, alongside_bind]
  refine wp_mono (wp_and (redisAppendCommand_conns H c _ w)
    (Within.wp (same_redisAppendCommand H c _) w)) fun r w₁ h₁ => ?_
  obtain ⟨⟨-, -, hr⟩, hsame⟩ := h₁
  cases r with
  | err =>
    obtain ⟨f, hf⟩ := Option.ne_none_iff_exists'.mp hr
    show (w₁.conns c).err.map Fault.code ≠ none
    rw [hf]
    exact Option.some_ne_none _
  | ok =>
    rw [alongside_bind_right]
    refine wp_mono (Within.wp (same_redisBufferWrite H c) w₁) fun r w₂ h₂ => ?_
    have hw : SameCc w w₂ := h₂.trans hsame
    cases r with
    | ok => exact ⟨rfl, hw.keeping⟩
    | err => exact congrArg Context.err hw

theorem queryTopology_told (c : ConnId) (w : World ω) :
    alongside (queryTopology H c) (queryUnflushed H c) (fun r w' mute => Told mute w r w') w := by
  unfold queryTopology queryUnflushed
  rw [alongside_bind, wp_get]
  split
  · rename_i herr
    exact copyError_failed (Option.isSome_iff_ne_none.mp herr)
  · rw [alongside_bind]
    refine wp_mono (startTls_reports H c w) fun r w₁ h₁ => ?_
    cases r with
    | err => exact h₁
    | ok =>
      rw [alongside_bind]
      refine wp_mono (authenticate_reports H c w₁) fun r w₂ h₂ => ?_
      cases r with
      | err => exact h₂
      | ok =>
        have hw : SameCc w w₂ := h₂.trans h₁
        refine alongside_bind_left (clusterUpdateRouteSendCommand_told H c w₂)
          fun r w₃ mute h₃ => ?_
        cases r with
        | err => exact h₃.after hw
        | ok =>
          obtain ⟨rfl, hk⟩ := h₃
          refine wp_mono (clusterUpdateRouteHandleReply_reports H c w₃) fun s w₄ h₄ => ?_
          exact (h₄.after hk).told.after hw

theorem clusterUpdateRouteByAddr_told (ip : Bytes) (port : ℕ) (w : World ω) :
    alongside (clusterUpdateRouteByAddr H ip port) (updateUnflushed H ip port)
      (fun r w' mute => Told mute w r w') w := by
  unfold clusterUpdateRouteByAddr updateUnflushed
  split
  · exact failed_setError
  · rw [alongside_bind]
    refine wp_mono (Within.wp (same_redisConnectWithOptions H ip port) w) fun r w₁ h₁ => ?_
    cases r with
    | none => exact failed_setError
    | some c =>
      rw [alongside_bind]
      refine wp_mono (P := fun _ w' => SameCc w₁ w') rfl fun _ w₂ h₂ => ?_
      have hw : SameCc w w₂ := h₂.trans h₁
      refine alongside_bind_left (queryTopology_told H c w₂) fun r w₃ mute h₃ => ?_
      exact (h₃.before (same_redisFree (some c) w₃)).after hw

/-- The loop over the nodes: unless all of them are silent, or an error was set
before, its failure is reported. -/
theorem updateSlotmapFrom_told (ns : List NodeId) : ∀ w : World ω,
    wp (updateSlotmapFrom H ns) (fun r w' =>
      match r with
      | .ok => silentFrom H ns w = false
      | .err => (silentFrom H ns w = true → w'.cc.err = w.cc.err) ∧
          (silentFrom H ns w = false ∨ w.Failed → w'.Failed)) w := by
  induction ns with
  | nil =>
    refine fun w => ⟨fun _ => rfl, fun h => ?_⟩
    rcases h with h | h
    · cases h
    · exact h
  | cons n ns ih =>
    intro w
    have hb : Told (updateUnflushed H (w.heap n).host (w.heap n).port w).1 w
        (clusterUpdateRouteByAddr H (w.heap n).host (w.heap n).port w).1
        (clusterUpdateRouteByAddr H (w.heap n).host (w.heap n).port w).2 :=
      clusterUpdateRouteByAddr_told H _ _ w
    unfold updateSlotmapFrom
    rw [wp_bind, wp_get, wp_bind]
    simp only [silentFrom]
    unfold wp
    generalize (updateUnflushed H (w.heap n).host (w.heap n).port w).1 = mute at hb ⊢
    generalize clusterUpdateRouteByAddr H (w.heap n).host (w.heap n).port w = p at hb ⊢
    obtain ⟨r, w₁⟩ := p
    cases r with
    | ok =>
      obtain ⟨rfl, -⟩ := hb
      rfl
    | err =>
      show wp (updateSlotmapFrom H ns) (fun r w' => match r with
        | .ok => (mute && silentFrom H ns w₁) = false
        | .err => ((mute && silentFrom H ns w₁) = true → w'.cc.err = w.cc.err) ∧
          ((mute && silentFrom H ns w₁) = false ∨ w.Failed → w'.Failed)) w₁
      refine wp_mono (ih w₁) fun r w₂ h₂ => ?_
      cases r with
      | ok =>
        dsimp only at h₂ ⊢
        rw [h₂, Bool.and_false]
      | err =>
        obtain ⟨hsame, hfail⟩ := h₂
        refine ⟨fun h => ?_, fun h => hfail ?_⟩
        · obtain ⟨rfl, hs⟩ := Bool.and_eq_true_iff.mp h
          exact (hsame hs).trans hb
        · rcases h with h | h
          · rcases Bool.and_eq_false_iff.mp h with rfl | hs
            · exact Or.inr hb
            · exact Or.inl hs
          · exact Or.inr (hb.keeping h)

/-- **When an update of the slot map fails without an error**: exactly when it is
silent. -/
theorem redisClusterUpdateSlotmap_told (w : World ω) :
    wp (redisClusterUpdateSlotmap H) (fun r w' =>
      match r with
      | .ok => silent H w = false
      | .err => w'.Failed ↔ silent H w = false) w := by
  unfold redisClusterUpdateSlotmap silent
  rw [wp_bind, wp_get]
  cases hn : w.cc.nodes with
  | none => exact iff_of_true failed_setError (Bool.and_false _)
  | some nodes =>
    dsimp only
    split
    · rename_i hv
      exact iff_of_true failed_setError (by simp [hv])
    · rename_i hv
      refine wp_mono (updateSlotmapFrom_told H nodes.vals w) fun r w' h => ?_
      cases r with
      | ok =>
        dsimp only at h ⊢
        rw [h, Bool.and_false, Bool.and_false]
      | err =>
        obtain ⟨hsame, hfail⟩ := h
        dsimp only
        cases hs : silentFrom H nodes.vals w with
        | false => simp [hfail (Or.inl hs)]
        | true =>
          rw [World.Failed, hsame hs]
          cases he : w.cc.err <;> simp [hv]

/-! ## Reaching a node -/

theorem nodeGetByTable_reports (slot : ℕ) (w : World ω) :
    wp (nodeGetByTable slot) (fun r w' => r = none → w'.Failed) w := by
  unfold nodeGetByTable
  rw [wp_bind, wp_get]
  split
  · exact fun _ => failed_setError
  · split
    · exact fun _ => failed_setError
    · split
      · exact fun _ => failed_setError
      · exact fun h => by cases h

theorem openNode_reports (n : NodeId) (w : World ω) :
    wp (openNode H n) (fun r w' => r = none → w'.Failed) w := by
  unfold openNode
  rw [wp_bind, wp_get, wp_bind]
  refine wp_mono (P := fun _ _ => True) trivial fun r w₁ _ => ?_
  cases r with
  | none => exact fun _ => failed_setError
  | some c =>
    dsimp only
    rw [wp_bind]
    refine wp_mono (P := fun _ _ => True) trivial fun _ w₂ _ => ?_
    rw [wp_bind, wp_get]
    have hfree : ∀ w' : World ω, w'.Failed →
        wp (do redisFree (some c); pure none) (fun (r : Option ConnId) w'' =>
          r = none → w''.Failed) w' := fun w' h _ => keeps_redisFree (some c) w' h
    split
    · rename_i herr
      rw [wp_bind]
      exact hfree _ (copyError_failed (Option.isSome_iff_ne_none.mp herr))
    · rw [wp_bind]
      refine wp_mono (startTls_reports H c w₂) fun r w₃ h₃ => ?_
      cases r with
      | err => exact hfree w₃ h₃
      | ok =>
        dsimp only
        rw [wp_bind]
        refine wp_mono (authenticate_reports H c w₃) fun r w₄ h₄ => ?_
        cases r with
        | err => exact hfree w₄ h₄
        | ok => exact fun h => by cases h

/-- Node `n` has a connection, or a port to open one to. -/
def dialable (n : NodeId) (w : World ω) : Bool :=
  (w.heap n).con.isSome || decide ((w.heap n).port ≠ 0)

theorem lookupNode_reports {n : NodeId} {w : World ω} (h : dialable n w = true) :
    wp (lookupNode H n) (fun r w' => r = none → w'.Failed) w := by
  unfold lookupNode ctxGetByNode
  rw [wp_bind, wp_get, wp_bind, wp_record, wp_bind, wp_get]
  split
  · split
    · exact fun h => by cases h
    · exact fun h => by cases h
  · rename_i hcon
    split
    · rename_i hport
      dsimp only at hcon hport
      simp [dialable, hcon, hport] at h
    · exact openNode_reports H n _

/-! ## The command loop -/

/-- The connection that was looked up can be used. -/
def connected (r : Option ConnId) (w : World ω) : Bool :=
  match r with
  | none => false
  | some c => (w.conns c).err.isNone

/-- The code at label `retry` up to the first connection attempt. -/
def retryTarget (cmd : Cmd) : Prog ω (Option NodeId) := do
  match ← nodeGetByTable (toUint32 cmd.slotNum) with
  | some n => pure (some n)
  | none => do
    match ← redisClusterUpdateSlotmap H with
    | .err => pure none
    | .ok => nodeGetByTable (toUint32 cmd.slotNum)

/-- The step from `s` is not one that may fail without an error: an update of the
slot map that is not preceded by an error is not silent, the destination of a
redirect can be reached, and a command that has failed is not followed by a deferred
update that fails and then succeeds over another connection. -/
def voiced (cmd : Cmd) (s : Exec × World ω) : Bool :=
  match s.1.pc, s.1.cUpdatingRoute with
  | .retry, _ =>
    let t := retryTarget H cmd s.2
    match t.1 with
    | none => true
    | some n =>
      let l := lookupNode H n t.2
      connected l.1 l.2 || !silent H l.2
  | .moved _ c, none =>
    let t := clusterUpdateRouteSendCommand H c s.2
    decide (t.1 = .ok) || !silent H t.2
  | .follow n _, _ => dialable n s.2
  | .done r, some c =>
    let t := clusterUpdateRouteHandleReply H c (record (.deferred c (decide (s.2.Held c))) s.2).2
    decide (t.1 = .ok) || (!silent H (clearError t.2).2 &&
      (r.isSome || decide ((redisClusterUpdateSlotmap H (clearError t.2).2).1 = .err)))
  | _, _ => true

/-- The loop gives up, or has given up, with an error set. -/
def Announced (e : Exec) (w : World ω) : Prop :=
  match e.pc with
  | .done none => w.Failed
  | .ret none => w.Failed
  | _ => True

theorem connectOrFail_announced {n : NodeId} {next : ConnId → Pc} {u : Option ConnId}
    {w : World ω} (hnext : ∀ c (w' : World ω), Announced ⟨next c, u⟩ w') (h : dialable n w = true) :
    wp (connectOrFail H n next u) (fun e w' => Announced e w') w := by
  unfold connectOrFail
  rw [wp_bind]
  refine wp_mono (lookupNode_reports H h) fun r w₁ h₁ => ?_
  cases r with
  | none => exact h₁ rfl
  | some c =>
    dsimp only
    rw [wp_bind, wp_get]
    split
    · rename_i herr
      exact copyError_failed (Option.isSome_iff_ne_none.mp herr)
    · exact hnext c w₁

/-- After a successful update every node of the table can be reached. -/
theorem dialable_of_replaced {w w' : World ω} {slot : ℕ} (hr : Replaced w w') :
    wp (nodeGetByTable slot) (fun r w'' => match r with
      | none => w''.Failed
      | some n => dialable n w'' = true) w' := by
  refine wp_mono (wp_and (nodeGetByTable_reports slot w') (nodeGetByTable_some slot w'))
    fun r w'' h => ?_
  cases r with
  | none => exact h.1 rfl
  | some n =>
    obtain ⟨rfl, -, t, ht, hn⟩ := h.2 n rfl
    obtain ⟨d, t', hd, ht', htable, hfresh⟩ := hr.installed
    obtain rfl := Option.some.inj (ht'.symm.trans ht)
    obtain ⟨⟨k, n'⟩, hmem, rfl⟩ := List.mem_map.mp (htable slot n hn)
    simp [dialable, (hfresh k n' hmem).2.2.2]

theorem reconnectAfterUpdate_announced {cmd : Cmd} {u : Option ConnId} {w : World ω}
    (h : silent H w = false) :
    wp (reconnectAfterUpdate H cmd u) (fun e w' => Announced e w') w := by
  unfold reconnectAfterUpdate
  rw [wp_bind]
  refine wp_mono (wp_and (redisClusterUpdateSlotmap_told H w) (redisClusterUpdateSlotmap_updates H w))
    fun r w₁ h₁ => ?_
  cases r with
  | err => exact h₁.1.mpr h
  | ok =>
    dsimp only
    rw [wp_bind]
    refine wp_mono (dialable_of_replaced h₁.2) fun r w₂ h₂ => ?_
    cases r with
    | none => exact h₂
    | some n => exact connectOrFail_announced H (fun _ _ => trivial) h₂

theorem connectOrUpdate_announced {cmd : Cmd} {n : NodeId} {u : Option ConnId} {w : World ω}
    (h : wp (lookupNode H n) (fun r w' => (connected r w' || !silent H w') = true) w) :
    wp (connectOrUpdate H cmd n u) (fun e w' => Announced e w') w := by
  unfold connectOrUpdate
  rw [wp_bind]
  refine wp_mono h fun r w₁ h₁ => ?_
  cases r with
  | none => exact reconnectAfterUpdate_announced H (by simpa [connected] using h₁)
  | some c =>
    dsimp only
    rw [wp_bind, wp_get]
    split
    · rename_i herr
      obtain ⟨f, hf⟩ := Option.isSome_iff_exists.mp herr
      exact reconnectAfterUpdate_announced H (by simpa [connected, hf] using h₁)
    · exact trivial

theorem execRetry_eq (cmd : Cmd) (u : Option ConnId) :
    execRetry H cmd u = (do
      match ← retryTarget H cmd with
      | none => pure ⟨.done none, u⟩
      | some n => connectOrUpdate H cmd n u) := by
  unfold execRetry retryTarget
  rw [bind_assoc]
  refine bind_congr fun r => ?_
  cases r with
  | some n => rfl
  | none =>
    dsimp only
    rw [bind_assoc]
    refine bind_congr fun s => ?_
    cases s with
    | err => rfl
    | ok => rfl

theorem retryTarget_reports (cmd : Cmd) (w : World ω) :
    wp (retryTarget H cmd) (fun r w' => r = none → w'.Failed) w := by
  unfold retryTarget
  rw [wp_bind]
  refine wp_mono (wp_and (nodeGetByTable_reports _ w) (nodeGetByTable_some _ w)) fun r w₁ h₁ => ?_
  cases r with
  | some n => exact fun h => by cases h
  | none =>
    dsimp only
    rw [wp_bind]
    refine wp_mono (redisClusterUpdateSlotmap_told H w₁) fun r w₂ h₂ => ?_
    cases r with
    | err =>
      -- the failed search has set an error, so the update cannot be silent
      refine fun _ => h₂.mpr ?_
      have hw₁ : w₁.cc.err.isNone = false := by
        rw [Bool.eq_false_iff, ne_eq, Option.isNone_iff_eq_none]
        exact h₁.1 rfl
      simp [silent, hw₁]
    | ok => exact nodeGetByTable_reports _ w₂

theorem execRetry_announced {cmd : Cmd} {u : Option ConnId} {w : World ω}
    (h : voiced H cmd (⟨.retry, u⟩, w) = true) :
    wp (execRetry H cmd u) (fun e w' => Announced e w') w := by
  have h' : wp (retryTarget H cmd) (fun r w₁ => ∀ n, r = some n →
      wp (lookupNode H n) (fun r w' => (connected r w' || !silent H w') = true) w₁) w := by
    intro n hn
    simp only [voiced, hn] at h
    exact h
  rw [execRetry_eq, wp_bind]
  refine wp_mono (wp_and (retryTarget_reports H cmd w) h') fun r w₁ h₁ => ?_
  cases r with
  | none => exact h₁.1 rfl
  | some n => exact connectOrUpdate_announced H (h₁.2 n rfl)

theorem execReadFailed_announced {c : ConnId} {u : Option ConnId} {w : World ω}
    (h : (w.conns c).err ≠ none) :
    wp (execReadFailed c u) (fun e w' => Announced e w') w := by
  unfold execReadFailed
  rw [wp_bind]
  refine wp_mono (show wp _ (fun _ w' => w'.Failed) w from copyError_failed h) fun _ w₁ h₁ => ?_
  rw [wp_bind, wp_get]
  split
  · exact h₁
  · exact h₁

theorem getNodeFromRedirectReply_reports (str : Bytes) (w : World ω) :
    wp (getNodeFromRedirectReply str) (fun r w' => r.1 = none → w'.Failed) w := by
  unfold getNodeFromRedirectReply
  rw [wp_bind, wp_get]
  split
  · split
    · exact fun _ => failed_setError
    · split
      · exact fun _ => failed_setError
      · dsimp only
        split
        · exact fun h => by cases h
        · rw [wp_bind]
          refine wp_mono (P := fun _ _ => True) trivial fun n w₁ _ => ?_
          split
          · exact fun _ => failed_setError
          · exact fun h => by cases h
  · exact fun _ => failed_setError

theorem execRedirect_announced (c : ConnId) (u : Option ConnId) (type : ErrorType) (str : Bytes)
    (w : World ω) : wp (execRedirect c u type str) (fun e w' => Announced e w') w := by
  unfold execRedirect
  rw [wp_bind, wp_modifyCc, wp_bind, wp_get]
  split
  · exact failed_setError
  · split
    · unfold handleMoved
      rw [wp_bind, wp_bind]
      refine wp_mono (getNodeFromRedirectReply_reports str _) fun r w₁ h₁ => ?_
      obtain ⟨_ | n, slot⟩ := r
      · exact h₁ rfl
      · exact trivial
    · unfold handleAsk
      rw [wp_bind, wp_bind]
      refine wp_mono (getNodeFromRedirectReply_reports str _) fun r w₁ h₁ => ?_
      obtain ⟨_ | n, slot⟩ := r
      · exact h₁ rfl
      · exact trivial
    · exact trivial

theorem execReply_announced (c : ConnId) (u : Option ConnId) (a : Answer) (w : World ω) :
    wp (execReply c u a) (fun e w' => Announced e w') w := by
  unfold execReply
  split
  · exact trivial
  · exact trivial
  · exact execRedirect_announced c u _ _ w

theorem execSend_announced (cmd : Cmd) (c : ConnId) (u : Option ConnId) (w : World ω) :
    wp (execSend H cmd c u) (fun e w' => Announced e w') w := by
  unfold execSend
  rw [wp_bind]
  refine wp_mono (redisAppendCommand_conns H c _ w) fun r w₁ h₁ => ?_
  cases r with
  | err => exact copyError_failed h₁.2.2
  | ok =>
    dsimp only
    rw [wp_bind]
    refine wp_mono (P := fun _ _ => True) trivial fun u' w₂ _ => ?_
    rw [wp_bind]
    refine wp_mono (redisGetReply_conns H c _ w₂) fun r w₃ h₃ => ?_
    cases r with
    | none => exact execReadFailed_announced h₃.2.1
    | some a => exact execReply_announced c u' a w₃

theorem execMoved_announced {cmd : Cmd} {n : NodeId} {c : ConnId} {u : Option ConnId}
    {w : World ω} (h : voiced H cmd (⟨.moved n c, u⟩, w) = true) :
    wp (execMoved H n c u) (fun e w' => Announced e w') w := by
  unfold execMoved
  cases u with
  | some c' => exact trivial
  | none =>
    have h' : wp (clusterUpdateRouteSendCommand H c) (fun r w' =>
        (decide (r = .ok) || !silent H w') = true) w := h
    dsimp only
    rw [wp_bind]
    refine wp_mono h' fun r w₁ h₁ => ?_
    cases r with
    | ok => exact trivial
    | err =>
      dsimp only
      rw [wp_bind]
      refine wp_mono (redisClusterUpdateSlotmap_told H w₁) fun r w₂ h₂ => ?_
      cases r with
      | ok => exact trivial
      | err => exact h₂.mpr (by simpa using h₁)

theorem execAsking_announced (c : ConnId) (u : Option ConnId) (w : World ω) :
    wp (execAsking H c u) (fun e w' => Announced e w') w := by
  unfold execAsking redisCommand
  rw [wp_bind, wp_bind]
  refine wp_mono (redisAppendCommand_conns H c _ w) fun r w₁ h₁ => ?_
  cases r with
  | err => exact copyError_failed h₁.2.2
  | ok =>
    refine wp_mono (redisGetReply_conns H c _ w₁) fun r w₂ h₂ => ?_
    cases r with
    | none => exact copyError_failed h₂.2.1
    | some a => exact trivial

theorem execDone_announced {cmd : Cmd} {r : Option Answer} {u : Option ConnId} {w : World ω}
    (hv : voiced H cmd (⟨.done r, u⟩, w) = true) (h : Announced ⟨.done r, u⟩ w) :
    wp (execDone H r u) (fun e w' => Announced e w') w := by
  have hret : ∀ {u' : Option ConnId} {w' : World ω}, (r = none → w'.Failed) →
      Announced ⟨.ret r, u'⟩ w' := by
    intro u' w' h'
    cases r with
    | none => exact h' rfl
    | some a => exact trivial
  have hfail : r = none → w.Failed := by
    rintro rfl
    exact h
  unfold execDone
  cases u with
  | none => exact hret hfail
  | some c =>
    have hv' : wp (clusterUpdateRouteHandleReply H c) (fun s w' => (decide (s = .ok) ||
        (!silent H (clearError w').2 && (r.isSome ||
          decide ((redisClusterUpdateSlotmap H (clearError w').2).1 = .err)))) = true)
        (record (.deferred c (decide (w.Held c))) w).2 := hv
    dsimp only
    rw [wp_bind, wp_get, wp_bind, wp_record, wp_bind]
    refine wp_mono (wp_and hv' (clusterUpdateRouteHandleReply_reports H c _)) fun s w₁ h₁ => ?_
    cases s with
    | ok => exact hret fun hr => h₁.2 (hfail hr)
    | err =>
      obtain ⟨hsil, hor⟩ := Bool.and_eq_true_iff.mp ((Bool.or_eq_true_iff.mp h₁.1).resolve_left
        (by decide))
      have hor' : wp (redisClusterUpdateSlotmap H) (fun s _ =>
          (r.isSome || decide (s = .err)) = true) (clearError w₁).2 := hor
      rw [wp_bind]
      show wp (redisClusterUpdateSlotmap H >>= _) _ (clearError w₁).2
      rw [wp_bind]
      refine wp_mono (wp_and hor' (redisClusterUpdateSlotmap_told H _)) fun s w₂ h₂ => ?_
      cases s with
      | ok =>
        refine hret fun hr => ?_
        have := h₂.1
        simp [hr] at this
      | err => exact h₂.2.mpr (by simpa using hsil)

/-- **A step that is not one of the mute ones keeps failures announced.** -/
theorem execStep_announced {cmd : Cmd} {e : Exec} {w : World ω}
    (hv : voiced H cmd (e, w) = true) (h : Announced e w) :
    wp (execStep H cmd e) (fun e' w' => Announced e' w') w := by
  obtain ⟨pc, u⟩ := e
  cases pc with
  | retry => exact execRetry_announced H hv
  | send c => exact execSend_announced H cmd c u w
  | moved n c => exact execMoved_announced H hv
  | follow n ask =>
    refine connectOrFail_announced H (fun c w' => ?_) hv
    cases ask with
    | true => exact trivial
    | false => exact trivial
  | asking c => exact execAsking_announced H c u w
  | done r => exact execDone_announced H hv h
  | ret r => exact h

theorem redisClusterCommandExecute_reports {cmd : Cmd} {w : World ω}
    (hv : ∀ k, voiced H cmd (execAt H cmd w k) = true) :
    wp (redisClusterCommandExecute H cmd) (fun r w' => r = none → w'.Failed) w := by
  have hrun := Machine.iterate_guarded (f := execNext H cmd)
    (I := fun s => Announced s.1 s.2) (G := fun s => voiced H cmd s = true)
    (fun s hs hI => execStep_announced H hs hI) hv (s := (execStart, w)) trivial (execFuel w)
  change Announced (execAt H cmd w (execFuel w)).1 (execAt H cmd w (execFuel w)).2 at hrun
  obtain ⟨r, hr⟩ := execAt_returned H cmd w
  intro (hnone : (execAt H cmd w (execFuel w)).1.result = none)
  simp only [Exec.result, hr] at hnone
  subst hnone
  simp only [Announced, hr] at hrun
  exact hrun

/-! ## Whole commands -/

/-- The part of `redisClusterFormattedCommand` before the command is executed. -/
def formatCommand (cmd : Bytes) : Prog ω (ℤ × Request) := do
  resetError
  let id ← commandGet
  commandFormatBySlot { id, cmd }

/-- The runs of the command loop over the fragments: the command of each, and the
state it starts in. -/
def fragmentRuns : List Cmd → World ω → List (Cmd × World ω)
  | [], _ => []
  | f :: fs, w =>
    let t := redisClusterCommandExecute H f w
    (f, w) :: match t.1.map Answer.reply with
      | none => []
      | some (.error _) => []
      | some _ => fragmentRuns fs t.2

/-- The runs of the command loop that a formatted command comes to. -/
def commandRuns (cmd : Bytes) (w : World ω) : List (Cmd × World ω) :=
  let t := formatCommand cmd w
  match t.1.2.subCommands with
  | none => [(t.1.2.toCmd, t.2)]
  | some frags => fragmentRuns H frags t.2

/-- The slot of a split command is that of its last key. -/
theorem commandPreFragment_slot {command : Request} (h : command.keys ≠ []) (w : World ω) :
    wp (commandPreFragment command) (fun r _ => 0 ≤ r.1) w := by
  have hlast : 0 ≤ ((command.keys.map fun k => (keyHashSlot (k.bytes command.cmd) : ℤ)).getLast?).getD
      (-1) := by
    rw [List.getLast?_map, List.getLast?_eq_getLast_of_ne_nil h]
    exact Int.natCast_nonneg _
  unfold commandPreFragment
  rw [wp_bind, wp_get, wp_bind, wp_modify]
  split
  · exact hlast
  · exact hlast

theorem formatCommand_reports {cmd : Bytes} (hcmd : cmd ≠ []) (w : World ω) :
    wp (formatCommand cmd) (fun r w' => r.1 < 0 → w'.Failed) w := by
  unfold formatCommand commandFormatBySlot
  rw [wp_bind]
  refine wp_mono (P := fun _ _ => True) trivial fun _ w₁ _ => ?_
  rw [wp_bind]
  refine wp_mono (P := fun _ _ => True) trivial fun id w₂ _ => ?_
  rw [if_neg hcmd]
  split
  · exact fun _ => failed_setError
  · dsimp only
    split
    · exact fun _ => failed_setError
    · exact fun h => absurd (Int.natCast_nonneg _) (Int.not_le.mpr h)
    · rename_i hne _
      refine wp_mono (commandPreFragment_slot hne w₂) fun r w' hr h => ?_
      exact absurd hr (Int.not_le.mpr h)

theorem checkReplies_ne_null {type : CmdType} {rs : List (Option Reply)} :
    ∀ {count : ℤ} {m : Merge}, (∀ r ∈ rs, r ≠ none) → checkReplies type count rs = .error m →
      m ≠ .null := by
  induction rs with
  | nil =>
    intro count m _ h
    cases h
  | cons r rs ih =>
    intro count m hrs h
    have hrest : ∀ r ∈ rs, r ≠ none := fun r hr => hrs r (List.mem_cons_of_mem _ hr)
    cases r with
    | none => exact absurd rfl (hrs none (List.mem_cons_self))
    | some r =>
      unfold checkReplies at h
      split at h
      · cases h
      · rename_i heq
        cases heq
      · obtain rfl := Except.error.inj h
        exact fun h => by cases h
      · rename_i heq
        obtain ⟨-, rfl⟩ := List.cons_eq_cons.mp heq
        split at h
        · exact ih hrest h
        · obtain rfl := Except.error.inj h
          exact fun h => by cases h

theorem mergeReplies_ne_null {type : CmdType} {fragSeq : List ℤ}
    {frags : List (Cmd × Option Reply)} (h : ∀ p ∈ frags, p.2 ≠ none) :
    mergeReplies type fragSeq frags ≠ .null := by
  have h' : ∀ r ∈ frags.map Prod.snd, r ≠ none := by
    intro r hr
    obtain ⟨p, hp, rfl⟩ := List.mem_map.mp hr
    exact h p hp
  unfold mergeReplies
  split
  · rename_i hm
    exact checkReplies_ne_null h' hm
  · split
    · split
      · exact fun h => by cases h
      · exact fun h => by cases h
    · exact fun h => by cases h
    · exact fun h => by cases h

theorem commandPostFragment_reports {type : CmdType} {fragSeq : List ℤ}
    {frags : List (Cmd × Option Reply)} (h : ∀ p ∈ frags, p.2 ≠ none) (w : World ω) :
    wp (commandPostFragment type fragSeq frags) (fun r w' => r = none → w'.Failed) w := by
  unfold commandPostFragment
  split
  · exact fun h => by cases h
  · rename_i hm
    exact absurd hm (mergeReplies_ne_null h)
  · exact fun _ => failed_setError

/-- Executing the fragments fails with an error set, or gives a reply for each. -/
theorem executeFragments_reports {frags : List Cmd} : ∀ {executed : List (Cmd × Option Reply)}
    {w : World ω}, (∀ p ∈ executed, p.2 ≠ none) →
    (∀ p ∈ fragmentRuns H frags w, ∀ k, voiced H p.1 (execAt H p.1 p.2 k) = true) →
    wp (executeFragments H executed frags) (fun r w' => match r with
      | .failed => w'.Failed
      | .error _ => True
      | .replies rs => ∀ p ∈ rs, p.2 ≠ none) w := by
  induction frags with
  | nil => exact fun h _ => h
  | cons f fs ih =>
    intro executed w hdone hv
    have hexec := redisClusterCommandExecute_reports H (hv (f, w) (List.mem_cons_self))
    have hrest : wp (redisClusterCommandExecute H f) (fun r w₁ => ∀ p ∈
        (match r.map Answer.reply with
        | none => []
        | some (.error _) => []
        | some _ => fragmentRuns H fs w₁), ∀ k, voiced H p.1 (execAt H p.1 p.2 k) = true) w :=
      fun p hp => hv p (List.mem_cons_of_mem _ hp)
    unfold executeFragments
    rw [wp_bind]
    refine wp_mono (wp_and hexec hrest) fun r w₁ h₁ => ?_
    cases r with
    | none => exact h₁.1 rfl
    | some a =>
      dsimp only
      split
      · exact trivial
      · rename_i herr
        refine ih ?_ fun p hp => h₁.2 p ?_
        · intro p hp
          rcases List.mem_append.mp hp with hp | hp
          · exact hdone p hp
          · obtain rfl := List.mem_singleton.mp hp
            exact Option.some_ne_none _
        · dsimp only [Option.map_some]
          split
          · rename_i heq
            cases heq
          · rename_i heq
            exact absurd (Option.some.inj heq) (herr _)
          · exact hp

theorem executeFormatted_reports {command : Request} {w : World ω}
    (hv : ∀ p ∈ (match command.subCommands with
      | none => [(command.toCmd, w)]
      | some frags => fragmentRuns H frags w), ∀ k, voiced H p.1 (execAt H p.1 p.2 k) = true) :
    wp (executeFormatted H command) (fun r w' => r = none → w'.Failed) w := by
  unfold executeFormatted
  cases hs : command.subCommands with
  | none =>
    rw [hs] at hv
    dsimp only
    rw [wp_bind]
    refine wp_mono (redisClusterCommandExecute_reports H
      (hv (command.toCmd, w) (List.mem_singleton.mpr rfl))) fun r w' h hr => h ?_
    exact Option.map_eq_none_iff.mp hr
  | some frags =>
    rw [hs] at hv
    dsimp only
    rw [wp_bind]
    refine wp_mono (executeFragments_reports H (by simp) hv) fun r w' h => ?_
    cases r with
    | failed => exact fun _ => h
    | error r => exact fun h => by cases h
    | replies rs => exact commandPostFragment_reports h w'

theorem redisClusterFormattedCommand_eq (cmd : Bytes) :
    redisClusterFormattedCommand H cmd = (do
      let (slotNum, command) ← formatCommand cmd
      if slotNum < 0 then do
        modifyCc fun cc => { cc with retryCount := 0 }
        pure none
      else if redisClusterSlots ≤ slotNum.toNat then do
        setError (some .other) (.lit "slot_num is out of range")
        modifyCc fun cc => { cc with retryCount := 0 }
        pure none
      else do
        let r ← executeFormatted H command
        modifyCc fun cc => { cc with retryCount := 0 }
        pure r) := rfl

/-- **A failed blocking command reports an error**, if none of the steps of its
command loops is one that may fail without an error; **a failed update of the slot
map reports an error** exactly if it is not silent. -/
theorem redisClusterFormattedCommand_reports (H : Hiredis ω) (w : World ω) :
    (∀ cmd : Bytes, cmd ≠ [] →
      (∀ p ∈ commandRuns H cmd w, ∀ k, voiced H p.1 (execAt H p.1 p.2 k) = true) →
      wp (redisClusterFormattedCommand H cmd) (fun r w' => r = none → w'.Failed) w) ∧
    (wp (redisClusterUpdateSlotmap H) (fun r w' => r = .err → w'.Failed) w ↔
      silent H w = false) := by
  constructor
  · intro cmd hcmd hv
    rw [redisClusterFormattedCommand_eq, wp_bind]
    have hformat := formatCommand_reports hcmd w
    unfold commandRuns at hv
    unfold wp at hformat ⊢
    generalize formatCommand cmd w = t at hformat hv ⊢
    obtain ⟨⟨slotNum, command⟩, w₁⟩ := t
    dsimp only at hformat hv ⊢
    split
    · exact fun _ => hformat ‹_›
    · split
      · exact fun _ => Option.some_ne_none Err.other
      · exact executeFormatted_reports H hv
  · have htold := redisClusterUpdateSlotmap_told H w
    unfold wp at htold ⊢
    cases hr : (redisClusterUpdateSlotmap H w).1 with
    | ok =>
      rw [hr] at htold
      exact iff_of_true (fun h => by cases h) htold
    | err =>
      rw [hr] at htold
      dsimp only at htold
      rw [← htold]
      exact ⟨fun h => h rfl, fun h _ => h⟩

/-- The command `GET k`. -/
def getK : Bytes := ascii "*2\r\n$3\r\nGET\r\n$1\r\nk\r\n"

/-- A node that serves the slot of `k` alone. -/
def topologyOfK : Reply := .string (ascii "i a:1 master - 0 0 1 connected 7629\n")

/-- A redirect that cannot be parsed is reported. -/
theorem redisClusterFormattedCommand_reports_moved :
    (redisClusterFormattedCommand Hiredis.scripted getK
      (oneNode [topologyOfK, .error (ascii "MOVED 7629")])).2.Failed := by
  have hs : (formatCommand getK (oneNode [topologyOfK, .error (ascii "MOVED 7629")])).1.2.subCommands =
      none := by decide +kernel
  refine (redisClusterFormattedCommand_reports Hiredis.scripted _).1 getK (by decide) ?_
    (by decide +kernel)
  intro p hp
  simp only [commandRuns, hs, List.mem_singleton] at hp
  subst hp
  refine execAt_forall (P := fun s => voiced Hiredis.scripted _ s = true) Hiredis.scripted 3 ?_ ?_
  · decide +kernel
  · decide +kernel

/-- A blocking command that fails leaves an error, and so does an update of the slot
map that fails. -/
def FailuresReported (H : Hiredis ω) (w : World ω) : Prop :=
  (∀ cmd : Bytes, cmd ≠ [] →
    wp (redisClusterFormattedCommand H cmd) (fun r w' => r = none → w'.Failed) w) ∧
  wp (redisClusterUpdateSlotmap H) (fun r w' => r = .err → w'.Failed) w

/-- **A redirect to port zero ends the command without an error.** -/
theorem movedToPortZero_not_reported :
    ¬ FailuresReported Hiredis.scripted
      (oneNode [topologyOfK, .error (ascii "MOVED 7629 b:0"), topologyOfK]) := by
  intro h
  have hw := h.1 getK (by decide)
  have hr : (redisClusterFormattedCommand Hiredis.scripted getK
      (oneNode [topologyOfK, .error (ascii "MOVED 7629 b:0"), topologyOfK])).1.isNone = true := by
    decide +kernel
  exact absurd (hw (Option.isNone_iff_eq_none.mp hr)) (by decide +kernel)
