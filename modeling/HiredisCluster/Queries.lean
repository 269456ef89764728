/-
# Topology queries of the asynchronous API

`acc->lastSlotmapUpdateAttempt` is `SLOTMAP_UPDATE_ONGOING` while a topology query is on
its way, and a time stamp otherwise.  The mark is set where the query is submitted and
replaced by a time stamp where its reply arrives; here it is shown to count the queries
that hiredis has accepted and not yet answered.

hiredis does not run a callback inside the submitting call, and the clock never shows
`SLOTMAP_UPDATE_ONGOING`.
-/
import HiredisCluster.Client

open Program

variable {ω : Type}

/-- `clusterSlotsReplyCallback` or `clusterNodesReplyCallback`. -/
def ACallback.isTopology : ACallback → Bool
  | .topology _ => true
  | _ => false

/-- The number of topology queries accepted by hiredis whose callback was not run. -/
def World.queries (w : World ω) : ℕ := w.inflight.countP fun p => p.2.isTopology

/-- The mark is as the queries are. -/
def Marked (w : World ω) : Prop :=
  w.queries = if w.acc.lastSlotmapUpdateAttempt = slotmapUpdateOngoing then 1 else 0

/-- A step that has nothing to do with topology queries. -/
structure Unqueried (w w' : World ω) : Prop where
  queries : w'.queries = w.queries
  attempt : w'.acc.lastSlotmapUpdateAttempt = w.acc.lastSlotmapUpdateAttempt

theorem Unqueried.refl (w : World ω) : Unqueried w w := ⟨rfl, rfl⟩

theorem Unqueried.trans {w w' w'' : World ω} (h : Unqueried w w') (h' : Unqueried w' w'') :
    Unqueried w w'' :=
  ⟨h'.queries.trans h.queries, h'.attempt.trans h.attempt⟩

instance : Std.Refl (@Unqueried ω) := ⟨Unqueried.refl⟩

instance : IsTrans (World ω) Unqueried := ⟨fun _ _ _ => Unqueried.trans⟩

theorem Unqueried.marked {w w' : World ω} (h : Unqueried w w') (hm : Marked w) : Marked w' := by
  rw [Marked, h.queries, h.attempt]
  exact hm

theorem Marked.none {w : World ω} (hm : Marked w)
    (h : w.acc.lastSlotmapUpdateAttempt ≠ slotmapUpdateOngoing) : w.queries = 0 := by
  rw [hm, if_neg h]

/-! ## Steps beside the queries -/

theorem unqueried_of_lawful {w w' : World ω} (h : Lawful w w') : Unqueried w w' := by
  constructor
  · rw [World.queries, h.inflight]
    rfl
  · rw [h.acc]

theorem unqueried_of_eq {w w' : World ω} (hin : w'.inflight = w.inflight)
    (hacc : w'.acc.lastSlotmapUpdateAttempt = w.acc.lastSlotmapUpdateAttempt) : Unqueried w w' :=
  ⟨congrArg (List.countP _) hin, hacc⟩

theorem unqueried_modifyAcc {f : AsyncContext → AsyncContext} (hf : Notes f) :
    Within Unqueried (modifyAcc f : Prog ω Unit) := by
  intro w
  obtain ⟨e, s, l, c, x, -, heq⟩ := hf w.acc
  refine unqueried_of_eq rfl ?_
  show (f w.acc).lastSlotmapUpdateAttempt = _
  rw [heq]

/-- What is appended to the submissions is no topology query. -/
theorem unqueried_append {w : World ω} {p : AConnId × ACallback} (hp : p.2.isTopology = false) :
    Unqueried w { w with inflight := w.inflight ++ [p] } := by
  refine ⟨?_, rfl⟩
  show (w.inflight ++ [p]).countP _ = w.inflight.countP _
  rw [List.countP_append, List.countP_singleton, hp]
  simp

theorem unqueried_redisAsyncFree (a : AConnId) :
    Within Unqueried (redisAsyncFree a : Prog ω Unit) := by
  refine within_bind (fun _ => unqueried_of_eq rfl rfl) fun _ w => ⟨?_, rfl⟩
  -- only AUTH and ASKING are taken off, which have no callback
  show (w.inflight.filter fun p => p ≠ (a, .null)).countP _ = w.inflight.countP _
  rw [List.countP_filter]
  refine List.countP_congr fun p _ => ?_
  have hnull : p.2.isTopology = true → p ≠ (a, .null) := by
    rintro hp rfl
    cases hp
  simpa using hnull

section Submissions

variable (H : Hiredis ω)

theorem unqueried_submitTo (a : AConnId) {cb : ACallback} (hcb : cb.isTopology = false) (q : Sent) :
    Within Unqueried (submitTo H a cb q) := by
  refine within_bind within_get fun w => within_ite (within_pure _)
    (within_bind (fun _ => unqueried_of_eq rfl rfl) fun r => ?_)
  cases r with
  | accepted => exact within_bind (fun _ => unqueried_append hcb) fun _ => within_pure _
  | rejected f => exact within_bind (fun _ => unqueried_of_eq rfl rfl) fun _ => within_pure _

theorem unqueried_redisAsyncCommand (a : AConnId) {cb : ACallback} (hcb : cb.isTopology = false)
    (q : Sent) : Within Unqueried (redisAsyncCommand H a cb q) :=
  within_bind (unqueried_submitTo H a hcb q) fun _ =>
    within_bind (fun _ => unqueried_of_eq rfl rfl) fun _ => within_pure _

instance : ReachClosed H (@Unqueried ω) where
  ask _ _ := unqueried_of_eq rfl rfl
  failed _ _ _ := unqueried_of_eq rfl rfl
  asyncSetError _ _ _ := unqueried_of_eq rfl rfl
  sendNull a q := unqueried_redisAsyncCommand H a rfl q
  attempted _ _ _ := unqueried_of_eq rfl rfl
  newAConn _ _ _ _ := unqueried_of_eq rfl rfl
  redisAsyncFree := unqueried_redisAsyncFree
  linkAsync _ _ _ := unqueried_of_eq rfl rfl
  noNodes _ := unqueried_of_eq rfl rfl

/-! ## Submitting a query, and its reply -/

/-- The query is counted if and only if it is accepted. -/
theorem submitTopologyQuery_queries (a : AConnId) (w : World ω) :
    wp (submitTopologyQuery H a) (fun s w' =>
      w'.acc.lastSlotmapUpdateAttempt = w.acc.lastSlotmapUpdateAttempt ∧
        w'.queries = w.queries + if s = .ok then 1 else 0) w := by
  unfold submitTopologyQuery redisAsyncCommand submitTo
  simp only [wp_bind, wp_get]
  split
  · exact ⟨rfl, rfl⟩
  · rw [wp_bind, wp_ask]
    split
    · refine ⟨rfl, ?_⟩
      show (w.inflight ++ [_]).countP _ = w.inflight.countP _ + 1
      rw [List.countP_append, List.countP_singleton]
      rfl
    · exact ⟨rfl, rfl⟩

variable {H} (hclock : ∀ e, (H.now e).1 ≠ slotmapUpdateOngoing)
include hclock

/-- With no query on its way, a time stamp is the right mark. -/
theorem stampSlotmapUpdate_marked {w : World ω} (h : w.queries = 0) :
    wp (stampSlotmapUpdate H) (fun _ w' => Marked w') w := by
  show w.queries = if (H.now w.env).1 = slotmapUpdateOngoing then 1 else 0
  rw [h, if_neg (hclock w.env)]

theorem updateSlotMapAsync_marked (a : Option AConnId) : Keeps Marked (updateSlotMapAsync H a) := by
  intro w hm
  show wp (updateSlotMapAsync H a) (fun _ w' => Marked w') w
  unfold updateSlotMapAsync
  rw [wp_bind, wp_get]
  split
  · exact hm
  · rename_i hidle
    have hnone := hm.none fun h => hidle (Or.inl h)
    rw [wp_bind]
    refine wp_mono (Within.wp (R := Unqueried) (within_updateTarget H a) w) fun a w₁ h₁ => ?_
    have hnone₁ : w₁.queries = 0 := h₁.queries.trans hnone
    cases a with
    | none => exact stampSlotmapUpdate_marked hclock hnone₁
    | some a =>
      dsimp only
      rw [wp_bind]
      refine wp_mono (submitTopologyQuery_queries H a w₁) fun s w₂ h₂ => ?_
      rw [hnone₁] at h₂
      cases s with
      | ok =>
        show w₂.queries = if slotmapUpdateOngoing = slotmapUpdateOngoing then 1 else 0
        rw [h₂.2]
        simp
      | err => exact stampSlotmapUpdate_marked hclock (by simpa using h₂.2)

/-- The reply of the only query arrives: from here on there is none, or a new one. -/
theorem topologyReplyCallback_marked (a : AConnId) (useSlots : Bool) (reply : Option Reply)
    {w : World ω} (h : w.queries = 0) :
    wp (topologyReplyCallback H a useSlots reply) (fun _ w' => Marked w') w := by
  have hagain : Keeps Marked (do
      let _ ← updateSlotMapAsync H none
      pure false) :=
    within_bind (updateSlotMapAsync_marked hclock none) fun _ => within_pure _
  unfold topologyReplyCallback
  rw [wp_bind]
  refine wp_mono (stampSlotmapUpdate_marked hclock h) fun _ w₁ hm₁ => ?_
  split
  · exact hagain w₁ hm₁
  · rename_i r
    rw [wp_bind, wp_get, wp_bind]
    refine wp_mono (parseTopology_fresh useSlots (w₁.aconns a).host r w₁) fun nodes w₂ h₂ => ?_
    have hm₂ := (unqueried_of_lawful h₂.1.lawful).marked hm₁
    cases nodes with
    | none => exact hagain w₂ hm₂
    | some d =>
      dsimp only
      rw [wp_bind]
      refine wp_mono (installNodes_updates h₂.1 (h₂.2 d rfl)) fun s w₃ h₃ => ?_
      have hm₃ := (unqueried_of_lawful h₃.lawful).marked hm₁
      cases s with
      | ok => exact hm₃
      | err => exact hagain w₃ hm₃

end Submissions

/-! ## Whole runs -/

instance : LibClosed (Keeping (@Marked ω)) :=
  LibClosed.of_lawful fun _ _ h => (unqueried_of_lawful h).marked

instance : CommandClosed (Keeping (@Marked ω)) :=
  CommandClosed.of_lawful fun _ _ h => (unqueried_of_lawful h).marked

theorem keeps_of_unqueried {α : Type} {m : Prog ω α} (h : Within Unqueried m) : Keeps Marked m :=
  h.mono fun _ _ h => h.marked

theorem unqueried_redisClusterFree : Within Unqueried (redisClusterFree : Prog ω Unit) := by
  refine within_bind (fun _ => unqueried_of_eq rfl rfl) fun _ => within_bind within_get fun w =>
    within_bind (fun _ => unqueried_of_eq rfl rfl) fun _ => ?_
  split
  · exact within_pure _
  · exact (within_dictRelease (R := Calm) _).mono fun _ _ h => unqueried_of_lawful h.lawful

section Runs

variable {H : Hiredis ω} (hclock : ∀ e, (H.now e).1 ≠ slotmapUpdateOngoing)
include hclock

theorem asyncClosed_marked : AsyncClosed H (Keeping (@Marked ω)) where
  toCallClosed := CallClosed.of_lawful H fun _ _ h => (unqueried_of_lawful h).marked
  modifyAcc hf := keeps_of_unqueried (unqueried_modifyAcc hf)
  modifyCad _ _ := keeps_of_unqueried fun _ => unqueried_of_eq rfl rfl
  newCad _ := keeps_of_unqueried fun _ => unqueried_of_eq rfl rfl
  send a cb q hcb := keeps_of_unqueried (unqueried_redisAsyncCommand H a (by
    cases cb with
    | topology b => exact absurd rfl (hcb b)
    | null => rfl
    | user k => rfl) q)
  actxGetByNode n := keeps_of_unqueried (within_actxGetByNode H n)
  updateSlotMapAsync := updateSlotMapAsync_marked hclock
  shutdown _ := keeps_of_unqueried fun _ => unqueried_of_eq rfl rfl
  disconnectNode n := keeps_of_unqueried (by
    refine within_bind within_get fun w => ?_
    split
    · exact within_pure _
    · exact fun _ => unqueried_of_eq rfl rfl)

omit hclock in
/-- Taking a callback off a connection, a query is one less. -/
theorem takeCallback_queries {a : AConnId} {cb : ACallback} {w : World ω}
    (h : w.oldest a = some cb) :
    (takeCallback a w).2.queries = w.queries - if cb.isTopology then 1 else 0 := by
  obtain ⟨before, after, hin, htake⟩ := World.oldest_split h
  rw [World.queries, World.queries, htake, hin]
  simp only [List.countP_append, List.countP_cons]
  omega

theorem act_marked {c : Client ω} (hm : Marked c.world) (x : ClientAction) :
    Marked (act H c x).world := by
  have := asyncClosed_marked hclock
  cases x with
  | call op =>
    exact Call.within_run (R := Keeping Marked) H op (fun addr _ => LibClosed.addNode addr)
      (fun _ => keeps_of_unqueried unqueried_redisClusterFree) _ hm
  | connected a => exact hm
  | failed a f => exact hm
  | deliver a reply =>
    unfold act
    dsimp only
    split
    · exact hm
    · rename_i cb hcb
      have htake := takeCallback_queries hcb
      cases htop : cb.isTopology with
      | true =>
        obtain ⟨b, rfl⟩ : ∃ b, cb = .topology b := by
          cases cb with
          | topology b => exact ⟨b, rfl⟩
          | null => cases htop
          | user k => cases htop
        have hle : c.world.queries ≤ 1 := by
          rw [hm]
          split <;> omega
        have hzero : (takeCallback a c.world).2.queries = 0 := by
          rw [htake, htop]
          simp only [if_true]
          omega
        show wp (topologyReplyCallback H a b reply >>= _) (fun _ w' => Marked w') _
        rw [wp_bind]
        refine wp_mono (topologyReplyCallback_marked hclock a b reply hzero) fun r w' h => ?_
        cases r with
        | true => exact h
        | false => exact h
      | false =>
        refine within_runCallback (R := Keeping Marked) H a reply (fun b hb => ?_) _ ?_
        · rw [hb] at htop
          cases htop
        · have hsame : (takeCallback a c.world).2.queries = c.world.queries := by
            rw [htake, htop]
            rfl
          exact Unqueried.marked (w := c.world) ⟨hsame, rfl⟩ hm
  | free a => exact hm
  | closed a =>
    refine keeps_of_unqueried (within_bind within_get fun w => ?_) c.world hm
    have hend : ∀ f : AConn → AConn, Within Unqueried (modifyAConn a f : Prog ω Unit) :=
      fun _ _ => unqueried_of_eq rfl rfl
    split
    · exact hend _
    · exact within_bind (fun _ => unqueried_of_eq rfl rfl) fun _ => hend _
  | ret =>
    unfold act
    dsimp only
    split
    · exact hm
    · exact within_resume (R := Keeping Marked) H _ _ hm

/-- **At most one topology query is on its way**: the mark in `lastSlotmapUpdateAttempt`
counts the queries that were accepted and whose callback has not started. -/
theorem Reachable.queries_eq_mark {c : Client ω} (h : Reachable H c) :
    c.world.queries =
      if c.world.acc.lastSlotmapUpdateAttempt = slotmapUpdateOngoing then 1 else 0 := by
  refine Reaches.invariant H (I := fun c => Marked c.world) (fun w hw => ?_)
    (fun _ x _ _ hm => act_marked hclock hm x) h
  rw [Marked, World.queries, hw.inflight, hw.lastSlotmapUpdateAttempt]
  rfl

end Runs

/-- After `redisClusterAsyncConnect2` a query is on its way. -/
theorem Reachable.queries_eq_mark_connect :
    (perform Hiredis.atWork (newAsyncClient []) asyncConnect).world.queries = 1 := by
  have hreach := Reaches.perform Hiredis.atWork (reaches_newAsyncClient _ _ []) asyncConnect
    (by decide +kernel)
  have hmark : (perform Hiredis.atWork (newAsyncClient [])
      asyncConnect).world.acc.lastSlotmapUpdateAttempt = slotmapUpdateOngoing := by decide +kernel
  rw [Reachable.queries_eq_mark atWork_clock hreach, hmark]
  rfl
