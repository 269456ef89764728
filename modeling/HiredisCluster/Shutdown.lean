/-
# A client that is shut down

`redisClusterAsyncDisconnect` and `redisClusterAsyncFree` set a flag that
`redisClusterConnect2` clears.  While it is set, whatever replies and failures come in and
whatever the user's callbacks call, no asynchronous connection is opened and nothing is
handed to hiredis.
-/
import HiredisCluster.Client

open Program

variable {ω : Type}

/-- As long as the client is shut down, it stays so, opens no asynchronous connection and
hands nothing to hiredis. -/
def Hushed (w w' : World ω) : Prop :=
  w.cc.shutdown = true →
    w'.cc.shutdown = true ∧ w'.nextAConn = w.nextAConn ∧ w'.acc.handed = w.acc.handed

instance : Std.Refl (@Hushed ω) := ⟨fun _ h => ⟨h, rfl, rfl⟩⟩

instance : IsTrans (World ω) Hushed where
  trans _ _ _ h h' hs :=
    have h₁ := h hs
    have h₂ := h' h₁.1
    ⟨h₂.1, h₂.2.1.trans h₁.2.1, h₂.2.2.trans h₁.2.2⟩

theorem Lawful.hushed {w w' : World ω} (h : Lawful w w') : Hushed w w' := fun hs =>
  ⟨h.shutdown.trans hs, h.nextAConn, by rw [h.acc]⟩

instance : LibClosed (@Hushed ω) := LibClosed.of_lawful fun _ _ => Lawful.hushed

instance : CommandClosed (@Hushed ω) := CommandClosed.of_lawful fun _ _ => Lawful.hushed

instance (H : Hiredis ω) : CallClosed H (@Hushed ω) := CallClosed.of_lawful H fun _ _ => Lawful.hushed

/-! ## Routines beside the submissions -/

theorem hushed_of_eq {w w' : World ω} (hcc : w'.cc.shutdown = w.cc.shutdown)
    (hnext : w'.nextAConn = w.nextAConn) (hacc : w'.acc.handed = w.acc.handed) : Hushed w w' :=
  fun hs => ⟨hcc.trans hs, hnext, hacc⟩

theorem hushed_asyncSetError (type : Option Err) (str : ErrText) :
    Within Hushed (asyncSetError type str : Prog ω Unit) :=
  fun _ => hushed_of_eq rfl rfl rfl

theorem hushed_copyAsyncError (a : AConnId) : Within Hushed (copyAsyncError a : Prog ω Unit) := by
  refine within_bind within_get fun w => ?_
  split
  · exact hushed_asyncSetError _ _
  · exact hushed_asyncSetError _ _

theorem hushed_resetAsyncError : Within Hushed (resetAsyncError : Prog ω Unit) :=
  within_bind within_get fun _ => within_ite (hushed_asyncSetError _ _) (within_pure _)

theorem hushed_callUser (k : ℕ) (r : Option Reply) : Within Hushed (callUser k r : Prog ω Bool) := by
  refine within_bind within_get fun w => ?_
  split
  · exact within_bind (fun _ => hushed_of_eq rfl rfl rfl) fun _ => within_pure _
  · exact within_bind (fun _ => hushed_of_eq rfl rfl rfl) fun _ =>
      within_bind TalkClosed.userHook fun _ => within_pure _

theorem hushed_finishCallback : Within Hushed (finishCallback : Prog ω Unit) :=
  within_bind within_resetError fun _ => hushed_resetAsyncError

theorem hushed_redisClusterAsyncDisconnect :
    Within Hushed (redisClusterAsyncDisconnect : Prog ω Unit) := by
  refine within_bind (fun _ _ => ⟨rfl, rfl, rfl⟩) fun _ => within_bind within_get fun w => ?_
  split
  · exact within_pure _
  · refine within_forEach (fun n => within_bind within_get fun w => ?_) _
    split
    · exact within_pure _
    · exact fun _ => hushed_of_eq rfl rfl rfl

theorem hushed_redisClusterAsyncFree : Within Hushed (redisClusterAsyncFree : Prog ω Unit) := by
  refine within_bind (fun _ _ => ⟨rfl, rfl, rfl⟩) fun _ =>
    within_bind TalkClosed.userHook fun _ => within_bind within_get fun w =>
      within_bind (fun _ => hushed_of_eq rfl rfl rfl) fun _ => ?_
  split
  · exact within_pure _
  · exact (within_dictRelease (R := Calm) _).mono fun _ _ h => h.lawful.hushed

theorem hushed_unlinkAsyncContextAndNode (a : AConnId) :
    Within Hushed (unlinkAsyncContextAndNode a : Prog ω Unit) := by
  have hend : ∀ f : AConn → AConn, Within Hushed (modifyAConn a f : Prog ω Unit) :=
    fun _ _ => hushed_of_eq rfl rfl rfl
  refine within_bind within_get fun w => ?_
  split
  · exact hend _
  · exact within_bind (fun _ => hushed_of_eq rfl rfl rfl) fun _ => hend _

/-! ## Where submissions are guarded -/

section Guards

variable (H : Hiredis ω)

theorem hushed_updateSlotMapAsync (a : Option AConnId) :
    Within Hushed (updateSlotMapAsync H a) := by
  refine within_get_bind fun w hs => ?_
  rw [if_pos (Or.inr hs)]
  exact ⟨hs, rfl, rfl⟩

theorem hushed_throttledUpdateSlotMapAsync (a : Option AConnId) :
    Within Hushed (throttledUpdateSlotMapAsync H a) :=
  within_bind within_get fun _ => within_ite (within_pure _) (within_bind (TalkClosed.ask _) fun _ =>
    within_ite (within_bind (hushed_updateSlotMapAsync H a) fun _ => within_pure _) (within_pure _))

/-- Every reply is final. -/
theorem hushed_redisClusterAsyncCallback (a : AConnId) (k : ℕ) (reply : Option Reply) :
    Within Hushed (redisClusterAsyncCallback H a k reply) := by
  unfold redisClusterAsyncCallback
  split
  · refine within_bind (hushed_copyAsyncError a) fun _ => within_bind within_get fun w => ?_
    split
    · exact hushed_callUser _ _
    · exact within_bind (hushed_throttledUpdateSlotMapAsync H _) fun _ => hushed_callUser _ _
  · rename_i r
    refine within_get_bind fun w hs => ?_
    have hfinal : w.final k r = true := by simp [World.final, hs]
    rw [if_pos hfinal]
    exact hushed_callUser k (some r) w hs

theorem hushed_topologyReplyCallback (a : AConnId) (useSlots : Bool) (reply : Option Reply) :
    Within Hushed (topologyReplyCallback H a useSlots reply) := by
  have hagain : Within Hushed (do
      let _ ← updateSlotMapAsync H none
      pure false) :=
    within_bind (hushed_updateSlotMapAsync H none) fun _ => within_pure _
  refine within_bind (fun _ => hushed_of_eq rfl rfl rfl) fun _ => ?_
  split
  · exact hagain
  · rename_i r
    refine within_get_bind fun w => ?_
    show wp _ (fun _ w' => Hushed w w') w
    rw [wp_bind]
    refine wp_mono (parseTopology_fresh useSlots (w.aconns a).host r w) fun nodes w₁ h₁ => ?_
    obtain ⟨hc, hfresh⟩ := h₁
    cases nodes with
    | none => exact IsTrans.trans _ _ _ hc.lawful.hushed (hagain w₁)
    | some d =>
      dsimp only
      rw [wp_bind]
      refine wp_mono (installNodes_updates hc (hfresh d rfl)) fun s w₂ h₂ => ?_
      cases s with
      | ok => exact h₂.lawful.hushed
      | err => exact IsTrans.trans _ _ _ h₂.lawful.hushed (hagain w₂)

/-- A command is refused before anything else is done. -/
theorem redisClusterAsyncFormattedCommand_shutdown (fn : Option ℕ) (cmd : Bytes) {w : World ω}
    (hs : w.cc.shutdown = true) : redisClusterAsyncFormattedCommand H fn cmd w =
      (.err, (asyncSetError (some .other) (.lit "client closing") w).2) := by
  show (if w.cc.shutdown then _ else _ : Prog ω Status) w = _
  rw [if_pos hs]
  rfl

theorem redisClusterAsyncFormattedCommandToNode_shutdown (n : NodeId) (fn : Option ℕ) (cmd : Bytes)
    {w : World ω} (hs : w.cc.shutdown = true) :
    redisClusterAsyncFormattedCommandToNode H n fn cmd w =
      (.err, (asyncSetError (some .other) (.lit "disconnecting") w).2) := by
  show (if w.cc.shutdown then _ else _ : Prog ω Status) w = _
  rw [if_pos hs]
  rfl

/-! ## Whole runs -/

theorem Call.hushed {op : Call} (h : op ≠ .connect2) : Within Hushed (op.run H) := by
  by_cases hb : op.blocking = true
  · exact Call.within_run_blocking H hb fun addr _ => LibClosed.addNode addr
  · cases op with
    | connect2 => exact absurd rfl h
    | asyncConnect2 =>
      exact within_drop (within_bind within_get fun _ =>
        within_ite (hushed_updateSlotMapAsync H none) (within_pure _))
    | asyncCommand fn cmd =>
      refine within_drop fun w hs => ?_
      rw [redisClusterAsyncFormattedCommand_shutdown H fn cmd hs]
      exact ⟨hs, rfl, rfl⟩
    | asyncCommandToNode n fn cmd =>
      refine within_drop fun w hs => ?_
      rw [redisClusterAsyncFormattedCommandToNode_shutdown H n fn cmd hs]
      exact ⟨hs, rfl, rfl⟩
    | asyncDisconnect => exact hushed_redisClusterAsyncDisconnect
    | asyncFree => exact hushed_redisClusterAsyncFree
    | _ => exact absurd rfl hb

theorem act_hushed (c : Client ω) {x : ClientAction} (hx : x ≠ .call .connect2) :
    Hushed c.world (act H c x).world := by
  cases x with
  | call op =>
    have hop : op ≠ .connect2 := fun h => hx (by rw [h])
    exact Call.hushed H hop c.world
  | connected a => exact hushed_of_eq rfl rfl rfl
  | failed a f => exact hushed_of_eq rfl rfl rfl
  | deliver a reply =>
    unfold act
    dsimp only
    split
    · exact Std.Refl.refl c.world
    · rename_i cb _
      refine IsTrans.trans _ (takeCallback a c.world).2 _ (hushed_of_eq rfl rfl rfl) ?_
      have hrun : Within Hushed (runCallback H a cb reply) := by
        unfold runCallback
        split
        · exact within_pure _
        · exact within_bind (hushed_topologyReplyCallback H a _ reply) fun _ =>
            within_ite (within_pure _) (within_pure _)
        · exact within_bind (hushed_redisClusterAsyncCallback H a _ reply) fun _ =>
            within_ite (within_pure _) (within_pure _)
      exact hrun _
  | free a => exact hushed_of_eq rfl rfl rfl
  | closed a => exact hushed_unlinkAsyncContextAndNode a c.world
  | ret =>
    unfold act
    dsimp only
    split
    · exact Std.Refl.refl c.world
    · rename_i f stack _
      have hrun : Within Hushed (resume f : Prog ω (List Frame)) := by
        unfold resume
        split
        · exact within_bind hushed_finishCallback fun _ => within_pure _
        · exact within_bind TalkClosed.userHook fun _ => within_pure _
        · exact within_bind (fun _ => hushed_of_eq rfl rfl rfl) fun _ => within_pure _
        · exact within_pure _
      exact hrun c.world

theorem perform_hushed (xs : List ClientAction) (hxs : .call .connect2 ∉ xs) :
    ∀ c : Client ω, Hushed c.world (perform H c xs).world := by
  induction xs with
  | nil => exact fun c => Std.Refl.refl c.world
  | cons x xs ih =>
    intro c
    have hx : x ≠ .call .connect2 := fun h => hxs (h ▸ List.mem_cons_self)
    exact IsTrans.trans _ _ _ (act_hushed H c hx)
      (ih (fun h => hxs (List.mem_cons_of_mem x h)) (act H c x))

/-- The calls that shut a client down. -/
def Call.shutsDown : Call → Bool
  | .asyncDisconnect | .asyncFree => true
  | _ => false

/-- **A client that is shut down stays quiet**: from a call that shuts it down until it is
connected again, it opens no connection, hands nothing to hiredis, and refuses every
command. -/
theorem shutdown_quiet (c : Client ω) {op : Call} (hop : op.shutsDown = true) {xs : List ClientAction}
    (hxs : .call .connect2 ∉ xs) :
    let w := (perform H c (.call op :: xs)).world
    w.nextAConn = c.world.nextAConn ∧ w.acc.handed = c.world.acc.handed ∧
      (∀ fn cmd, (redisClusterAsyncFormattedCommand H fn cmd w).1 = .err) ∧
      ∀ n fn cmd, (redisClusterAsyncFormattedCommandToNode H n fn cmd w).1 = .err := by
  -- the flag is set before anything else happens
  have hdown : ∃ w₁, w₁.cc.shutdown = true ∧ w₁.nextAConn = c.world.nextAConn ∧
      w₁.acc.handed = c.world.acc.handed ∧ Hushed w₁ (act H c (.call op)).world := by
    refine ⟨(modifyCc (fun cc => { cc with shutdown := true }) c.world).2, rfl, rfl, rfl, ?_⟩
    cases op with
    | asyncDisconnect => exact hushed_redisClusterAsyncDisconnect _
    | asyncFree => exact hushed_redisClusterAsyncFree _
    | _ => cases hop
  obtain ⟨w₁, hs, hnext, hhanded, hcall⟩ := hdown
  have hrun := IsTrans.trans _ _ _ hcall (perform_hushed H xs hxs (act H c (.call op))) hs
  refine ⟨hrun.2.1.trans hnext, hrun.2.2.trans hhanded, fun fn cmd => ?_, fun n fn cmd => ?_⟩
  · exact congrArg Prod.fst (redisClusterAsyncFormattedCommand_shutdown H fn cmd hrun.1)
  · exact congrArg Prod.fst (redisClusterAsyncFormattedCommandToNode_shutdown H n fn cmd hrun.1)

end Guards

/-- The topology query is lost after the client was shut down: it is not sent again. -/
theorem shutdown_quiet_lostQuery :
    (perform Hiredis.atWork (newAsyncClient [])
      (asyncConnect ++ [.call .asyncDisconnect, .deliver 0 none])).world.acc.handed =
        [(.topology false, .ok)] ∧
    Legal Hiredis.atWork (newAsyncClient [])
      (asyncConnect ++ [.call .asyncDisconnect, .deliver 0 none]) := by
  refine ⟨?_, by decide +kernel⟩
  have hxs : ClientAction.call .connect2 ∉ [ClientAction.deliver 0 none] := by simp
  have hop : Call.asyncDisconnect.shutsDown = true := rfl
  have hquiet := (shutdown_quiet Hiredis.atWork
    (perform Hiredis.atWork (newAsyncClient []) asyncConnect) hop hxs).2.1
  exact hquiet.trans (by decide +kernel)
