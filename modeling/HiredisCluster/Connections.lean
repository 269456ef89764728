/-
# Connections: which replies are owed, and to whom

A connection is idle when it can be used and owes no reply.  The conversations
of the client with one connection (`Talks`) start and end idle, so each reply
read is the answer to the command it was read for; everything else leaves the
connections as they are or idle (`Settles`).
-/
import HiredisCluster.Routing

open Program

variable {ω : Type}

/-! ## Idle connections and matched replies -/

/-- Connection `c` owes no reply, if it is usable at all. -/
def Idle (c : ConnId) (w : World ω) : Prop := (w.conns c).err = none → (w.conns c).queue = []

/-- Connection `c` owes no reply but possibly the one to `q`. -/
def Owes (c : ConnId) (q : Sent) (w : World ω) : Prop :=
  (w.conns c).err = none → (w.conns c).queue = [] ∨ (w.conns c).queue = [q]

/-- A reply that was read is the answer to what it was read for. -/
def Matched : Event → Prop
  | .read _ awaited answered _ => awaited = answered
  | _ => True

/-- Every reply read meanwhile was matched. -/
def Matches (w w' : World ω) : Prop :=
  ∃ new, w'.trace = w.trace ++ new ∧ ∀ e ∈ new, Matched e

theorem Matches.refl (w : World ω) : Matches w w := ⟨[], (List.append_nil _).symm, by simp⟩

theorem Matches.of_trace {w w' : World ω} (h : w'.trace = w.trace) : Matches w w' :=
  ⟨[], by rw [h, List.append_nil], by simp⟩

theorem Matches.one {w w' : World ω} {e : Event} (h : w'.trace = w.trace ++ [e])
    (he : Matched e) : Matches w w' :=
  ⟨[e], h, by simpa using he⟩

theorem Matches.trans {w w' w'' : World ω} (h : Matches w w') (h' : Matches w' w'') :
    Matches w w'' := by
  obtain ⟨new, hnew, hm⟩ := h
  obtain ⟨new', hnew', hm'⟩ := h'
  refine ⟨new ++ new', by rw [hnew', hnew, List.append_assoc], fun e he => ?_⟩
  rcases List.mem_append.mp he with he | he
  · exact hm e he
  · exact hm' e he

theorem Idle.of_conns {c : ConnId} {w w' : World ω} (h : Idle c w)
    (heq : w'.conns c = w.conns c) : Idle c w' := by
  unfold Idle
  rw [heq]
  exact h

/-- Every connection is left alone or idle, and every reply read was matched. -/
structure Settles (w w' : World ω) : Prop where
  conns : ∀ c, w'.conns c = w.conns c ∨ Idle c w'
  matched : Matches w w'

/-- A conversation on connection `c`: if it starts idle, all is settled. -/
def Talks (c : ConnId) (w w' : World ω) : Prop := Idle c w → Settles w w'

theorem Settles.refl (w : World ω) : Settles w w := ⟨fun _ => Or.inl rfl, Matches.refl w⟩

theorem Settles.trans {w w' w'' : World ω} (h : Settles w w') (h' : Settles w' w'') :
    Settles w w'' := by
  refine ⟨fun c => ?_, h.matched.trans h'.matched⟩
  rcases h'.conns c with heq | hi
  · rcases h.conns c with heq' | hi
    · exact Or.inl (heq.trans heq')
    · exact Or.inr (hi.of_conns heq)
  · exact Or.inr hi

/-- What is settled stays idle. -/
theorem Settles.idle {c : ConnId} {w w' : World ω} (h : Settles w w') (hi : Idle c w) :
    Idle c w' := by
  rcases h.conns c with heq | hi'
  · exact hi.of_conns heq
  · exact hi'

theorem Talks.refl (c : ConnId) (w : World ω) : Talks c w w := fun _ => Settles.refl w

theorem Talks.trans {c : ConnId} {w w' w'' : World ω} (h : Talks c w w') (h' : Talks c w' w'') :
    Talks c w w'' :=
  fun hi => (h hi).trans (h' ((h hi).idle hi))

instance : Std.Refl (@Settles ω) := ⟨Settles.refl⟩

instance : IsTrans (World ω) Settles := ⟨fun _ _ _ => Settles.trans⟩

instance (c : ConnId) : Std.Refl (@Talks ω c) := ⟨Talks.refl c⟩

instance (c : ConnId) : IsTrans (World ω) (Talks c) := ⟨fun _ _ _ => Talks.trans⟩

theorem settles_of_conns {w w' : World ω} (hconns : w'.conns = w.conns)
    (htrace : w'.trace = w.trace) : Settles w w' :=
  ⟨fun c => Or.inl (by rw [hconns]), Matches.of_trace htrace⟩

theorem settles_record {e : Event} (he : Matched e) : Within Settles (record e : Prog ω Unit) :=
  fun _ => ⟨fun _ => Or.inl rfl, Matches.one rfl he⟩

theorem settles_modifyConn {c : ConnId} {f : Conn → Conn}
    (hf : ∀ conn, (f conn).err = none → (f conn).queue = []) :
    Within Settles (modifyConn c f : Prog ω Unit) := by
  intro w
  refine ⟨fun c' => ?_, Matches.of_trace rfl⟩
  show Function.update w.conns c _ c' = _ ∨ _
  rcases eq_or_ne c' c with rfl | hc
  · refine Or.inr ?_
    show (Function.update w.conns c' _ c').err = none → (Function.update w.conns c' _ c').queue = []
    rw [Function.update_self]
    exact hf _
  · exact Or.inl (Function.update_of_ne hc _ _)

theorem settles_redisFree (c : Option ConnId) : Within Settles (redisFree c : Prog ω Unit) := by
  cases c with
  | none => exact within_pure _
  | some c =>
    exact within_bind (settles_modifyConn fun _ _ => rfl) fun _ => settles_record trivial

theorem settles_detachAsync (a : Option AConnId) :
    Within Settles (detachAsync a : Prog ω Unit) := by
  cases a with
  | none => exact within_pure _
  | some a => exact fun _ => settles_of_conns rfl rfl

instance : ParseClosed (@Settles ω) where
  setError _ _ _ := settles_of_conns rfl rfl
  redisFree := settles_redisFree
  detachAsync := settles_detachAsync
  released _ := settles_record trivial
  newNode _ _ := settles_of_conns rfl rfl
  editNode _ _ _ _ := settles_of_conns rfl rfl

theorem Program.Within.talks {α : Type} {m : Prog ω α} (h : Within Settles m) (c : ConnId) :
    Within (Talks c) m :=
  h.mono fun _ _ hs _ => hs

/-! ## Installing a topology settles -/

theorem settles_relinkAsync (a : Option AConnId) (n : NodeId) :
    Within Settles (relinkAsync a n : Prog ω Unit) := by
  cases a with
  | none => exact within_pure _
  | some a => exact fun _ => settles_of_conns rfl rfl

theorem settles_swapNodeCtx (f t : NodeId) : Within Settles (swapNodeCtx f t : Prog ω Unit) := by
  refine within_bind within_get fun w => within_bind (fun _ => settles_of_conns rfl rfl) fun _ =>
    within_bind (fun _ => settles_of_conns rfl rfl) fun _ => within_ite ?_ (within_pure _)
  exact within_bind (settles_relinkAsync _ _) fun _ => settles_relinkAsync _ _

theorem settles_clusterNodesSwapCtx (oldnodes : NodeDict) (ns : List NodeId) :
    Within Settles (clusterNodesSwapCtx oldnodes ns : Prog ω Unit) := by
  induction ns with
  | nil => exact within_pure _
  | cons t ts ih =>
    refine within_bind within_get fun w => ?_
    split
    · exact ih
    · exact within_bind (settles_swapNodeCtx _ _) fun _ => ih

theorem settles_modifyCc (f : Context → Context) : Within Settles (modifyCc f : Prog ω Unit) :=
  fun _ => settles_of_conns rfl rfl

theorem settles_setError (type : Option Err) (str : ErrText) :
    Within Settles (setError type str : Prog ω Unit) :=
  settles_modifyCc _

theorem settles_userHook : Within Settles (userHook : Prog ω Unit) :=
  within_bind within_get fun _ => settles_record trivial

theorem settles_installNodes (nodes : NodeDict) :
    Within Settles (installNodes nodes : Prog ω Status) := by
  refine within_bind within_get fun w => ?_
  split
  · exact within_bind (settles_modifyCc _) fun _ => within_bind (within_dictRelease _) fun _ =>
      within_pure _
  · refine within_bind (settles_modifyCc _) fun _ => ?_
    split
    · exact within_bind (settles_modifyCc _) fun _ => within_pure _
    · exact within_bind (settles_clusterNodesSwapCtx _ _) fun _ =>
        within_bind (settles_modifyCc _) fun _ => within_bind (within_dictRelease _) fun _ =>
          within_pure _

theorem settles_updateNodesAndSlotmap (nodes : Option NodeDict) :
    Within Settles (updateNodesAndSlotmap nodes : Prog ω Status) := by
  cases nodes with
  | none => exact within_pure _
  | some nodes =>
    refine within_bind (settles_installNodes nodes) fun r => ?_
    cases r with
    | err => exact within_pure _
    | ok =>
      refine within_bind ?_ fun _ => within_pure _
      exact within_bind settles_userHook fun _ => settles_modifyCc _

/-! ## The calls on one connection -/

/-- Only connection `c` may have changed. -/
def OnlyAt (c : ConnId) (w w' : World ω) : Prop := ∀ c' ≠ c, w'.conns c' = w.conns c'

theorem OnlyAt.refl (c : ConnId) (w : World ω) : OnlyAt c w w := fun _ _ => rfl

theorem OnlyAt.trans {c : ConnId} {w w' w'' : World ω} (h : OnlyAt c w w') (h' : OnlyAt c w' w'') :
    OnlyAt c w w'' :=
  fun c' hc => (h' c' hc).trans (h c' hc)

theorem onlyAt_update (c : ConnId) (w : World ω) (conn : Conn) :
    OnlyAt c w { w with conns := Function.update w.conns c conn } :=
  fun _ hc => Function.update_of_ne hc _ _

section Calls

variable (H : Hiredis ω)

/-- What `redisAppendCommand` does to the connections. -/
theorem redisAppendCommand_conns (c : ConnId) (q : Sent) (w : World ω) :
    wp (redisAppendCommand H c q) (fun r w' => OnlyAt c w w' ∧ Matches w w' ∧
      match r with
      | .ok => w'.conns c = { w.conns c with queue := (w.conns c).queue ++ [q] }
      | .err => (w'.conns c).err ≠ none) w := by
  unfold redisAppendCommand
  rw [wp_bind, wp_get, wp_bind, wp_ask]
  split
  · refine ⟨onlyAt_update c w _, Matches.one rfl trivial, ?_⟩
    show Function.update w.conns c _ c = _
    rw [Function.update_self]
  · rename_i f _
    refine ⟨onlyAt_update c w _, Matches.of_trace rfl, ?_⟩
    show (Function.update w.conns c _ c).err ≠ none
    rw [Function.update_self]
    exact Option.some_ne_none f

/-- What `redisBufferWrite` does to the connections. -/
theorem redisBufferWrite_conns (c : ConnId) (w : World ω) :
    wp (redisBufferWrite H c) (fun r w' => OnlyAt c w w' ∧ Matches w w' ∧
      match r with
      | .ok => w'.conns c = w.conns c ∧ (w.conns c).err = none
      | .err => (w'.conns c).err ≠ none) w := by
  unfold redisBufferWrite
  rw [wp_bind, wp_get]
  split
  · rename_i herr
    exact ⟨OnlyAt.refl c w, Matches.refl w, Option.isSome_iff_ne_none.mp herr⟩
  · rename_i herr
    rw [wp_bind, wp_ask]
    split
    · exact ⟨OnlyAt.refl c _, Matches.of_trace rfl, rfl, Option.not_isSome_iff_eq_none.mp herr⟩
    · rename_i f _
      refine ⟨onlyAt_update c w _, Matches.of_trace rfl, ?_⟩
      show (Function.update w.conns c _ c).err ≠ none
      rw [Function.update_self]
      exact Option.some_ne_none f

/-- What `redisGetReply` does to the connections: the reply is the one to the
oldest command. -/
theorem redisGetReply_conns (c : ConnId) (awaited : Sent) (w : World ω) :
    wp (redisGetReply H c awaited) (fun r w' => OnlyAt c w w' ∧
      match r with
      | none => (w'.conns c).err ≠ none ∧ w'.trace = w.trace
      | some a => (w.conns c).err = none ∧ ∃ rest, (w.conns c).queue = a.answers :: rest ∧
          w'.conns c = { w.conns c with queue := rest } ∧
          w'.trace = w.trace ++ [.read c awaited a.answers a.reply]) w := by
  unfold redisGetReply
  rw [wp_bind, wp_get]
  split
  · rename_i herr
    exact ⟨OnlyAt.refl c w, Option.isSome_iff_ne_none.mp herr, rfl⟩
  · rename_i herr
    have hfail : ∀ (f : Fault) (env : ω), wp (do
          modifyConn c fun conn => { conn with err := some f }
          pure (none : Option Answer)) (fun r w' => OnlyAt c w w' ∧
          match r with
          | none => (w'.conns c).err ≠ none ∧ w'.trace = w.trace
          | some a => (w.conns c).err = none ∧ ∃ rest, (w.conns c).queue = a.answers :: rest ∧
              w'.conns c = { w.conns c with queue := rest } ∧
              w'.trace = w.trace ++ [.read c awaited a.answers a.reply]) { w with env := env } := by
      intro f env
      refine ⟨onlyAt_update c w _, ?_, rfl⟩
      show (Function.update w.conns c _ c).err ≠ none
      rw [Function.update_self]
      exact Option.some_ne_none f
    split
    · exact hfail _ _
    · rename_i q rest hq
      rw [wp_bind, wp_ask]
      split
      · exact hfail _ _
      · refine ⟨onlyAt_update c w _, Option.not_isSome_iff_eq_none.mp herr, rest, hq, ?_, rfl⟩
        show Function.update w.conns c _ c = _
        rw [Function.update_self]

/-- Reading the only reply that may be owed. -/
theorem redisGetReply_owes {c : ConnId} {q : Sent} {w : World ω} (h : Owes c q w) :
    wp (redisGetReply H c q) (fun r w' => OnlyAt c w w' ∧ Idle c w' ∧ Matches w w' ∧
      ∀ a, r = some a → a.answers = q) w := by
  refine wp_mono (redisGetReply_conns H c q w) fun r w' hr => ?_
  cases r with
  | none =>
    exact ⟨hr.1, fun herr => absurd herr hr.2.1, Matches.of_trace hr.2.2, fun a ha => by cases ha⟩
  | some a =>
    obtain ⟨honly, herr, rest, hq, hconn, htrace⟩ := hr
    have hone : a.answers :: rest = [q] := by
      rcases h herr with hq' | hq'
      · rw [hq'] at hq
        cases hq
      · rw [← hq, hq']
    obtain ⟨ha, rfl⟩ := List.cons_eq_cons.mp hone
    refine ⟨honly, fun _ => by rw [hconn], Matches.one htrace ha.symm, fun a' ha' => ?_⟩
    obtain rfl := Option.some.inj ha'
    exact ha

theorem settles_ask {α : Type} (f : ω → α × ω) : Within Settles (ask f) :=
  fun _ => settles_of_conns rfl rfl

theorem settles_newConn (host : Bytes) (port : ℕ) (err : Option Fault) :
    Within Settles (newConn host port err : Prog ω ConnId) := by
  intro w
  refine ⟨fun c => ?_, Matches.of_trace rfl⟩
  show Function.update w.conns w.nextConn _ c = _ ∨ _
  rcases eq_or_ne c w.nextConn with rfl | hc
  · refine Or.inr fun _ => ?_
    show (Function.update w.conns w.nextConn _ w.nextConn).queue = []
    rw [Function.update_self]
  · exact Or.inl (Function.update_of_ne hc _ _)

/-- A new connection owes nothing. -/
theorem redisConnectWithOptions_settles (host : Bytes) (port : ℕ) (w : World ω) :
    wp (redisConnectWithOptions H host port) (fun r w' => Settles w w' ∧
      ∀ c, r = some c → Idle c w') w := by
  have hnew : ∀ (err : Option Fault) (env : ω), wp (do
        let c ← newConn host port err
        pure (some c)) (fun r w' => Settles w w' ∧ ∀ c, r = some c → Idle c w')
        { w with env := env } := by
    intro err env
    have hs : Settles w { w with env := env } := settles_of_conns rfl rfl
    refine ⟨hs.trans (settles_newConn host port err { w with env := env }), fun c hc => ?_⟩
    obtain rfl := Option.some.inj hc
    intro _
    show (Function.update w.conns w.nextConn _ w.nextConn).queue = []
    rw [Function.update_self]
  unfold redisConnectWithOptions
  rw [wp_bind, wp_ask]
  split
  · exact ⟨settles_of_conns rfl rfl, fun c hc => by cases hc⟩
  · exact hnew _ _
  · exact hnew _ _

/-- A failure noted on connection `c` ends the conversation. -/
theorem talks_fail (c : ConnId) (f : Fault) :
    Within (Talks c) (modifyConn c (fun conn => { conn with err := some f }) : Prog ω Unit) :=
  (settles_modifyConn fun _ h => by cases h).talks c

theorem talks_sslInitFn (c : ConnId) : Within (Talks c) (sslInitFn H c) := by
  refine within_bind within_get fun w => within_bind ((settles_ask _).talks c) fun r => ?_
  cases r with
  | none => exact within_pure _
  | some f => exact within_bind (talks_fail c f) fun _ => within_pure _

theorem settles_copyError (c : ConnId) : Within Settles (copyError c : Prog ω Unit) := by
  refine within_bind within_get fun w => ?_
  split
  · exact settles_modifyCc _
  · exact settles_modifyCc _

theorem talks_startTls (c : ConnId) : Within (Talks c) (startTls H c) := by
  refine within_bind within_get fun w => within_ite ?_ (within_pure _)
  refine within_bind (talks_sslInitFn H c) fun r => ?_
  cases r with
  | ok => exact within_pure _
  | err => exact within_bind ((settles_copyError c).talks c) fun _ => within_pure _

/-- Appending to an idle connection. -/
theorem redisAppendCommand_owes {c : ConnId} (q : Sent) {w : World ω} (h : Idle c w) :
    wp (redisAppendCommand H c q) (fun r w' => OnlyAt c w w' ∧ Matches w w' ∧
      match r with
      | .ok => Owes c q w' ∧ ((w'.conns c).err = none → (w'.conns c).queue = [q])
      | .err => (w'.conns c).err ≠ none) w := by
  refine wp_mono (redisAppendCommand_conns H c q w) fun r w' hr => ?_
  obtain ⟨honly, hm, hr⟩ := hr
  refine ⟨honly, hm, ?_⟩
  cases r with
  | err => exact hr
  | ok =>
    have hq : (w'.conns c).err = none → (w'.conns c).queue = [q] := by
      intro herr
      rw [hr] at herr ⊢
      show (w.conns c).queue ++ [q] = [q]
      rw [h herr, List.nil_append]
    exact ⟨fun herr => Or.inr (hq herr), hq⟩

/-- **A command and its reply, on an idle connection.** -/
theorem redisCommand_talks {c : ConnId} (q : Sent) {w : World ω} (h : Idle c w) :
    wp (redisCommand H c q) (fun r w' => OnlyAt c w w' ∧ Idle c w' ∧ Matches w w' ∧
      ∀ a, r = some a → a.answers = q) w := by
  unfold redisCommand
  rw [wp_bind]
  refine wp_mono (redisAppendCommand_owes H q h) fun r w₁ hr => ?_
  obtain ⟨honly, hm, hr⟩ := hr
  cases r with
  | err => exact ⟨honly, fun herr => absurd herr hr, hm, fun a ha => by cases ha⟩
  | ok =>
    refine wp_mono (redisGetReply_owes H hr.1) fun r w₂ hr₂ => ?_
    exact ⟨honly.trans hr₂.1, hr₂.2.1, hm.trans hr₂.2.2.1, hr₂.2.2.2⟩

/-- What was settled after a change to connection `c` that ends idle. -/
theorem Settles.after_onlyAt {c : ConnId} {w w₁ w' : World ω} (hs : Settles w₁ w')
    (honly : OnlyAt c w w₁) (hm : Matches w w₁) (hi : Idle c w') : Settles w w' := by
  refine ⟨fun c' => ?_, hm.trans hs.matched⟩
  rcases eq_or_ne c' c with rfl | hc'
  · exact Or.inr hi
  · rw [← honly c' hc']
    exact hs.conns c'

theorem settles_of_onlyAt {c : ConnId} {w w' : World ω} (honly : OnlyAt c w w') (hi : Idle c w')
    (hm : Matches w w') : Settles w w' :=
  (Settles.refl w').after_onlyAt honly hm hi

theorem talks_redisCommand (c : ConnId) (q : Sent) : Within (Talks c) (redisCommand H c q) := by
  intro w hi
  have hr := redisCommand_talks H q hi
  exact settles_of_onlyAt hr.1 hr.2.1 hr.2.2.1

theorem talks_authenticate (c : ConnId) : Within (Talks c) (authenticate H c) := by
  refine within_bind within_get fun w => ?_
  split
  · exact within_pure _
  · refine within_bind (talks_redisCommand H c _) fun r => ?_
    have hset : ∀ e s, Within (Talks c) (setError e s : Prog ω Unit) :=
      fun e s => (settles_modifyCc _).talks c
    cases r with
    | none => exact within_bind (hset _ _) fun _ => within_pure _
    | some a =>
      dsimp only
      split
      · exact within_bind (hset _ _) fun _ => within_pure _
      · exact within_pure _

/-! ## Topology queries -/

/-- What sending the topology query does to the connection. -/
theorem clusterUpdateRouteSendCommand_conns (c : ConnId) (w : World ω) :
    wp (clusterUpdateRouteSendCommand H c) (fun r w' => OnlyAt c w w' ∧ Matches w w' ∧
      match r with
      | .ok => (w.conns c).err = none ∧ w'.conns c =
          { w.conns c with queue := (w.conns c).queue ++ [w.cc.topologyQuery] }
      | .err => (w'.conns c).err ≠ none) w := by
  unfold clusterUpdateRouteSendCommand
  rw [wp_bind, wp_get, wp_bind]
  refine wp_mono (redisAppendCommand_conns H c _ w) fun r w₁ hr => ?_
  obtain ⟨honly, hm, hr⟩ := hr
  cases r with
  | err => exact ⟨honly, hm.trans (Matches.of_trace rfl), hr⟩
  | ok =>
    refine wp_mono (redisBufferWrite_conns H c w₁) fun r w₂ hr₂ => ?_
    obtain ⟨honly₂, hm₂, hr₂⟩ := hr₂
    refine ⟨honly.trans honly₂, hm.trans hm₂, ?_⟩
    dsimp only at hr
    cases r with
    | err => exact hr₂
    | ok =>
      obtain ⟨heq, herr⟩ := hr₂
      rw [hr] at herr heq
      exact ⟨herr, heq⟩

theorem settles_topologyReadError (c : ConnId) (what : String) :
    Within Settles (topologyReadError c what : Prog ω Unit) :=
  within_bind within_get fun _ => within_ite (settles_modifyCc _) (settles_modifyCc _)

theorem handleClusterSlotsReply_collects {c : ConnId} {w : World ω}
    (h : Owes c .clusterSlots w) :
    wp (handleClusterSlotsReply H c) (fun _ w' => Settles w w' ∧ Idle c w') w := by
  unfold handleClusterSlotsReply
  rw [wp_bind]
  refine wp_mono (redisGetReply_owes H h) fun r w₁ hr => ?_
  obtain ⟨honly, hi, hm, -⟩ := hr
  have hs₁ := settles_of_onlyAt honly hi hm
  suffices h : Settles w₁ _ from ⟨hs₁.trans h, h.idle hi⟩
  refine (?_ : Within Settles _) w₁
  cases r with
  | none => exact within_bind (settles_topologyReadError c _) fun _ => within_pure _
  | some a =>
    dsimp only
    split
    · exact within_bind within_get fun _ => within_bind (within_parseClusterSlots _ _) fun _ =>
        settles_updateNodesAndSlotmap _
    · exact within_bind (settles_modifyCc _) fun _ => within_pure _
    · exact within_bind (settles_modifyCc _) fun _ => within_pure _

theorem handleClusterNodesReply_collects {c : ConnId} {w : World ω}
    (h : Owes c .clusterNodes w) :
    wp (handleClusterNodesReply H c) (fun _ w' => Settles w w' ∧ Idle c w') w := by
  unfold handleClusterNodesReply
  rw [wp_bind]
  refine wp_mono (redisGetReply_owes H h) fun r w₁ hr => ?_
  obtain ⟨honly, hi, hm, -⟩ := hr
  have hs₁ := settles_of_onlyAt honly hi hm
  suffices h : Settles w₁ _ from ⟨hs₁.trans h, h.idle hi⟩
  refine (?_ : Within Settles _) w₁
  cases r with
  | none => exact within_bind (settles_topologyReadError c _) fun _ => within_pure _
  | some a =>
    dsimp only
    split
    · exact within_bind within_get fun _ => within_bind (within_parseClusterNodes _ _) fun _ =>
        settles_updateNodesAndSlotmap _
    · exact within_bind (settles_modifyCc _) fun _ => within_pure _
    · exact within_bind (settles_modifyCc _) fun _ => within_pure _

/-- **The deferred topology reply is the answer to the query.** -/
theorem clusterUpdateRouteHandleReply_collects {c : ConnId} {w : World ω}
    (h : Owes c w.cc.topologyQuery w) :
    wp (clusterUpdateRouteHandleReply H c) (fun _ w' => Settles w w' ∧ Idle c w') w := by
  unfold clusterUpdateRouteHandleReply
  rw [wp_bind, wp_get]
  unfold Context.topologyQuery at h
  split
  · rw [if_pos ‹_›] at h
    exact handleClusterSlotsReply_collects H h
  · rw [if_neg ‹_›] at h
    exact handleClusterNodesReply_collects H h

/-- Sending the query and collecting its answer at once. -/
theorem talks_sendAndHandle (c : ConnId) : Within (Talks c) (do
    match ← clusterUpdateRouteSendCommand H c with
    | .err => pure .err
    | .ok => clusterUpdateRouteHandleReply H c) := by
  intro w hi
  show wp _ (fun _ w' => Settles w w') w
  rw [wp_bind]
  refine wp_mono (wp_and (clusterUpdateRouteSendCommand_conns H c w)
    (calmly (within_clusterUpdateRouteSendCommand H c) w)) fun r w₁ hr => ?_
  obtain ⟨⟨honly, hm, hr⟩, hc⟩ := hr
  cases r with
  | err => exact settles_of_onlyAt honly (fun herr => absurd herr hr) hm
  | ok =>
    obtain ⟨herr, hconn⟩ := hr
    have howes : Owes c w₁.cc.topologyQuery w₁ := by
      intro _
      rw [hconn, show w₁.cc.topologyQuery = w.cc.topologyQuery by
        simp only [Context.topologyQuery, hc.routeUseSlots]]
      refine Or.inr ?_
      show (w.conns c).queue ++ [w.cc.topologyQuery] = _
      rw [hi herr, List.nil_append]
    refine wp_mono (clusterUpdateRouteHandleReply_collects H howes) fun r w₂ hr₂ => ?_
    exact hr₂.1.after_onlyAt honly hm hr₂.2

theorem talks_queryTopology (c : ConnId) : Within (Talks c) (queryTopology H c) := by
  refine within_bind within_get fun w => within_ite ?_ ?_
  · exact within_bind ((settles_copyError c).talks c) fun _ => within_pure _
  · refine within_bind (talks_startTls H c) fun r => ?_
    cases r with
    | err => exact within_pure _
    | ok =>
      refine within_bind (talks_authenticate H c) fun r => ?_
      cases r with
      | err => exact within_pure _
      | ok => exact talks_sendAndHandle H c

theorem settles_clusterUpdateRouteByAddr (ip : Bytes) (port : ℕ) :
    Within Settles (clusterUpdateRouteByAddr H ip port) := by
  refine within_ite ?_ ?_
  · exact within_bind (settles_modifyCc _) fun _ => within_pure _
  · intro w
    show wp _ (fun _ w' => Settles w w') w
    rw [wp_bind]
    refine wp_mono (redisConnectWithOptions_settles H ip port w) fun r w₁ hr => ?_
    cases r with
    | none => exact hr.1.trans (settles_setError _ _ w₁)
    | some c =>
      have hhook := settles_userHook w₁
      have hi := hhook.idle (hr.2 c rfl)
      have hquery := talks_queryTopology H c _ hi
      exact ((hr.1.trans hhook).trans hquery).trans (settles_redisFree (some c) _)

theorem settles_updateSlotmapFrom (ns : List NodeId) : Within Settles (updateSlotmapFrom H ns) := by
  induction ns with
  | nil => exact within_pure _
  | cons n ns ih =>
    refine within_bind within_get fun w => ?_
    refine within_bind (settles_clusterUpdateRouteByAddr H _ _) fun r => ?_
    cases r with
    | ok => exact within_bind (settles_modifyCc _) fun _ => within_pure _
    | err => exact ih

/-- **An update of the slot map leaves no reply unread.** -/
theorem settles_redisClusterUpdateSlotmap : Within Settles (redisClusterUpdateSlotmap H) := by
  refine within_bind within_get fun w => ?_
  split
  · exact within_bind (settles_modifyCc _) fun _ => within_pure _
  · refine within_ite ?_ (settles_updateSlotmapFrom H _)
    exact within_bind (settles_modifyCc _) fun _ => within_pure _

/-! ## Reaching a node -/

theorem settles_nodeGetByTable (slot : ℕ) : Within Settles (nodeGetByTable slot : Prog ω _) := by
  have hfail : ∀ e s, Within Settles (do setError e s; pure none : Prog ω (Option NodeId)) :=
    fun e s => within_bind (settles_modifyCc _) fun _ => within_pure _
  refine within_bind within_get fun w => within_ite (hfail _ _) ?_
  split
  · exact hfail _ _
  · split
    · exact hfail _ _
    · exact within_pure _

theorem settles_openNode (n : NodeId) : Within Settles (openNode H n) := by
  intro w
  show wp _ (fun _ w' => Settles w w') w
  unfold openNode
  rw [wp_bind, wp_get, wp_bind]
  refine wp_mono (redisConnectWithOptions_settles H _ _ w) fun r w₁ hr => ?_
  cases r with
  | none => exact hr.1.trans (settles_setError _ _ w₁)
  | some c =>
    suffices h : Within (Talks c) _ from hr.1.trans (h w₁ (hr.2 c rfl))
    have hfree : Within (Talks c) (do redisFree (some c); pure none : Prog ω (Option ConnId)) :=
      within_bind ((settles_redisFree _).talks c) fun _ => within_pure _
    refine within_bind (settles_userHook.talks c) fun _ => ?_
    refine within_bind within_get fun _ => within_ite ?_ ?_
    · exact within_bind ((settles_copyError c).talks c) fun _ => hfree
    · refine within_bind (talks_startTls H c) fun r => ?_
      cases r with
      | err => exact hfree
      | ok =>
        refine within_bind (talks_authenticate H c) fun r => ?_
        cases r with
        | err => exact hfree
        | ok =>
          exact within_bind (fun _ _ => settles_of_conns rfl rfl) fun _ => within_pure _

theorem settles_reconnectNode (c : ConnId) : Within Settles (reconnectNode H c) := by
  intro w
  -- the reconnection leaves the connection idle, whatever it was before
  have hre : Settles w (redisReconnect H c w).2 ∧ Idle c (redisReconnect H c w).2 := by
    refine ⟨?_, fun _ => ?_⟩
    · exact (within_bind within_get fun _ => within_bind (settles_ask _) fun _ =>
        settles_modifyConn fun _ _ => rfl : Within Settles (redisReconnect H c)) w
    · show (Function.update w.conns c _ c).queue = []
      rw [Function.update_self]
  have hrest : Within (Talks c) (do
      userHook
      let _ ← startTls H c
      let _ ← authenticate H c
      pure ()) :=
    within_bind (settles_userHook.talks c) fun _ => within_bind (talks_startTls H c) fun _ =>
      within_bind (talks_authenticate H c) fun _ => within_pure _
  exact hre.1.trans (hrest _ hre.2)

/-! ## Which connections are touched -/

instance (c : ConnId) : Std.Refl (@OnlyAt ω c) := ⟨OnlyAt.refl c⟩

instance (c : ConnId) : IsTrans (World ω) (OnlyAt c) := ⟨fun _ _ _ => OnlyAt.trans⟩

theorem onlyAt_of_conns {c : ConnId} {w w' : World ω} (h : w'.conns = w.conns) : OnlyAt c w w' :=
  fun c' _ => by rw [h]

theorem onlyAt_modifyConn (c : ConnId) (f : Conn → Conn) :
    Within (OnlyAt c) (modifyConn c f : Prog ω Unit) :=
  fun w => onlyAt_update c w _

theorem onlyAt_ask {α : Type} (c : ConnId) (f : ω → α × ω) : Within (OnlyAt c) (ask f) :=
  fun _ => onlyAt_of_conns rfl

theorem onlyAt_setError (c : ConnId) (type : Option Err) (str : ErrText) :
    Within (OnlyAt c) (setError type str : Prog ω Unit) :=
  fun _ => onlyAt_of_conns rfl

theorem onlyAt_copyError (c c' : ConnId) : Within (OnlyAt c) (copyError c' : Prog ω Unit) := by
  refine within_bind within_get fun w => ?_
  split
  · exact onlyAt_setError c _ _
  · exact onlyAt_setError c _ _

theorem onlyAt_userHook (c : ConnId) : Within (OnlyAt c) (userHook : Prog ω Unit) :=
  fun _ => onlyAt_of_conns rfl

theorem onlyAt_startTls (c : ConnId) : Within (OnlyAt c) (startTls H c) := by
  refine within_bind within_get fun w => within_ite ?_ (within_pure _)
  refine within_bind ?_ fun r => ?_
  · refine within_bind within_get fun _ => within_bind (onlyAt_ask c _) fun r => ?_
    cases r with
    | none => exact within_pure _
    | some f => exact within_bind (onlyAt_modifyConn c _) fun _ => within_pure _
  · cases r with
    | ok => exact within_pure _
    | err => exact within_bind (onlyAt_copyError c c) fun _ => within_pure _

theorem onlyAt_redisCommand (c : ConnId) (q : Sent) : Within (OnlyAt c) (redisCommand H c q) := by
  refine within_bind (fun w => (redisAppendCommand_conns H c q w).1) fun r => ?_
  cases r with
  | err => exact within_pure _
  | ok => exact fun w => (redisGetReply_conns H c q w).1

theorem onlyAt_authenticate (c : ConnId) : Within (OnlyAt c) (authenticate H c) := by
  refine within_bind within_get fun w => ?_
  split
  · exact within_pure _
  · refine within_bind (onlyAt_redisCommand H c _) fun r => ?_
    cases r with
    | none => exact within_bind (onlyAt_setError c _ _) fun _ => within_pure _
    | some a =>
      dsimp only
      split
      · exact within_bind (onlyAt_setError c _ _) fun _ => within_pure _
      · exact within_pure _

theorem onlyAt_reconnectNode (c : ConnId) : Within (OnlyAt c) (reconnectNode H c) := by
  refine within_bind ?_ fun _ => within_bind (onlyAt_userHook c) fun _ =>
    within_bind (onlyAt_startTls H c) fun _ => within_bind (onlyAt_authenticate H c) fun _ =>
      within_pure _
  exact within_bind within_get fun _ => within_bind (onlyAt_ask c _) fun _ =>
    onlyAt_modifyConn c _

theorem onlyAt_redisFree (c : ConnId) : Within (OnlyAt c) (redisFree (some c) : Prog ω Unit) :=
  within_bind (onlyAt_modifyConn c _) fun _ => fun _ => onlyAt_of_conns rfl

/-- Connecting touches no connection that exists. -/
theorem redisConnectWithOptions_onlyAt (host : Bytes) (port : ℕ) (w : World ω) :
    OnlyAt w.nextConn w (redisConnectWithOptions H host port w).2 := by
  show wp _ (fun _ w' => OnlyAt w.nextConn w w') w
  unfold redisConnectWithOptions
  rw [wp_bind, wp_ask]
  split
  · exact onlyAt_of_conns rfl
  · exact onlyAt_update w.nextConn w _
  · exact onlyAt_update w.nextConn w _

theorem openNode_onlyAt (n : NodeId) (w : World ω) : OnlyAt w.nextConn w (openNode H n w).2 := by
  show wp _ (fun _ w' => OnlyAt w.nextConn w w') w
  unfold openNode
  rw [wp_bind, wp_get, wp_bind]
  refine wp_mono (P := fun r w' => OnlyAt w.nextConn w w' ∧ ∀ c, r = some c → c = w.nextConn)
    ⟨redisConnectWithOptions_onlyAt H _ _ w,
      fun c hc => (redisConnectWithOptions_fresh H _ _ w c hc).1⟩ fun r w₁ hr => ?_
  cases r with
  | none => exact hr.1.trans (onlyAt_setError _ _ _ w₁)
  | some c =>
    have hc := hr.2 c rfl
    suffices h : Within (OnlyAt c) _ from hr.1.trans (hc ▸ h w₁)
    have hfree : Within (OnlyAt c) (do redisFree (some c); pure none : Prog ω (Option ConnId)) :=
      within_bind (onlyAt_redisFree c) fun _ => within_pure _
    refine within_bind (onlyAt_userHook c) fun _ => within_bind within_get fun _ => within_ite ?_ ?_
    · exact within_bind (onlyAt_copyError c c) fun _ => hfree
    · refine within_bind (onlyAt_startTls H c) fun r => ?_
      cases r with
      | err => exact hfree
      | ok =>
        refine within_bind (onlyAt_authenticate H c) fun r => ?_
        cases r with
        | err => exact hfree
        | ok => exact within_bind (fun _ => onlyAt_of_conns rfl) fun _ => within_pure _

/-- **Reaching a node touches its own connection only, and that only when it is
in error.** -/
theorem ctxGetByNode_conns (n : NodeId) (w : World ω) {c : ConnId} (hc : c < w.nextConn)
    (hok : (w.heap n).con = some c → (w.conns c).err = none) :
    (ctxGetByNode H n w).2.conns c = w.conns c := by
  show wp _ (fun _ w' => w'.conns c = w.conns c) w
  unfold ctxGetByNode
  rw [wp_bind, wp_get]
  split
  · rename_i c' hcon
    split
    · rename_i herr
      have hne : c ≠ c' := by
        rintro rfl
        rw [hok hcon] at herr
        cases herr
      exact onlyAt_reconnectNode H c' w c hne
    · rfl
  · split
    · rfl
    · exact openNode_onlyAt H n w c (ne_of_lt hc)

/-- **Reaching a node leaves no reply unread.** -/
theorem settles_ctxGetByNode (n : NodeId) : Within Settles (ctxGetByNode H n) := by
  refine within_bind within_get fun w => ?_
  split
  · exact within_ite (within_bind (settles_reconnectNode H _) fun _ => within_pure _)
      (within_pure _)
  · exact within_ite (within_pure _) (settles_openNode H n)


end Calls
