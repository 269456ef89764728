/-
# Blocking connections are authenticated before they are used

Sessions are opened in three places.  `cluster_update_route_by_addr` and the first
connection of a node are given up when AUTH is rejected, so that nothing is written on them.
When a connection in error is reconnected, the result of AUTH is not looked at: the command
is written on a session that the server has refused to authenticate.

`BlockingRun.authenticated`: as long as no AUTH is rejected on a reconnected connection,
whatever is written is written on an authenticated session; and unless the server accepts an
AUTH of a call after it has rejected another, a command of which an AUTH is rejected is not
sent and fails with an error on the context.
-/
import HiredisCluster.Sessions

open Program Program.History

variable {ω : Type}

/-! ## Asking for the topology -/

section Asking

variable (H : Hiredis ω) {k : ℕ} {c : ConnId}

/-- A connection that has just been made. -/
theorem Secured.made {w w' : World (ω × List Exchange)} (h : Secured k none w)
    (hlog : w'.log = w.log) (hcc : w'.cc = w.cc) (hheap : w'.heap = w.heap)
    (hnext : w'.nextConn = w.nextConn + 1)
    (hconns : ∀ c ≠ w.nextConn, w'.conns c = w.conns c)
    (hqueue : (w'.conns w.nextConn).queue = []) : Lone k w.nextConn w' where
  secured :=
    { since := hlog ▸ h.since
      password := hcc ▸ h.password
      orderly := hlog ▸ h.orderly
      queues := fun c hx => by
        rw [hconns c fun hc => hx (congrArg some hc)]
        exact h.queues c (by simp)
      nodes := fun n c hn hx => by
        rw [hconns c fun hc => hx (congrArg some hc), hlog]
        rw [hheap] at hn
        exact h.nodes n c hn (by simp)
      lt := fun n c hn => by
        rw [hheap] at hn
        rw [hnext]
        exact Nat.lt_succ_of_lt (h.lt n c hn)
      fresh := fun c hx => by
        obtain rfl := Option.some.inj hx
        exact hqueue }
  lt := by
    rw [hnext]
    exact Nat.lt_succ_self _
  unheld n hn := by
    rw [hheap] at hn
    exact Nat.lt_irrefl _ (h.lt n _ hn)

/-- A new connection owes nothing, and no node has it. -/
theorem triple_redisConnectWithOptions (host : Bytes) (port : ℕ) :
    sessions.Triple (Secured k none) (redisConnectWithOptions H.logged host port)
      fun r w => match r with
        | none => Secured k none w
        | some c => Lone k c w := by
  refine (triple_secured (sessions_ask fun _ => rfl)).bind fun r => ?_
  have hnew : ∀ err, sessions.Triple (Secured k none)
      (newConn host port err : Prog (ω × List Exchange) ConnId) fun c w => Lone k c w :=
    fun err w => ⟨List.prefix_rfl, fun _ hs => hs.made rfl rfl rfl rfl
      (fun c hc => Function.update_of_ne hc _ _)
      (congrArg Conn.queue (Function.update_self (f := w.conns) w.nextConn _))⟩
  cases r with
  | oom => exact triple_pure fun _ h => h
  | failed f => exact (hnew _).bind fun c => triple_pure fun _ h => h
  | ok => exact (hnew _).bind fun c => triple_pure fun _ h => h

theorem triple_startTls (c : ConnId) :
    sessions.Triple (Lone k c) (startTls H.logged c) fun r w =>
      Lone k c w ∧ (r = .err → w.Failed) := by
  intro w
  have hsame := sessions_startTls (k := k) (x := some c) H c w
  have hcalm := within_startTls (R := Calm) H.logged c w
  have hrep := startTls_reports H.logged c w
  refine ⟨hsame.le, fun _ hl => ⟨⟨hsame.secured hl.secured,
    Nat.lt_of_lt_of_le hl.lt hcalm.nextConn, fun n hn => hl.unheld n (hcalm.conOld n c hn)⟩,
    fun hr => ?_⟩⟩
  rw [wp, hr] at hrep
  exact hrep

/-- A command is written on an authenticated session. -/
theorem loggedIn_wrote {w w' : World (ω × List Exchange)} (h : LoggedIn k c w) {q : Sent}
    (hq : q.isAuth = false) (hcc : w'.cc = w.cc) (hheap : w'.heap = w.heap)
    (hnext : w'.nextConn = w.nextConn) (hlog : w'.log = w.log ++ [.append c q])
    (hconns : w'.conns =
      Function.update w.conns c { w.conns c with queue := (w.conns c).queue ++ [q] }) :
    LoggedIn k c w' := by
  have hs := h.secured
  have hauth : ∀ c', authed c' w'.log = authed c' w.log := fun c' => by
    rw [hlog, authed_concat]
    rfl
  have hother : ∀ c' ≠ c, w'.conns c' = w.conns c' := fun c' hc => by
    rw [hconns, Function.update_of_ne hc]
  have hself : w'.conns c = { w.conns c with queue := (w.conns c).queue ++ [q] } := by
    rw [hconns, Function.update_self]
  refine ⟨⟨⟨?_, hcc ▸ hs.password, ?_, fun c' _ => ?_, fun n c' hn _ => ?_, ?_, fun c' hx => by cases hx⟩,
    fun hr => h.unrefused ((refusedSince_append hs.since hlog).mp hr)⟩, by rw [hauth]; exact h.authed⟩
  · rw [hlog, List.length_append]
    exact Nat.le_add_right_of_le hs.since
  · rw [hlog]
    refine hs.orderly.concat fun c' q' he _ => ?_
    obtain ⟨rfl, rfl⟩ := Exchange.append.inj he
    exact ⟨h.authed, Bool.eq_false_iff.mpr h.unrefused⟩
  · by_cases hc : c' = c
    · subst hc
      rw [hself]
      intro he q' hq'
      rcases List.mem_append.mp hq' with hmem | hmem
      · exact hs.queues c' (by simp) he q' hmem
      · rw [List.mem_singleton.mp hmem]
        exact hq
    · rw [hother c' hc]
      exact hs.queues c' (by simp)
  · rw [hauth]
    rw [hheap] at hn
    by_cases hc : c' = c
    · subst hc
      exact fun _ => h.authed
    · rw [hother c' hc]
      exact hs.nodes n c' hn (by simp)
  · rw [hheap, hnext]
    exact hs.lt

theorem triple_redisAppendCommand (c : ConnId) {q : Sent} (hq : q.isAuth = false) :
    sessions.Triple (LoggedIn k c) (redisAppendCommand H.logged c q)
      fun _ => LoggedIn k c := by
  intro w
  have h := redisAppendCommand_logged H c q w
  rw [wp] at h
  generalize redisAppendCommand H.logged c q w = p at h ⊢
  obtain ⟨r, w'⟩ := p
  obtain ⟨⟨hcc, hheap, hnext⟩, h⟩ := h
  cases r with
  | ok =>
    obtain ⟨hlog, hconns⟩ := h
    exact ⟨⟨_, hlog.symm⟩, fun _ hl => loggedIn_wrote hl hq hcc hheap hnext hlog hconns⟩
  | err =>
    obtain ⟨hlog, f, hconns⟩ := h
    have hsame := sessions_of_fault (k := k) (x := none) hlog hcc hheap hnext hconns
    exact ⟨hsame.le, fun _ hl => hsame.loggedIn hl⟩

theorem topologyQuery_notAuth (cc : Context) : cc.topologyQuery.isAuth = false := by
  unfold Context.topologyQuery
  split
  · rfl
  · rfl

theorem triple_clusterUpdateRouteSendCommand (c : ConnId) :
    sessions.Triple (LoggedIn k c) (clusterUpdateRouteSendCommand H.logged c)
      fun _ => LoggedIn k c := by
  refine triple_get_bind fun w => ?_
  refine ((triple_redisAppendCommand H c (topologyQuery_notAuth w.cc)).pre fun _ h => h.2).bind
    fun r => ?_
  cases r with
  | ok => exact triple_loggedIn (sessions_redisBufferWrite H c)
  | err =>
    refine triple_loggedIn (Program.Within.sameSessions ?_)
    exact within_bind within_get fun _ => within_bind (ErrorClosed.setError _ _) fun _ =>
      within_pure _

/-- What an attempt comes to that asks for AUTH: it is free of rejections, or they are an
error of the context. -/
def Tried (k : ℕ) (r : Status) (w : World (ω × List Exchange)) : Prop :=
  match r with
  | .ok => Unrefused k w
  | .err => Excused k w

/-- The connection could not be established. -/
theorem triple_copyError {w : World (ω × List Exchange)} (herr : (w.conns c).err.isSome = true) :
    sessions.Triple (fun s => s = w ∧ Lone k c s) (copyError c : Prog (ω × List Exchange) Unit)
      fun _ => Excused k := by
  intro s
  have hsame : SameSessions k (some c) s (copyError c s).2 := sessions_copyError c s
  have hcalm : Calm s (copyError c s).2 := within_copyError c s
  refine ⟨hsame.le, fun _ h => ?_⟩
  obtain ⟨rfl, hl⟩ := h
  have hl' : Lone k c (copyError c s).2 :=
    ⟨hsame.secured hl.secured, Nat.lt_of_lt_of_le hl.lt hcalm.nextConn,
      fun n hn => hl.unheld n (hcalm.conOld n c hn)⟩
  exact hl'.whole.excused (copyError_failed (Option.isSome_iff_ne_none.mp herr))

theorem lone_userHook : sessions.Triple (Lone k c) (userHook : Prog (ω × List Exchange) Unit)
    fun _ => Lone k c := by
  intro w
  have hsame : SameSessions k (some c) w (userHook w).2 := offline_userHook.sameSessions w
  exact ⟨hsame.le, fun _ hl => ⟨hsame.secured hl.secured, hl.lt, hl.unheld⟩⟩

/-- The conversation over a new connection. -/
theorem triple_queryTopology (c : ConnId) :
    sessions.Triple (Lone k c) (queryTopology H.logged c) (Tried k) := by
  refine triple_get_bind fun w => triple_ite (fun herr => ?_) fun _ => ?_
  · exact (triple_copyError herr).bind fun _ => triple_pure fun _ h => h
  · refine ((triple_startTls H c).pre fun _ h => h.2).bind fun s => ?_
    cases s with
    | err => exact triple_pure fun _ h => h.1.whole.excused (h.2 rfl)
    | ok =>
      refine ((triple_authenticate H c).pre fun _ h => h.1).bind fun s => ?_
      cases s with
      | err => exact triple_pure fun _ h => h.2 rfl
      | ok =>
        refine ((triple_clusterUpdateRouteSendCommand H c).pre fun _ h => (h.1 rfl).1).bind fun s => ?_
        cases s with
        | err => exact triple_pure fun _ h => h.toUnrefused.excused
        | ok =>
          refine ((triple_unrefused (sessions_handleReply H c)).pre
            fun _ h => h.toUnrefused).post fun r _ h => ?_
          cases r with
          | ok => exact h
          | err => exact h.excused

theorem triple_setError {type : Err} {str : ErrText} :
    sessions.Triple (Secured k none) (setError (some type) str : Prog (ω × List Exchange) Unit)
      fun _ => Excused k := by
  intro w
  have hsame : SameSessions k none w (setError (some type) str w).2 :=
    Program.Within.sameSessions (ErrorClosed.setError _ _) w
  exact ⟨hsame.le, fun _ hs => (hsame.secured hs).excused failed_setError⟩

theorem tried_redisFree {c : Option ConnId} {r : Status} :
    sessions.Triple (Tried k r) (redisFree c : Prog (ω × List Exchange) Unit)
      fun _ => Tried k r := by
  intro w
  have hsame : SameSessions k none w (redisFree c w).2 :=
    Program.Within.sameSessions (ContextClosed.redisFree c) w
  refine ⟨hsame.le, fun _ h => ?_⟩
  cases r with
  | ok => exact hsame.unrefused h
  | err => exact hsame.excused h (keeps_redisFree c w)

theorem triple_clusterUpdateRouteByAddr (ip : Bytes) (port : ℕ) :
    sessions.Triple (Secured k none) (clusterUpdateRouteByAddr H.logged ip port) (Tried k) := by
  have hfail : ∀ type str, sessions.Triple (Secured k none)
      (do setError (some type) str; pure Status.err : Prog (ω × List Exchange) Status) (Tried k) :=
    fun type str => triple_setError.bind fun _ => triple_pure fun _ h => h
  refine triple_ite (fun _ => hfail _ _) fun _ => ?_
  refine (triple_redisConnectWithOptions H ip port).bind fun c => ?_
  cases c with
  | none => exact hfail _ _
  | some c =>
    exact lone_userHook.bind fun _ => (triple_queryTopology H c).bind fun r =>
      tried_redisFree.bind fun _ => triple_pure fun _ h => h

theorem triple_clearError :
    sessions.Triple (Unrefused k) (clearError : Prog (ω × List Exchange) Unit)
      fun _ => Unrefused k :=
  triple_unrefused (Program.Within.sameSessions (ErrorClosed.setError _ _))

/-- One node after the other is asked; the error of the last one remains. -/
theorem triple_updateSlotmapFrom (ns : List NodeId) :
    sessions.Triple (Excused k) (updateSlotmapFrom H.logged ns) (Tried k) := by
  induction ns with
  | nil => exact triple_pure fun _ h => h
  | cons n ns ih =>
    refine triple_get_bind fun w => ?_
    refine ((triple_clusterUpdateRouteByAddr H _ _).pre fun _ h => h.2.secured).bind fun r => ?_
    cases r with
    | ok => exact triple_clearError.bind fun _ => triple_pure fun _ h => h
    | err => exact ih

theorem triple_redisClusterUpdateSlotmap :
    sessions.Triple (Secured k none) (redisClusterUpdateSlotmap H.logged) (Tried k) := by
  have hfail : ∀ type str, sessions.Triple (Secured k none)
      (do setError (some type) str; pure Status.err : Prog (ω × List Exchange) Status) (Tried k) :=
    fun type str => triple_setError.bind fun _ => triple_pure fun _ h => h
  refine triple_get_bind fun w => Triple.pre (I := Secured k none) ?_ fun _ h => h.2
  cases w.cc.nodes with
  | none => exact hfail _ _
  | some nodes =>
    refine triple_ite (fun _ => hfail _ _) fun hne => ?_
    cases hv : nodes.vals with
    | nil => exact (hne hv).elim
    | cons n ns =>
      -- the first attempt sets the error that the others may leave
      refine triple_get_bind fun w => ?_
      refine ((triple_clusterUpdateRouteByAddr H _ _).pre fun _ h => h.2).bind fun r => ?_
      cases r with
      | ok => exact triple_clearError.bind fun _ => triple_pure fun _ h => h
      | err => exact triple_updateSlotmapFrom H ns

end Asking

/-! ## Reaching a node -/

section Reaching

variable (H : Hiredis ω) {k : ℕ} {c : ConnId}

/-- The connection of a node has been reconnected, and AUTH is still to come. -/
structure Reopened (k : ℕ) (c : ConnId) (w : World (ω × List Exchange)) : Prop where
  secured : Secured k (some c) w
  unrefused : ¬ w.refusedSince k
  reopened : .reconnect c ∈ w.log

/-- The connection of a node, if there is one, may be written to unless it is in error. -/
def Obtained (k : ℕ) (r : Option ConnId) (w : World (ω × List Exchange)) : Prop :=
  match r with
  | none => Excused k w
  | some c => Unrefused k w ∧ ((w.conns c).err = none → authed c w.log = true)

theorem triple_reopened {α : Type} {m : Prog (ω × List Exchange) α}
    (h : Within (SameSessions k (some c)) m) :
    sessions.Triple (Reopened k c) m fun _ => Reopened k c :=
  fun w => ⟨(h w).le, fun _ hr => ⟨(h w).secured hr.secured,
    fun hx => hr.unrefused (((h w).refusedSince hr.secured).mp hx),
    (h w).le.subset hr.reopened⟩⟩

theorem triple_redisReconnect (c : ConnId) :
    sessions.Triple (Unrefused k) (redisReconnect H.logged c) fun _ => Reopened k c := by
  intro w
  have hlog : (redisReconnect H.logged c w).2.log = w.log ++ [.reconnect c] := rfl
  refine ⟨⟨_, hlog.symm⟩, fun _ hu => ?_⟩
  have hs := hu.secured
  have hauth : ∀ c' ≠ c, authed c' (redisReconnect H.logged c w).2.log = authed c' w.log := by
    intro c' hc
    rw [hlog, authed_concat, authStep, if_neg (Ne.symm hc)]
  have hord : Orderly k (redisReconnect H.logged c w).2.log := by
    rw [hlog]
    exact hs.orderly.concat fun c' q he => by cases he
  refine ⟨(hs.elsewhere (fun _ _ => by simp) hlog hord hauth
    (fun c' hc => Function.update_of_ne hc _ _) rfl rfl rfl).1 ?_, fun hr => ?_, ?_⟩
  · exact congrArg Conn.queue (Function.update_self (f := w.conns) c _)
  · rw [World.refusedSince, hlog, refused_concat hs.since] at hr
    exact hu.unrefused hr
  · rw [hlog]
    exact List.mem_append_right _ List.mem_cons_self

/-- The result of AUTH is not looked at: all depends on its not being rejected. -/
theorem triple_authenticate_reopened (c : ConnId) :
    sessions.Triple (Reopened k c) (authenticate H.logged c) fun _ => Obtained k (some c) := by
  intro w
  obtain ⟨hle, hlogin⟩ := authenticate_login (k := k) H c w
  refine ⟨hle, fun hgood hr => ?_⟩
  have hin := hlogin hr.secured
  generalize (authenticate H.logged c w).1 = r at hin ⊢
  cases hin with
  | accepted user pw hs hlog =>
    have hauth := authed_of_accepted hlog
    exact ⟨⟨hs.whole fun _ _ _ => hauth, unrefused_of_accepted hr.secured.since hlog⟩, fun _ => hauth⟩
  | rejected user pw hs hlog herr =>
    refine (hgood ⟨c, user, pw, ?_⟩).elim
    rw [hlog]
    exact (List.singleton_sublist.mpr hr.reopened).append
      (List.singleton_sublist.mpr (by simp) : [Exchange.reply c (.auth user pw) true].Sublist _)
  | failed hs hconn href herr =>
    exact ⟨⟨hs, fun hx => hr.unrefused (href hx)⟩, fun hnone => (hconn hnone).elim⟩

theorem triple_reconnectNode (c : ConnId) :
    sessions.Triple (Unrefused k) (reconnectNode H.logged c) fun _ => Obtained k (some c) :=
  (triple_redisReconnect H c).bind fun _ =>
    (triple_reopened (Program.Within.sameSessions offline_userHook)).bind fun _ =>
      (triple_reopened (sessions_startTls H c)).bind fun _ =>
        (triple_authenticate_reopened H c).bind fun _ => triple_pure fun _ h => h

/-- A node gets a connection. -/
theorem triple_link (n : NodeId) :
    sessions.Triple (fun w => LoggedIn k c w ∧ c < w.nextConn)
      (modifyNode n fun node => { node with con := some c } : Prog (ω × List Exchange) Unit)
      fun _ w => Obtained k (some c) w := by
  intro w
  refine ⟨List.prefix_rfl, fun _ h => ?_⟩
  obtain ⟨hl, hlt⟩ := h
  have hs := hl.secured
  have hcon : ∀ m c', (Function.update w.heap n { w.heap n with con := some c } m).con = some c' →
      c' = c ∨ (w.heap m).con = some c' := by
    intro m c' hm
    by_cases hn : m = n
    · subst hn
      rw [Function.update_self] at hm
      exact Or.inl (Option.some.inj hm).symm
    · rw [Function.update_of_ne hn] at hm
      exact Or.inr hm
  refine ⟨⟨{ hs with nodes := fun m c' hm hx he => ?_, lt := fun m c' hm => ?_ }, hl.unrefused⟩,
    fun _ => hl.authed⟩
  · rcases hcon m c' hm with rfl | hold
    · exact hl.authed
    · exact hs.nodes m c' hold hx he
  · rcases hcon m c' hm with rfl | hold
    · exact hlt
    · exact hs.lt m c' hold

theorem triple_openNode (n : NodeId) :
    sessions.Triple (Secured k none) (openNode H.logged n) (Obtained k) := by
  have hgive : ∀ c, sessions.Triple (Excused k)
      (do redisFree (some c); pure none : Prog (ω × List Exchange) (Option ConnId)) (Obtained k) :=
    fun c => (tried_redisFree (r := .err)).bind fun _ => triple_pure fun _ h => h
  refine triple_get_bind fun w => ?_
  refine ((triple_redisConnectWithOptions H _ _).pre fun _ h => h.2).bind fun c => ?_
  cases c with
  | none => exact triple_setError.bind fun _ => triple_pure fun _ h => h
  | some c =>
    refine lone_userHook.bind fun _ => triple_get_bind fun w => triple_ite (fun herr => ?_) fun _ => ?_
    · exact (triple_copyError herr).bind fun _ => hgive c
    · refine ((triple_startTls H c).pre fun _ h => h.2).bind fun s => ?_
      cases s with
      | err => exact (hgive c).pre fun _ h => h.1.whole.excused (h.2 rfl)
      | ok =>
        refine ((triple_authenticate H c).pre fun _ h => h.1).bind fun s => ?_
        cases s with
        | err => exact (hgive c).pre fun _ h => h.2 rfl
        | ok => exact ((triple_link n).pre fun _ h => h.1 rfl).bind fun _ => triple_pure fun _ h => h

theorem triple_ctxGetByNode (n : NodeId) :
    sessions.Triple (Unrefused k) (ctxGetByNode H.logged n) (Obtained k) := by
  refine triple_get_bind fun w => ?_
  cases hcon : (w.heap n).con with
  | some c =>
    refine triple_ite (fun _ => ?_) fun hok => triple_pure fun s h => ?_
    · exact ((triple_reconnectNode H c).pre fun _ h => h.2).bind fun _ => triple_pure fun _ h => h
    · obtain ⟨rfl, hu⟩ := h
      exact ⟨hu, fun he => hu.secured.nodes n c hcon (by simp) he⟩
  | none =>
    refine triple_ite (fun _ => triple_pure fun _ h => h.2.excused) fun _ => ?_
    exact (triple_openNode H n).pre fun _ h => h.2.secured

end Reaching

/-! ## The command loop -/

section Loop

variable (H : Hiredis ω) {k : ℕ}

/-- What is known at a place of the loop. -/
def AtPc (k : ℕ) (e : Exec) (w : World (ω × List Exchange)) : Prop :=
  match e.pc with
  | .retry => Unrefused k w
  | .send c => LoggedIn k c w
  | .moved _ c => LoggedIn k c w
  | .follow _ _ => Unrefused k w
  | .asking c => LoggedIn k c w
  | .done none => Excused k w
  | .done (some _) => Unrefused k w
  | .ret none => Excused k w
  | .ret (some _) => Unrefused k w

theorem triple_lookupNode (n : NodeId) :
    sessions.Triple (Unrefused k) (lookupNode H.logged n) (Obtained k) :=
  triple_get_bind fun _ => ((triple_unrefused (Program.Within.sameSessions (offline_record _))).pre
    fun _ h => h.2).bind fun _ => triple_ctxGetByNode H n

theorem unrefused_copyError (c : ConnId) :
    sessions.Triple (Unrefused k) (copyError c : Prog (ω × List Exchange) Unit)
      fun _ => Unrefused k :=
  triple_unrefused (sessions_copyError c)

theorem unrefused_nodeGetByTable (slot : ℕ) :
    sessions.Triple (Unrefused k) (nodeGetByTable slot : Prog (ω × List Exchange) _)
      fun _ => Unrefused k :=
  triple_unrefused (Program.Within.sameSessions (within_nodeGetByTable slot))

theorem triple_connectOrFail (n : NodeId) {next : ConnId → Pc} (u : Option ConnId)
    (hnext : ∀ c (w : World (ω × List Exchange)), LoggedIn k c w → AtPc k ⟨next c, u⟩ w) :
    sessions.Triple (Unrefused k) (connectOrFail H.logged n next u) (AtPc k) := by
  refine (triple_lookupNode H n).bind fun r => ?_
  cases r with
  | none => exact triple_pure fun _ h => h
  | some c =>
    refine triple_get_bind fun w => triple_ite (fun _ => ?_) fun hok => triple_pure fun s h => ?_
    · exact ((unrefused_copyError c).pre fun _ h => h.2.1).bind fun _ =>
        triple_pure fun _ h => h.excused
    · obtain ⟨rfl, hu, hauth⟩ := h
      exact hnext c s ⟨hu, hauth (Option.not_isSome_iff_eq_none.mp hok)⟩

theorem triple_reconnectAfterUpdate (cmd : Cmd) (u : Option ConnId) :
    sessions.Triple (Secured k none) (reconnectAfterUpdate H.logged cmd u) (AtPc k) := by
  refine (triple_redisClusterUpdateSlotmap H).bind fun s => ?_
  cases s with
  | err => exact triple_pure fun _ h => h
  | ok =>
    refine (unrefused_nodeGetByTable _).bind fun r => ?_
    cases r with
    | none => exact triple_pure fun _ h => h.excused
    | some n => exact triple_connectOrFail H n u fun _ _ h => h

theorem triple_connectOrUpdate (cmd : Cmd) (n : NodeId) (u : Option ConnId) :
    sessions.Triple (Unrefused k) (connectOrUpdate H.logged cmd n u) (AtPc k) := by
  refine (triple_lookupNode H n).bind fun r => ?_
  cases r with
  | none => exact (triple_reconnectAfterUpdate H cmd u).pre fun _ h => h.secured
  | some c =>
    refine triple_get_bind fun w => triple_ite (fun _ => ?_) fun hok => triple_pure fun s h => ?_
    · exact (triple_reconnectAfterUpdate H cmd u).pre fun _ h => h.2.1.secured
    · obtain ⟨rfl, hu, hauth⟩ := h
      exact ⟨hu, hauth (Option.not_isSome_iff_eq_none.mp hok)⟩

theorem triple_execRetry (cmd : Cmd) (u : Option ConnId) :
    sessions.Triple (Unrefused k) (execRetry H.logged cmd u) (AtPc k) := by
  refine (unrefused_nodeGetByTable _).bind fun r => ?_
  cases r with
  | some n => exact triple_connectOrUpdate H cmd n u
  | none =>
    refine ((triple_redisClusterUpdateSlotmap H).pre fun _ h => h.secured).bind fun s => ?_
    cases s with
    | err => exact triple_pure fun _ h => h
    | ok =>
      refine (unrefused_nodeGetByTable _).bind fun r => ?_
      cases r with
      | none => exact triple_pure fun _ h => h.excused
      | some n => exact triple_connectOrUpdate H cmd n u

theorem triple_pipelineUpdate (c : ConnId) (u : Option ConnId) :
    sessions.Triple (LoggedIn k c) (pipelineUpdate H.logged c u) fun _ => LoggedIn k c := by
  refine triple_get_bind fun w => triple_ite (fun _ => ?_) fun _ => triple_pure fun _ h => h.2
  refine ((triple_clusterUpdateRouteSendCommand H c).pre fun _ h => h.2).bind fun s => ?_
  cases s with
  | ok => exact triple_pure fun _ h => h
  | err => exact triple_pure fun _ h => h

theorem offline_count {f : Context → Context} (hf : Counts f) :
    Within Offline (modifyCc f : Prog (ω × List Exchange) Unit) :=
  ContextClosed.modifyCc hf

theorem triple_execRedirect (c : ConnId) (u : Option ConnId) (type : ErrorType) (str : Bytes) :
    sessions.Triple (LoggedIn k c) (execRedirect c u type str : Prog (ω × List Exchange) Exec)
      (AtPc k) := by
  refine (triple_loggedIn (Program.Within.sameSessions (offline_count counts_redirect))).bind
    fun _ => triple_get_bind fun w => Triple.pre (I := LoggedIn k c) ?_ fun _ h => h.2
  refine triple_ite (fun _ => ?_) fun _ => ?_
  · exact (triple_setError.pre fun _ h => h.secured).bind fun _ => triple_pure fun _ h => h
  · split
    · refine (triple_loggedIn (Program.Within.sameSessions (within_handleMoved str))).bind fun r => ?_
      cases r with
      | none => exact triple_pure fun _ h => h.toUnrefused.excused
      | some n => exact triple_pure fun _ h => h
    · refine (triple_loggedIn (Program.Within.sameSessions (within_handleAsk str))).bind fun r => ?_
      cases r with
      | none => exact triple_pure fun _ h => h.toUnrefused.excused
      | some n => exact triple_pure fun _ h => h.toUnrefused
    · exact triple_pure fun _ h => h.toUnrefused

theorem triple_execSend (cmd : Cmd) (c : ConnId) (u : Option ConnId) :
    sessions.Triple (LoggedIn k c) (execSend H.logged cmd c u) (AtPc k) := by
  refine (triple_redisAppendCommand H c rfl).bind fun s => ?_
  cases s with
  | err =>
    exact (triple_loggedIn (sessions_copyError c)).bind fun _ =>
      triple_pure fun _ h => h.toUnrefused.excused
  | ok =>
    refine (triple_pipelineUpdate H c u).bind fun u' =>
      (triple_loggedIn (sessions_redisGetReply H c _)).bind fun a => ?_
    cases a with
    | none =>
      refine (triple_loggedIn (sessions_copyError c)).bind fun _ => triple_get_bind fun w =>
        triple_ite (fun _ => triple_pure fun _ h => h.2.toUnrefused.excused) fun _ => ?_
      exact ((triple_loggedIn (Program.Within.sameSessions
        (offline_count (counts_needUpdateRoute _)))).pre fun _ h => h.2).bind fun _ =>
          triple_pure fun _ h => h.toUnrefused.excused
    | some a =>
      show sessions.Triple _ (execReply c u' a) _
      unfold execReply
      split
      · exact triple_pure fun _ h => h.toUnrefused
      · exact triple_pure fun _ h => h.toUnrefused
      · exact triple_execRedirect c u' _ _

theorem triple_execMoved (n : NodeId) (c : ConnId) (u : Option ConnId) :
    sessions.Triple (LoggedIn k c) (execMoved H.logged n c u) (AtPc k) := by
  cases u with
  | some c' => exact triple_pure fun _ h => h.toUnrefused
  | none =>
    refine (triple_clusterUpdateRouteSendCommand H c).bind fun s => ?_
    cases s with
    | ok => exact triple_pure fun _ h => h.toUnrefused
    | err =>
      refine ((triple_redisClusterUpdateSlotmap H).pre fun _ h => h.secured).bind fun s => ?_
      cases s with
      | ok => exact triple_clearError.bind fun _ => triple_pure fun _ h => h
      | err => exact triple_pure fun _ h => h

theorem triple_execAsking (c : ConnId) (u : Option ConnId) :
    sessions.Triple (LoggedIn k c) (execAsking H.logged c u) (AtPc k) := by
  have hask : sessions.Triple (LoggedIn k c) (redisCommand H.logged c .asking)
      fun _ => LoggedIn k c := by
    refine (triple_redisAppendCommand H c rfl).bind fun s => ?_
    cases s with
    | err => exact triple_pure fun _ h => h
    | ok => exact triple_loggedIn (sessions_redisGetReply H c _)
  refine hask.bind fun r => ?_
  cases r with
  | none =>
    exact (triple_loggedIn (sessions_copyError c)).bind fun _ =>
      triple_pure fun _ h => h.toUnrefused.excused
  | some a => exact triple_pure fun _ h => h

theorem atPc_done {r : Option Answer} {u u' : Option ConnId} {w : World (ω × List Exchange)} :
    AtPc k ⟨.done r, u⟩ w ↔ AtPc k ⟨.ret r, u'⟩ w := by
  cases r with
  | none => exact Iff.rfl
  | some a => exact Iff.rfl

theorem AtPc.secured {r : Option Answer} {u : Option ConnId} {w : World (ω × List Exchange)}
    (h : AtPc k ⟨.ret r, u⟩ w) : Secured k none w := by
  cases r with
  | none => exact Excused.secured h
  | some a => exact Unrefused.secured h

theorem AtPc.of_unrefused {w : World (ω × List Exchange)} (h : Unrefused k w) (r : Option Answer)
    (u : Option ConnId) : AtPc k ⟨.ret r, u⟩ w := by
  cases r with
  | none => exact h.excused
  | some a => exact h

/-- A topology reply that is read leaves the error of the command in place. -/
theorem triple_deferred (c : ConnId) (r : Option Answer) (u : Option ConnId) :
    sessions.Triple (AtPc k ⟨.ret r, u⟩) (clusterUpdateRouteHandleReply H.logged c)
      fun s w => match s with
        | .ok => AtPc k ⟨.ret r, u⟩ w
        | .err => Secured k none w := by
  intro w
  have hsame := sessions_handleReply (k := k) H c w
  have hrep := clusterUpdateRouteHandleReply_reports H.logged c w
  rw [wp] at hrep
  generalize clusterUpdateRouteHandleReply H.logged c w = p at hsame hrep ⊢
  obtain ⟨s, w'⟩ := p
  refine ⟨hsame.le, fun _ h => ?_⟩
  cases s with
  | err => exact hsame.secured h.secured
  | ok =>
    cases r with
    | none => exact hsame.excused h hrep
    | some a => exact hsame.unrefused h

theorem triple_execDone (r : Option Answer) (u : Option ConnId) :
    sessions.Triple (AtPc k ⟨.done r, u⟩) (execDone H.logged r u) (AtPc k) := by
  cases u with
  | none => exact triple_pure fun _ h => atPc_done.mp h
  | some c =>
    refine triple_get_bind fun w => ?_
    have hrec : sessions.Triple (AtPc k ⟨.ret r, some c⟩)
        (record (.deferred c (decide (w.Held c))) : Prog (ω × List Exchange) Unit)
        fun _ => AtPc k ⟨.ret r, some c⟩ := by
      cases r with
      | none => exact fun s => ⟨List.prefix_rfl, fun _ h =>
          (offline_record _ s).sameSessions.excused h fun hf => hf⟩
      | some a => exact triple_unrefused (Program.Within.sameSessions (offline_record _))
    refine (hrec.pre fun _ h => atPc_done.mp h.2).bind fun _ =>
      (triple_deferred H c r (some c)).bind fun s => ?_
    cases s with
    | ok => exact triple_pure fun _ h => h
    | err =>
      refine (triple_secured (Program.Within.sameSessions (ErrorClosed.setError _ _))).bind
        fun _ => (triple_redisClusterUpdateSlotmap H).bind fun s => ?_
      cases s with
      | ok => exact triple_pure fun _ h => .of_unrefused h r _
      | err => exact triple_pure fun _ h => h

theorem triple_execStep (cmd : Cmd) (e : Exec) :
    sessions.Triple (AtPc k e) (execStep H.logged cmd e) (AtPc k) := by
  obtain ⟨pc, u⟩ := e
  cases pc with
  | retry => exact triple_execRetry H cmd u
  | send c => exact triple_execSend H cmd c u
  | moved n c => exact triple_execMoved H n c u
  | follow n ask =>
    refine triple_connectOrFail H n u fun c w h => ?_
    cases ask with
    | true => exact h
    | false => exact h
  | asking c => exact triple_execAsking H c u
  | done r => exact triple_execDone H r u
  | ret r => exact triple_pure fun _ h => h

end Loop

/-! ## Commands -/

section Commands

variable (H : Hiredis ω) {k : ℕ}

/-- A reply is returned only if no AUTH was rejected, or another was accepted after it. -/
def Returns {α : Type} (k : ℕ) (r : Option α) (w : World (ω × List Exchange)) : Prop :=
  match r with
  | none => Excused k w
  | some _ => Unrefused k w

theorem returns_map {α β : Type} {f : α → β} {r : Option α} {w : World (ω × List Exchange)}
    (h : Returns k r w) : Returns k (r.map f) w := by
  cases r with
  | none => exact h
  | some a => exact h

theorem Returns.of_unrefused {α : Type} {w : World (ω × List Exchange)} (h : Unrefused k w)
    (r : Option α) : Returns k r w := by
  cases r with
  | none => exact h.excused
  | some a => exact h

theorem triple_execAt (cmd : Cmd) (w : World (ω × List Exchange)) (n : ℕ) :
    w.log <+: (execAt H.logged cmd w n).2.log ∧
      (¬ RefusedOnReconnect (execAt H.logged cmd w n).2.log → Unrefused k w →
        AtPc k (execAt H.logged cmd w n).1 (execAt H.logged cmd w n).2) := by
  unfold execAt
  induction n with
  | zero => exact ⟨List.prefix_rfl, fun _ h => h⟩
  | succ n ih =>
    rw [Function.iterate_succ_apply']
    have hstep := triple_execStep (k := k) H cmd ((execNext H.logged cmd)^[n] (execStart, w)).1
      ((execNext H.logged cmd)^[n] (execStart, w)).2
    exact ⟨ih.1.trans hstep.1, fun hg hu => hstep.2 hg (ih.2 (sessions.mono hstep.1 hg) hu)⟩

theorem triple_redisClusterCommandExecute (cmd : Cmd) :
    sessions.Triple (Unrefused k) (redisClusterCommandExecute H.logged cmd) (Returns k) := by
  intro w
  obtain ⟨hle, hat⟩ := triple_execAt (k := k) H cmd w (execFuel w)
  refine ⟨hle, fun hg hu => ?_⟩
  have h := hat hg hu
  obtain ⟨r, hr⟩ := execAt_returned H.logged cmd w
  show Returns k (execAt H.logged cmd w (execFuel w)).1.result _
  unfold AtPc at h
  unfold Exec.result
  rw [hr] at h ⊢
  cases r with
  | none => exact h
  | some a => exact h

/-- What has become of the fragments. -/
def Fragments (k : ℕ) (x : Executed) (w : World (ω × List Exchange)) : Prop :=
  match x with
  | .failed => Excused k w
  | .error _ => Unrefused k w
  | .replies _ => Unrefused k w

theorem triple_executeFragments (frags : List Cmd) : ∀ done, sessions.Triple (Unrefused k)
    (executeFragments H.logged done frags) (Fragments k) := by
  induction frags with
  | nil => exact fun done => triple_pure fun _ h => h
  | cons f fs ih =>
    intro done
    refine (triple_redisClusterCommandExecute H f).bind fun r => ?_
    cases r with
    | none => exact triple_pure fun _ h => h
    | some a =>
      obtain ⟨sent, reply⟩ := a
      cases reply with
      | error s => exact triple_pure fun _ h => h
      | _ => exact ih _

theorem triple_executeFormatted (r : Request) :
    sessions.Triple (Unrefused k) (executeFormatted H.logged r) (Returns k) := by
  unfold executeFormatted
  split
  · exact (triple_redisClusterCommandExecute H _).bind fun _ => triple_pure fun _ => returns_map
  · refine (triple_executeFragments H _ _).bind fun x => ?_
    cases x with
    | failed => exact triple_pure fun _ h => h
    | error r => exact triple_pure fun _ h => h
    | replies rs =>
      exact (triple_unrefused (Program.Within.sameSessions (within_commandPostFragment _ _ rs))).post
        fun r _ h => .of_unrefused h r

theorem unrefused_offline {α : Type} {m : Prog (ω × List Exchange) α} (h : Within Offline m) :
    sessions.Triple (Unrefused k) m fun _ => Unrefused k :=
  triple_unrefused (Program.Within.sameSessions h)

theorem returns_count {α : Type} {r : Option α} :
    sessions.Triple (Returns k r)
      (modifyCc fun cc => { cc with retryCount := 0 } : Prog (ω × List Exchange) Unit)
      fun _ => Returns k r := by
  intro w
  have hsame := (offline_modifyCc (f := fun cc => { cc with retryCount := 0 }) (fun _ => rfl) w).sameSessions
    (k := k) (x := none)
  refine ⟨hsame.le, fun _ h => ?_⟩
  cases r with
  | none => exact hsame.excused h fun hf => hf
  | some a => exact hsame.unrefused h

/-- **A command that returns a reply has not been refused.** -/
theorem triple_redisClusterFormattedCommand (cmd : Bytes) :
    sessions.Triple (Unrefused k) (redisClusterFormattedCommand H.logged cmd) (Returns k) := by
  refine (unrefused_offline within_resetError).bind fun _ =>
    (unrefused_offline within_commandGet).bind fun id =>
      (unrefused_offline (within_commandFormatBySlot _)).bind fun p => ?_
  have hreset : Within Offline
      (modifyCc fun cc => { cc with retryCount := 0 } : Prog (ω × List Exchange) Unit) :=
    offline_modifyCc fun _ => rfl
  refine triple_ite (fun _ => ?_) fun _ => triple_ite (fun _ => ?_) fun _ => ?_
  · exact (unrefused_offline hreset).bind fun _ => triple_pure fun _ h => h.excused
  · exact (unrefused_offline (ErrorClosed.setError _ _)).bind fun _ =>
      (unrefused_offline hreset).bind fun _ => triple_pure fun _ h => h.excused
  · exact (triple_executeFormatted H _).bind fun r => returns_count.bind fun _ =>
      triple_pure fun _ h => h

theorem loggedIn_offline {α : Type} {c : ConnId} {m : Prog (ω × List Exchange) α}
    (h : Within Offline m) : sessions.Triple (LoggedIn k c) m fun _ => LoggedIn k c :=
  triple_loggedIn (Program.Within.sameSessions h)

theorem triple_commandToNodeUpdate (c : ConnId) :
    sessions.Triple (LoggedIn k c) (commandToNodeUpdate H.logged c) fun _ => LoggedIn k c := by
  refine triple_get_bind fun w => triple_ite (fun _ => ?_) fun _ => triple_pure fun _ h => h.2
  refine ((triple_clusterUpdateRouteSendCommand H c).pre fun _ h => h.2).bind fun s => ?_
  cases s with
  | ok => exact triple_pure fun _ h => h
  | err => exact triple_pure fun _ h => h

theorem sessions_commandToNodeReply (c : ConnId) (q : Sent) (b : Bool) :
    Within (SameSessions k none) (commandToNodeReply H.logged c q b) := by
  refine within_bind (sessions_redisGetReply H c q) fun a => ?_
  cases a with
  | none =>
    exact within_bind (sessions_copyError c) fun _ => within_bind within_get fun w =>
      within_ite (within_pure _) (within_bind (Program.Within.sameSessions
        (offline_count (counts_needUpdateRoute _))) fun _ => within_pure _)
  | some a =>
    refine within_ite (within_bind (sessions_handleReply H c) fun s => ?_) (within_pure _)
    cases s with
    | ok => exact within_pure _
    | err =>
      exact within_bind (Program.Within.sameSessions (ErrorClosed.setError _ _)) fun _ =>
        within_pure _

theorem triple_redisClustervCommandToNode (n : NodeId) (cmd : Bytes) :
    sessions.Triple (Unrefused k) (redisClustervCommandToNode H.logged n cmd) (Returns k) := by
  refine (triple_ctxGetByNode H n).bind fun r => ?_
  cases r with
  | none => exact triple_pure fun _ h => h
  | some c =>
    refine triple_get_bind fun w => triple_ite (fun _ => ?_) fun hok => ?_
    · exact ((unrefused_copyError c).pre fun _ h => h.2.1).bind fun _ =>
        triple_pure fun _ h => h.excused
    · refine Triple.pre (I := LoggedIn k c) ?_ fun s h => ?_
      · refine (loggedIn_offline within_resetError).bind fun _ =>
          (loggedIn_offline within_commandGet).bind fun id =>
            (triple_redisAppendCommand H c rfl).bind fun s => ?_
        cases s with
        | err =>
          exact (triple_loggedIn (sessions_copyError c)).bind fun _ =>
            triple_pure fun _ h => h.toUnrefused.excused
        | ok =>
          exact (triple_commandToNodeUpdate H c).bind fun b =>
            (triple_loggedIn (sessions_commandToNodeReply H c _ b)).bind fun r =>
              triple_pure fun _ h => .of_unrefused h.toUnrefused _
      · obtain ⟨rfl, hu, hauth⟩ := h
        exact ⟨hu, hauth (Option.not_isSome_iff_eq_none.mp hok)⟩

end Commands

/-! ## Pipelines -/

section Pipelines

variable (H : Hiredis ω) {k : ℕ}

theorem triple_clusterAppendCommand (f : Cmd) :
    sessions.Triple (Unrefused k) (clusterAppendCommand H.logged f) (Tried k) := by
  refine (unrefused_nodeGetByTable _).bind fun n => ?_
  cases n with
  | none => exact triple_pure fun _ h => h.excused
  | some n =>
    refine (triple_ctxGetByNode H n).bind fun c => ?_
    cases c with
    | none => exact triple_pure fun _ h => h
    | some c =>
      refine triple_get_bind fun w => triple_ite (fun _ => ?_) fun hok => ?_
      · exact ((unrefused_copyError c).pre fun _ h => h.2.1).bind fun _ =>
          triple_pure fun _ h => h.excused
      · refine Triple.pre (I := LoggedIn k c) ?_ fun s h => ?_
        · refine (triple_redisAppendCommand H c rfl).bind fun s => ?_
          cases s with
          | err =>
            exact (triple_loggedIn (sessions_copyError c)).bind fun _ =>
              triple_pure fun _ h => h.toUnrefused.excused
          | ok => exact triple_pure fun _ h => h.toUnrefused
        · obtain ⟨rfl, hu, hauth⟩ := h
          exact ⟨hu, hauth (Option.not_isSome_iff_eq_none.mp hok)⟩

theorem triple_appendFragments (frags : List Cmd) :
    sessions.Triple (Unrefused k) (appendFragments H.logged frags) (Tried k) := by
  induction frags with
  | nil => exact triple_pure fun _ h => h
  | cons f fs ih =>
    refine (triple_clusterAppendCommand H f).bind fun s => ?_
    cases s with
    | err => exact triple_pure fun _ h => h
    | ok => exact ih

theorem triple_redisClusterAppendFormattedCommand (cmd : Bytes) :
    sessions.Triple (Unrefused k) (redisClusterAppendFormattedCommand H.logged cmd) (Tried k) := by
  refine (unrefused_offline (ContextClosed.modifyCc (counts_requests _))).bind fun _ =>
    (unrefused_offline within_commandGet).bind fun id =>
      (unrefused_offline (within_commandFormatBySlot _)).bind fun p => ?_
  refine triple_ite (fun _ => triple_pure fun _ h => h.excused) fun _ =>
    triple_ite (fun _ => ?_) fun _ => ?_
  · exact (unrefused_offline (ErrorClosed.setError _ _)).bind fun _ =>
      triple_pure fun _ h => h.excused
  · refine Triple.bind (J := Tried k) ?_ fun s => ?_
    · unfold appendFormatted
      split
      · exact triple_clusterAppendCommand H _
      · exact triple_appendFragments H _
    · cases s with
      | err => exact triple_pure fun _ h => h
      | ok =>
        exact (unrefused_offline (ContextClosed.modifyCc (counts_requests _))).bind fun _ =>
          triple_pure fun _ h => h

theorem triple_redisClustervAppendCommandToNode (n : NodeId) (cmd : Bytes) :
    sessions.Triple (Unrefused k) (redisClustervAppendCommandToNode H.logged n cmd) (Tried k) := by
  refine (unrefused_offline (ContextClosed.modifyCc (counts_requests _))).bind fun _ =>
    (triple_ctxGetByNode H n).bind fun c => ?_
  cases c with
  | none => exact triple_pure fun _ h => h
  | some c =>
    refine triple_get_bind fun w => triple_ite (fun _ => ?_) fun hok => ?_
    · exact ((unrefused_copyError c).pre fun _ h => h.2.1).bind fun _ =>
        triple_pure fun _ h => h.excused
    · refine Triple.pre (I := LoggedIn k c) ?_ fun s h => ?_
      · refine (loggedIn_offline within_commandGet).bind fun id =>
          (triple_redisAppendCommand H c rfl).bind fun s => ?_
        cases s with
        | err =>
          exact (triple_loggedIn (sessions_copyError c)).bind fun _ =>
            triple_pure fun _ h => h.toUnrefused.excused
        | ok =>
          exact (loggedIn_offline (ContextClosed.modifyCc (counts_requests _))).bind fun _ =>
            triple_pure fun _ h => h.toUnrefused
      · obtain ⟨rfl, hu, hauth⟩ := h
        exact ⟨hu, hauth (Option.not_isSome_iff_eq_none.mp hok)⟩

end Pipelines

/-! ## Runs -/

section Runs

variable (H : Hiredis ω)

/-- The invariant between two calls. -/
def SecuredNow (w : World (ω × List Exchange)) : Prop := Secured w.log.length none w

theorem guards_of_triple {α : Type} {m : Prog (ω × List Exchange) α} {J : ℕ → α → World _ → Prop}
    (h : ∀ k, sessions.Triple (Unrefused k) m (J k))
    (hJ : ∀ k r w, J k r w → Secured k none w) : Within (sessions.Guards SecuredNow) m :=
  fun w => ⟨(h 0 w).1, fun hg hs => (hJ _ _ _ ((h w.log.length w).2 hg (Secured.start hs))).rebase⟩

theorem guards_of_same {α : Type} {m : Prog (ω × List Exchange) α}
    (h : ∀ k, Within (SameSessions k none) m) : Within (sessions.Guards SecuredNow) m :=
  guards_of_triple (fun k => triple_unrefused (h k)) fun _ _ _ hu => hu.secured

theorem guards_of_offline {α : Type} {m : Prog (ω × List Exchange) α} (h : Within Offline m) :
    Within (sessions.Guards SecuredNow) m :=
  guards_of_same fun _ => Program.Within.sameSessions h

theorem Tried.secured {k : ℕ} {r : Status} {w : World (ω × List Exchange)} (h : Tried k r w) :
    Secured k none w := by
  cases r with
  | ok => exact Unrefused.secured h
  | err => exact Excused.secured h

theorem Returns.secured {α : Type} {k : ℕ} {r : Option α} {w : World (ω × List Exchange)}
    (h : Returns k r w) : Secured k none w := by
  cases r with
  | none => exact Excused.secured h
  | some a => exact Unrefused.secured h

instance : ReadClosed H.logged (sessions.Guards SecuredNow) where
  setError _ _ := guards_of_offline (ErrorClosed.setError _ _)
  redisFree c := guards_of_offline (ContextClosed.redisFree c)
  modifyCc hf := guards_of_offline (ContextClosed.modifyCc hf)
  cmdId w id := guards_of_offline (m := fun w => ((), { w with cmdId := id }))
    (fun w => ContextClosed.cmdId w id) w
  disconnect n := guards_of_offline (ContextClosed.disconnect n)
  redisGetReply c q := guards_of_same fun _ => sessions_redisGetReply H c q
  redisBufferWrite c := guards_of_same fun _ => sessions_redisBufferWrite H c

instance : CallClosed H.logged (sessions.Guards SecuredNow) where
  ctxGetByNode n := guards_of_triple (fun _ => triple_ctxGetByNode H n) fun k r w h => by
    cases r with
    | none => exact Excused.secured h
    | some c => exact h.1.secured
  updateSlotmap := guards_of_triple
    (fun _ => (triple_redisClusterUpdateSlotmap H).pre fun _ h => h.secured) fun _ _ _ h => h.secured
  handleReply c := guards_of_same fun _ => sessions_handleReply H c

/-- The calls of the blocking API. -/
def Call.synchronous (op : Call) : Prop := op.blocking = true ∨ op = .connect2

theorem guards_run {op : Call} (hop : op.synchronous) :
    Within (sessions.Guards SecuredNow) (op.run H.logged) := by
  cases op with
  | addNode addr =>
    exact within_drop (guards_of_offline (within_redisClusterSetOptionAddNode addr))
  | connect2 =>
    refine within_drop (within_bind (guards_of_offline (offline_modifyCc fun _ => rfl)) fun _ =>
      within_bind within_get fun w => within_ite ?_ (CallClosed.updateSlotmap (H := H.logged)))
    exact within_bind (guards_of_offline (ErrorClosed.setError _ _)) fun _ => within_pure _
  | updateSlotmap => exact within_drop CallClosed.updateSlotmap
  | command cmd =>
    exact within_drop (guards_of_triple (fun _ => triple_redisClusterFormattedCommand H cmd)
      fun _ _ _ h => h.secured)
  | commandToNode n cmd =>
    exact within_drop (guards_of_triple (fun _ => triple_redisClustervCommandToNode H n cmd)
      fun _ _ _ h => h.secured)
  | pipe op =>
    cases op with
    | append cmd =>
      exact within_drop (guards_of_triple
        (fun _ => triple_redisClusterAppendFormattedCommand H cmd) fun _ _ _ h => h.secured)
    | appendToNode n cmd =>
      exact within_drop (guards_of_triple
        (fun _ => triple_redisClustervAppendCommandToNode H n cmd) fun _ _ _ h => h.secured)
    | getReply => exact within_drop (within_redisClusterGetReply H.logged)
  | reset => exact within_redisClusterReset H.logged
  | asyncConnect2 => rcases hop with h | h <;> cases h
  | asyncCommand fn cmd => rcases hop with h | h <;> cases h
  | asyncCommandToNode n fn cmd => rcases hop with h | h <;> cases h
  | asyncDisconnect => rcases hop with h | h <;> cases h
  | asyncFree => rcases hop with h | h <;> cases h

/-- The states that blocking calls lead to, from a new client with a password. -/
inductive BlockingRun : World (ω × List Exchange) → Prop
  | start {w : World (ω × List Exchange)} (h : w.Fresh) (hpw : w.cc.password ≠ none)
      (hlog : w.log = []) : BlockingRun w
  | call {w : World (ω × List Exchange)} (h : BlockingRun w) {op : Call} (hop : op.synchronous) :
      BlockingRun (op.run H.logged w).2

variable {H}

theorem World.Fresh.securedNow {w : World (ω × List Exchange)} (h : w.Fresh)
    (hpw : w.cc.password ≠ none) (hlog : w.log = []) : SecuredNow w where
  since := le_rfl
  password := hpw
  orderly before c q after hsplit := by
    rw [hlog] at hsplit
    simp at hsplit
  queues c _ _ q hq := by
    rw [h.conns] at hq
    cases hq
  nodes n c hn := by
    rw [h.heap] at hn
    cases hn
  lt n c hn := by
    rw [h.heap] at hn
    cases hn
  fresh c hx := by cases hx

theorem BlockingRun.securedNow {w : World (ω × List Exchange)} (h : BlockingRun H w)
    (hgood : ¬ RefusedOnReconnect w.log) : SecuredNow w := by
  induction h with
  | start h hpw hlog => exact h.securedNow hpw hlog
  | @call w h op hop ih =>
    have hstep := guards_run H hop w
    exact hstep.2 hgood (ih (sessions.mono hstep.1 hgood))

/-- How a command heeds AUTH: once an AUTH is rejected it writes nothing but AUTH, and it
fails with an error on the context. -/
structure HeedsAuth {α : Type} (m : Prog (ω × List Exchange) α) (failure : α)
    (w : World (ω × List Exchange)) : Prop where
  unsent : ∀ before c q after, (m w).2.log = before ++ .append c q :: after → q.isAuth = false →
    ∀ e ∈ before.drop w.log.length, e.rejectsAuth = false
  fails : (∃ e ∈ (m w).2.log.drop w.log.length, e.rejectsAuth = true) →
    (m w).1 = failure ∧ (m w).2.Failed

/-- How the server answers AUTH in a call that begins after `k` exchanges: no AUTH is rejected
on a reconnected connection, and none of the call is accepted after another was rejected. -/
structure OneVerdict (k : ℕ) (log : List Exchange) : Prop where
  fresh : ¬ RefusedOnReconnect log
  same : ¬ AcceptedAfterRejection (log.drop k)

theorem heedsAuth_of_orderly {α : Type} {m : Prog (ω × List Exchange) α} {failure : α}
    {w : World (ω × List Exchange)} (hv : OneVerdict w.log.length (m w).2.log)
    (hord : Orderly w.log.length (m w).2.log)
    (hfails : (m w).2.refusedSince w.log.length → (m w).1 = failure ∧ (m w).2.Failed) :
    HeedsAuth m failure w where
  unsent before c q after hsplit hq e he := by
    by_contra hrej
    have hlast := refused_of_rejects he (Bool.eq_true_of_not_eq_false hrej) fun h =>
      hv.same (h.sublist (by
        rw [hsplit]
        exact (List.sublist_append_left _ _).drop _))
    rw [(hord before c q after hsplit hq).2] at hlast
    cases hlast
  fails := fun ⟨_, he, hrej⟩ => hfails (refused_of_rejects he hrej hv.same)

theorem heedsAuth_of_returns {α : Type} {m : Prog (ω × List Exchange) (Option α)}
    {w : World (ω × List Exchange)} (hv : OneVerdict w.log.length (m w).2.log)
    (h : Returns w.log.length (m w).1 (m w).2) : HeedsAuth m none w := by
  refine heedsAuth_of_orderly hv h.secured.orderly fun hr => ?_
  generalize (m w).1 = r at h ⊢
  cases r with
  | none => exact ⟨rfl, Excused.err h hr⟩
  | some a => exact (Unrefused.unrefused h hr).elim

theorem heedsAuth_of_tried {m : Prog (ω × List Exchange) Status}
    {w : World (ω × List Exchange)} (hv : OneVerdict w.log.length (m w).2.log)
    (h : Tried w.log.length (m w).1 (m w).2) : HeedsAuth m .err w := by
  refine heedsAuth_of_orderly hv h.secured.orderly fun hr => ?_
  generalize (m w).1 = r at h ⊢
  cases r with
  | err => exact ⟨rfl, Excused.err h hr⟩
  | ok => exact (Unrefused.unrefused h hr).elim

/-- **Blocking connections are authenticated before they are used**, as long as no AUTH is
rejected on a reconnected connection and none of a command is accepted after another was
rejected. -/
theorem BlockingRun.authenticated {w : World (ω × List Exchange)} (h : BlockingRun H w)
    (hgood : ¬ RefusedOnReconnect w.log) :
    WrittenAuthed w.log ∧
    (∀ cmd, OneVerdict w.log.length (redisClusterFormattedCommand H.logged cmd w).2.log →
      HeedsAuth (redisClusterFormattedCommand H.logged cmd) none w) ∧
    (∀ n cmd, OneVerdict w.log.length (redisClustervCommandToNode H.logged n cmd w).2.log →
      HeedsAuth (redisClustervCommandToNode H.logged n cmd) none w) ∧
    (∀ cmd, OneVerdict w.log.length (redisClusterAppendFormattedCommand H.logged cmd w).2.log →
      HeedsAuth (redisClusterAppendFormattedCommand H.logged cmd) .err w) ∧
    ∀ n cmd, OneVerdict w.log.length (redisClustervAppendCommandToNode H.logged n cmd w).2.log →
      HeedsAuth (redisClustervAppendCommandToNode H.logged n cmd) .err w := by
  have hnow := h.securedNow hgood
  have hstart := Secured.start hnow
  exact ⟨hnow.orderly.written,
    fun cmd hv => heedsAuth_of_returns hv
      ((triple_redisClusterFormattedCommand H cmd w).2 hv.fresh hstart),
    fun n cmd hv => heedsAuth_of_returns hv
      ((triple_redisClustervCommandToNode H n cmd w).2 hv.fresh hstart),
    fun cmd hv => heedsAuth_of_tried hv
      ((triple_redisClusterAppendFormattedCommand H cmd w).2 hv.fresh hstart),
    fun n cmd hv => heedsAuth_of_tried hv
      ((triple_redisClustervAppendCommandToNode H n cmd w).2 hv.fresh hstart)⟩

end Runs

/-! ## AUTHs that are rejected -/

/-- A script in which `nil` stands for the server closing the connection. -/
def Hiredis.closing : Hiredis (List Reply) :=
  { Hiredis.scripted with
    reply := fun env _ _ => match env with
      | [] => (.error ⟨.eof, ascii "Server closed the connection"⟩, [])
      | .nil :: rest => (.error ⟨.eof, ascii "Server closed the connection"⟩, rest)
      | r :: rest => (.ok r, rest) }

/-- A new client with a password, and what the server will say. -/
def withPassword (script : List Reply) : World (List Reply × List Exchange) :=
  { env := (script, []), cc := { password := some (ascii "secret") } }

/-- The calls are made one after the other. -/
def afterCalls (ops : List Call) (w : World (List Reply × List Exchange)) :
    World (List Reply × List Exchange) :=
  ops.foldl (fun w op => (op.run Hiredis.closing.logged w).2) w

theorem blockingRun_afterCalls {ops : List Call} (hops : ∀ op ∈ ops, op.blocking = true)
    {w : World (List Reply × List Exchange)} (h : BlockingRun Hiredis.closing w) :
    BlockingRun Hiredis.closing (afterCalls ops w) := by
  induction ops generalizing w with
  | nil => exact h
  | cons op ops ih =>
    exact ih (fun op' hop' => hops op' (List.mem_cons_of_mem _ hop'))
      (.call h (Or.inl (hops op List.mem_cons_self)))

theorem blockingRun_withPassword (script : List Reply) :
    BlockingRun Hiredis.closing (withPassword script) :=
  .start ⟨rfl, rfl, rfl, rfl, rfl, rfl, rfl, rfl, rfl, rfl, rfl, rfl, rfl, rfl, rfl, rfl⟩
    (Option.some_ne_none _) rfl

def okReply : Reply := .status (ascii "OK")

def wrongPass : Reply := .error (ascii "WRONGPASS")

/-- One node is known and has told the topology, and nothing else is connected. -/
def unconnected (script : List Reply) : World (List Reply × List Exchange) :=
  afterCalls [.addNode (ascii "a:1"), .updateSlotmap] (withPassword script)

theorem blockingRun_unconnected (script : List Reply) :
    BlockingRun Hiredis.closing (unconnected script) :=
  blockingRun_afterCalls (by decide) (blockingRun_withPassword script)

theorem not_refusedOnReconnect {log : List Exchange}
    (h : log.all (fun e => match e with
      | .reconnect _ => false
      | _ => true) = true) : ¬ RefusedOnReconnect log := by
  rintro ⟨c, user, pw, hsub⟩
  exact Bool.false_ne_true (List.all_eq_true.mp h _ (hsub.subset List.mem_cons_self))

theorem not_acceptedAfterRejection {log : List Exchange}
    (h : log.all (fun e => !e.acceptsAuth) = true) : ¬ AcceptedAfterRejection log := by
  rintro ⟨e, e', -, hacc, hsub⟩
  have hnot := List.all_eq_true.mp h _ (hsub.subset (List.mem_cons_of_mem _ List.mem_cons_self))
  rw [hacc] at hnot
  cases hnot

/-- The password is changed on the server: the AUTH of a new connection is rejected, and so is
the one for the topology. -/
def changed : World (List Reply × List Exchange) :=
  unconnected [okReply, topologyOfK, wrongPass, wrongPass]

/-- What the next command leaves. -/
def barred : World (List Reply × List Exchange) :=
  (redisClusterFormattedCommand Hiredis.closing.logged getK changed).2

/-- Up to the change all is well, and the command fails then. -/
theorem BlockingRun.authenticated_barred : WrittenAuthed changed.log ∧
    (redisClusterFormattedCommand Hiredis.closing.logged getK changed).1 = none ∧ barred.Failed := by
  have hgood : ¬ RefusedOnReconnect changed.log := not_refusedOnReconnect (by decide +kernel)
  have hverdict : OneVerdict changed.log.length barred.log :=
    ⟨not_refusedOnReconnect (by decide +kernel), not_acceptedAfterRejection (by decide +kernel)⟩
  have hrejected : ∃ e ∈ barred.log.drop changed.log.length, e.rejectsAuth = true := by
    decide +kernel
  obtain ⟨hwritten, hcommand, -⟩ :=
    BlockingRun.authenticated (blockingRun_unconnected [okReply, topologyOfK, wrongPass, wrongPass])
      hgood
  exact ⟨hwritten, (hcommand getK hverdict).fails hrejected⟩

/-- One node is known, its connection is made, and the server closes it. -/
def closedCalls : List Call :=
  [.addNode (ascii "a:1"), .updateSlotmap, .command getK]

/-- The client that has been disconnected by the node it sent a command to. -/
def disconnected : World (List Reply × List Exchange) :=
  afterCalls closedCalls
    (withPassword [okReply, topologyOfK, okReply, .nil, wrongPass, okReply])

theorem blockingRun_disconnected : BlockingRun Hiredis.closing disconnected :=
  blockingRun_afterCalls (by decide) (blockingRun_withPassword _)

/-- What the command after the disconnection leaves. -/
def rejected : World (List Reply × List Exchange) :=
  ((Call.command getK).run Hiredis.closing.logged disconnected).2

theorem blockingRun_rejected : BlockingRun Hiredis.closing rejected :=
  .call blockingRun_disconnected (Or.inl rfl)

/-- The session is not authenticated when its AUTH was the last exchange and was rejected. -/
theorem authed_rejected (c : ConnId) (log : List Exchange) {q : Sent} (hq : q.isAuth = true) :
    authed c (log ++ [.reply c q true]) = false := by
  simp [authed_concat, authStep, hq]

/-- The password is accepted again when the topology is asked for. -/
def wavering : World (List Reply × List Exchange) :=
  unconnected [okReply, topologyOfK, wrongPass, okReply, topologyOfK, okReply, .string (ascii "v")]

/-- **The next command reconnects, AUTH is rejected, and the command is written all the same.**
And where the AUTH of a new connection is rejected, the command is retried after the topology
was asked for, and is answered. -/
theorem rejectedReconnect_not_authenticated :
    (BlockingRun Hiredis.closing rejected ∧ ¬ WrittenAuthed rejected.log) ∧
    BlockingRun Hiredis.closing wavering ∧
      ¬ HeedsAuth (redisClusterFormattedCommand Hiredis.closing.logged getK) none wavering := by
  refine ⟨⟨blockingRun_rejected, fun h => ?_⟩, blockingRun_unconnected _, fun h => ?_⟩
  · have hreply : rejected.log[9]? = some (.reply 1 (.auth none (ascii "secret")) true) := by
      decide +kernel
    have hwritten : rejected.log[10]? = some (.append 1 (.command 2 getK)) := by decide +kernel
    generalize rejected.log = log at h hreply hwritten
    obtain ⟨h9, hreply⟩ := List.getElem?_eq_some_iff.mp hreply
    obtain ⟨h10, hwritten⟩ := List.getElem?_eq_some_iff.mp hwritten
    have hsplit : log = log.take 10 ++ .append 1 (.command 2 getK) :: log.drop 11 := by
      rw [← hwritten, ← List.drop_eq_getElem_cons h10, List.take_append_drop]
    have hlast : log.take 10 = log.take 9 ++ [.reply 1 (.auth none (ascii "secret")) true] := by
      rw [← hreply, List.take_succ_eq_append_getElem h9]
    have hauth := h _ _ _ _ hsplit rfl
    rw [hlast, authed_rejected 1 _ rfl] at hauth
    cases hauth
  · have hrejected : ∃ e ∈ (redisClusterFormattedCommand Hiredis.closing.logged getK
        wavering).2.log.drop wavering.log.length, e.rejectsAuth = true := by
      decide +kernel
    have hanswer : (redisClusterFormattedCommand Hiredis.closing.logged getK wavering).1.isSome =
        true := by
      decide +kernel
    rw [(h.fails hrejected).1] at hanswer
    cases hanswer
