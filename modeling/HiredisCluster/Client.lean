/-
# The client as a state machine

The user calls the library, hiredis runs callbacks, and user code is called in
between.  A `Client` is the state together with the functions whose rest is still to
come; a `ClientAction` is a call, something hiredis does, or the return of user code, and a
state is reachable if a sequence of enabled actions leads to it.

hiredis runs every callback that it accepted exactly once, with a reply or with `NULL`,
those of one connection in the order of their submission.
-/
import HiredisCluster.AsyncFrames
import HiredisCluster.Outstanding

open Program

variable {ω : Type}

/-! ## The machine -/

/-- What is still to come once the running user code, or the release of nodes, is
done. -/
inductive Frame where
  /-- `redisClusterAsyncCallback`, in the user's function -/
  | user (k : ℕ)
  /-- `updateNodesAndSlotmap`, releasing the old nodes -/
  | release
  /-- `updateNodesAndSlotmap`, in the user's event callback -/
  | event
  /-- `redisClusterAsyncFree`, releasing all nodes; the context ends with it -/
  | free
  deriving DecidableEq, Repr

structure Client (ω : Type) where
  world : World ω
  stack : List Frame := []

/-- A call of the library. -/
inductive Call where
  | addNode (addr : Bytes)
  | connect2
  | updateSlotmap
  | command (cmd : Bytes)
  | commandToNode (n : NodeId) (cmd : Bytes)
  | pipe (op : PipeOp)
  | reset
  | asyncConnect2
  | asyncCommand (fn : Option ℕ) (cmd : Bytes)
  | asyncCommandToNode (n : NodeId) (fn : Option ℕ) (cmd : Bytes)
  | asyncDisconnect
  | asyncFree
  deriving DecidableEq

/-- The node that a call names, which is to be one of `cc->nodes`. -/
def Call.node? : Call → Option NodeId
  | .commandToNode n _ => some n
  | .pipe (.appendToNode n _) => some n
  | .asyncCommandToNode n _ _ => some n
  | _ => none

/-- What is still to come when a call gives way to user code for good. -/
def Call.frames : Call → List Frame
  | .asyncFree => [.free]
  | _ => []

/-- An action of the user or of hiredis. -/
inductive ClientAction where
  | call (op : Call)
  /-- a connection is established -/
  | connected (a : AConnId)
  /-- a connection fails -/
  | failed (a : AConnId) (f : Fault)
  /-- the oldest callback pending on a connection is run -/
  | deliver (a : AConnId) (reply : Option Reply)
  /-- the connection of a released node is detached and begins to be freed -/
  | free (a : AConnId)
  /-- a connection without pending callbacks is freed -/
  | closed (a : AConnId)
  /-- the user code on top of the stack returns, or all old nodes are released -/
  | ret

/-- The oldest callback pending on a connection. -/
def World.oldest (w : World ω) (a : AConnId) : Option ACallback :=
  (w.inflight.find? fun p => p.1 = a).map Prod.snd

/-- Take the oldest callback off a connection. -/
def takeCallback (a : AConnId) : Prog ω Unit :=
  modify fun w => { w with inflight := w.inflight.eraseP fun p => p.1 = a }

theorem World.oldest_split {w : World ω} {a : AConnId} {cb : ACallback}
    (h : w.oldest a = some cb) : ∃ before after, w.inflight = before ++ (a, cb) :: after ∧
      (takeCallback a w).2.inflight = before ++ after := by
  obtain ⟨⟨a', cb'⟩, hp, rfl⟩ := Option.map_eq_some_iff.mp h
  obtain ⟨ha, before, after, hsplit, hno⟩ := List.find?_eq_some_iff_append.mp hp
  obtain rfl : a' = a := by simpa using ha
  refine ⟨before, after, hsplit, ?_⟩
  show w.inflight.eraseP _ = _
  rw [hsplit, List.eraseP_append_right _ (fun x hx => by simpa using hno x hx)]
  simp

section Machine

variable (H : Hiredis ω)

/-- A call, without its result. -/
def Call.run : Call → Prog ω Unit
  | .addNode addr => do
    let _ ← redisClusterSetOptionAddNode addr
    pure ()
  | .connect2 => do
    let _ ← redisClusterConnect2 H
    pure ()
  | .updateSlotmap => do
    let _ ← redisClusterUpdateSlotmap H
    pure ()
  | .command cmd => do
    let _ ← redisClusterFormattedCommand H cmd
    pure ()
  | .commandToNode n cmd => do
    let _ ← redisClustervCommandToNode H n cmd
    pure ()
  | .pipe op => op.run H
  | .reset => redisClusterReset H
  | .asyncConnect2 => do
    let _ ← redisClusterAsyncConnect2 H
    pure ()
  | .asyncCommand fn cmd => do
    let _ ← redisClusterAsyncFormattedCommand H fn cmd
    pure ()
  | .asyncCommandToNode n fn cmd => do
    let _ ← redisClusterAsyncFormattedCommandToNode H n fn cmd
    pure ()
  | .asyncDisconnect => redisClusterAsyncDisconnect
  | .asyncFree => redisClusterAsyncFree

/-- A callback is run; the result is what is still to come. -/
def runCallback (a : AConnId) (cb : ACallback) (reply : Option Reply) : Prog ω (List Frame) :=
  match cb with
  | .null => pure []
  | .topology useSlots => do
    if ← topologyReplyCallback H a useSlots reply then pure [.release] else pure []
  | .user k => do
    if ← redisClusterAsyncCallback H a k reply then pure [.user k] else pure []

/-- The rest of a function whose user code has returned. -/
def resume : Frame → Prog ω (List Frame)
  | .user _ => do
    finishCallback
    pure []
  | .release => do
    userHook
    pure [.event]
  | .event => do
    modifyCc fun cc => { cc with needUpdateRoute := false }
    pure []
  | .free => pure [.free]

/-- Run a part of the library on the state of a client. -/
def Client.exec (c : Client ω) (stack : List Frame) (m : Prog ω (List Frame)) : Client ω :=
  ⟨(m c.world).2, (m c.world).1 ++ stack⟩

/-- The effect of an action. -/
def act (c : Client ω) : ClientAction → Client ω
  | .call op => ⟨(op.run H c.world).2, op.frames ++ c.stack⟩
  | .connected a =>
    ⟨(modifyAConn a (fun conn => { conn with connected := true }) c.world).2, c.stack⟩
  | .failed a f =>
    ⟨(modifyAConn a (fun conn => { conn with err := some f, disconnecting := true }) c.world).2,
      c.stack⟩
  | .deliver a reply =>
    match c.world.oldest a with
    | none => c
    | some cb => Client.exec ⟨(takeCallback a c.world).2, c.stack⟩ c.stack (runCallback H a cb reply)
  | .free a => ⟨(beginAsyncFree a c.world).2, c.stack⟩
  | .closed a => ⟨(unlinkAsyncContextAndNode a c.world).2, c.stack⟩
  | .ret =>
    match c.stack with
    | [] => c
    | f :: stack => c.exec stack (resume f)

/-- A connection that hiredis is freeing because its node was released. -/
def World.beingFreed (w : World ω) (a : AConnId) : Prop :=
  a ∈ w.closing ∧ (w.aconns a).freeing = true

instance (w : World ω) (a : AConnId) : Decidable (w.beingFreed a) :=
  inferInstanceAs (Decidable (_ ∧ _))

/-- The functions on the stack that can go on: user code returns, the release of old
nodes ends with their last connection, and the release of a whole context goes on to
its end. -/
def Client.canReturn (c : Client ω) : Prop :=
  match c.stack with
  | [] => False
  | .free :: _ => False
  | .release :: _ => ∀ a ∈ c.world.closing, (c.world.aconns a).alive = false
  | _ => True

instance (c : Client ω) : Decidable c.canReturn := by
  unfold Client.canReturn
  split <;> infer_instance

/-- When an action can happen.  Callbacks are run by the event loop, that is while no
user code runs, except those of a connection that is being freed with its node. -/
def Enabled (c : Client ω) (x : ClientAction) : Prop :=
  c.world.acc.fatal = none ∧
    match x with
    | .call op => (∀ n ∈ op.node?, c.world.Known n) ∧ (op = .asyncFree → c.stack = [])
    | .connected a => c.stack = [] ∧ (c.world.aconns a).alive = true
    | .failed a _ => c.stack = [] ∧ (c.world.aconns a).alive = true
    | .deliver a reply => c.world.oldest a ≠ none ∧
        if a ∈ c.world.closing then c.world.beingFreed a ∧ reply = none else c.stack = []
    | .free a => a ∈ c.world.closing ∧ (c.world.aconns a).alive = true ∧ ¬ c.world.beingFreed a
    | .closed a => c.world.oldest a = none ∧ (c.world.aconns a).alive = true ∧
        if a ∈ c.world.closing then c.world.beingFreed a else c.stack = []
    | .ret => c.canReturn

instance (c : Client ω) : (x : ClientAction) → Decidable (Enabled c x)
  | .call op => inferInstanceAs (Decidable (_ ∧ (∀ n ∈ op.node?, c.world.Known n) ∧ _))
  | .connected _ => inferInstanceAs (Decidable (_ ∧ c.stack = [] ∧ _))
  | .failed _ _ => inferInstanceAs (Decidable (_ ∧ c.stack = [] ∧ _))
  | .deliver a reply =>
    inferInstanceAs (Decidable (_ ∧ c.world.oldest a ≠ none ∧
      if a ∈ c.world.closing then c.world.beingFreed a ∧ reply = none else c.stack = []))
  | .free _ => inferInstanceAs (Decidable (_ ∧ _ ∧ _ ∧ ¬ _))
  | .closed a => inferInstanceAs (Decidable (_ ∧ c.world.oldest a = none ∧ _ ∧
      if a ∈ c.world.closing then c.world.beingFreed a else c.stack = []))
  | .ret => inferInstanceAs (Decidable (_ ∧ c.canReturn))

/-- A new context, with any settings. -/
structure World.Fresh (w : World ω) : Prop where
  nodes : w.cc.nodes = none
  table : w.cc.table = none
  requests : w.cc.requests = none
  retryCount : w.cc.retryCount = 0
  heap : w.heap = fun _ => {}
  conns : w.conns = fun _ => {}
  aconns : w.aconns = fun _ => {}
  inflight : w.inflight = []
  closing : w.closing = []
  cads : w.cads = fun _ => {}
  lastSlotmapUpdateAttempt : w.acc.lastSlotmapUpdateAttempt = 0
  accepted : w.acc.accepted = []
  handed : w.acc.handed = []
  called : w.acc.called = []
  fatal : w.acc.fatal = none
  trace : w.trace = []

/-- The states that a client can reach by enabled actions that satisfy `G`. -/
inductive Reaches (G : Client ω → ClientAction → Prop) : Client ω → Prop where
  | start {w : World ω} (h : w.Fresh) : Reaches G ⟨w, []⟩
  | step {c : Client ω} {x : ClientAction} (h : Reaches G c) (he : Enabled c x) (hg : G c x) :
    Reaches G (act H c x)

/-- The states that a client can reach. -/
abbrev Reachable (c : Client ω) : Prop := Reaches H (fun _ _ => True) c

/-- A sequence of actions. -/
def perform : Client ω → List ClientAction → Client ω
  | c, [] => c
  | c, x :: xs => perform (act H c x) xs

/-- Each action of a sequence is enabled when its turn comes. -/
def Legal : Client ω → List ClientAction → Prop
  | _, [] => True
  | c, x :: xs => Enabled c x ∧ Legal (act H c x) xs

instance : (xs : List ClientAction) → (c : Client ω) → Decidable (Legal H c xs)
  | [], _ => isTrue trivial
  | x :: xs, c =>
    have := instDecidableLegal xs (act H c x)
    inferInstanceAs (Decidable (Enabled c x ∧ Legal H (act H c x) xs))

theorem Reaches.perform {c : Client ω} (h : Reachable H c) :
    ∀ xs, Legal H c xs → Reachable H (perform H c xs) := by
  intro xs
  induction xs generalizing c with
  | nil => exact fun _ => h
  | cons x xs ih => exact fun hl => ih (h.step hl.1 trivial) hl.2

/-- Each action of a sequence is enabled and satisfies `G` when its turn comes. -/
def Guarded (G : Client ω → ClientAction → Prop) : Client ω → List ClientAction → Prop
  | _, [] => True
  | c, x :: xs => (Enabled c x ∧ G c x) ∧ Guarded G (act H c x) xs

instance {G : Client ω → ClientAction → Prop} [∀ c x, Decidable (G c x)] :
    (xs : List ClientAction) → (c : Client ω) → Decidable (Guarded H G c xs)
  | [], _ => isTrue trivial
  | x :: xs, c =>
    have := instDecidableGuarded (G := G) xs (act H c x)
    inferInstanceAs (Decidable ((Enabled c x ∧ G c x) ∧ Guarded H G (act H c x) xs))

theorem reaches_perform {G : Client ω → ClientAction → Prop} {c : Client ω} (h : Reaches H G c) :
    ∀ xs, Guarded H G c xs → Reaches H G (perform H c xs) := by
  intro xs
  induction xs generalizing c with
  | nil => exact fun _ => h
  | cons x xs ih => exact fun hl => ih (h.step hl.1.1 hl.1.2) hl.2

/-- **Invariants of a run**: what holds of a new context and is kept by every action
holds in every state reached. -/
theorem Reaches.invariant {G : Client ω → ClientAction → Prop} {I : Client ω → Prop}
    (hstart : ∀ w : World ω, w.Fresh → I ⟨w, []⟩)
    (hstep : ∀ c x, Enabled c x → G c x → I c → I (act H c x)) {c : Client ω}
    (h : Reaches H G c) : I c := by
  induction h with
  | start hw => exact hstart _ hw
  | step _ he hg ih => exact hstep _ _ he hg ih

end Machine

/-! ## What all actions respect -/

/-- A result is dropped. -/
theorem within_drop {α : Type} {R : World ω → World ω → Prop} [Std.Refl R] [IsTrans (World ω) R]
    {m : Prog ω α} (hm : Within R m) : Within R (do let _ ← m; pure () : Prog ω Unit) :=
  within_bind hm fun _ => within_pure _

/-- The calls that use blocking connections only, and that do not end a shutdown. -/
def Call.blocking : Call → Bool
  | .connect2 | .asyncConnect2 | .asyncCommand _ _ | .asyncCommandToNode _ _ _ => false
  | .asyncDisconnect | .asyncFree => false
  | _ => true

theorem Call.within_run_blocking (H : Hiredis ω) {R : World ω → World ω → Prop} [EditClosed R]
    [CommandClosed R] [CallClosed H R] {op : Call} (h : op.blocking = true)
    (hadd : ∀ addr, op = .addNode addr → Within R (redisClusterSetOptionAddNode addr)) :
    Within R (op.run H) := by
  cases op with
  | addNode addr => exact within_drop (hadd addr rfl)
  | updateSlotmap => exact within_drop CallClosed.updateSlotmap
  | command cmd => exact within_drop (within_redisClusterFormattedCommand H cmd)
  | commandToNode n cmd => exact within_drop (within_redisClustervCommandToNode H n cmd)
  | pipe op =>
    cases op with
    | append cmd => exact within_drop (within_redisClusterAppendFormattedCommand H cmd)
    | appendToNode n cmd => exact within_drop (within_redisClustervAppendCommandToNode H n cmd)
    | getReply => exact within_drop (within_redisClusterGetReply H)
  | reset => exact within_redisClusterReset H
  | _ => cases h

theorem within_resume (H : Hiredis ω) {R : World ω → World ω → Prop} [EditClosed R] [NoteClosed H R]
    (f : Frame) : Within R (resume f : Prog ω (List Frame)) := by
  unfold resume
  split
  · exact within_bind (within_finishCallback H) fun _ => within_pure _
  · exact within_bind TalkClosed.userHook fun _ => within_pure _
  · exact within_bind (EditClosed.modifyCc (counts_needUpdateRoute fun _ => false)) fun _ =>
      within_pure _
  · exact within_pure _

section Actions

variable (H : Hiredis ω) {R : World ω → World ω → Prop} [EditClosed R] [AsyncClosed H R]

theorem Call.within_run [CommandClosed R] (op : Call)
    (hadd : ∀ addr, op = .addNode addr → Within R (redisClusterSetOptionAddNode addr))
    (hfree : op = .asyncFree → Within R (redisClusterFree : Prog ω Unit)) : Within R (op.run H) := by
  by_cases hb : op.blocking = true
  · exact Call.within_run_blocking H hb hadd
  · cases op with
    | connect2 => exact within_drop (within_redisClusterConnect2 H)
    | asyncConnect2 => exact within_drop (within_redisClusterAsyncConnect2 H)
    | asyncCommand fn cmd => exact within_drop (within_redisClusterAsyncFormattedCommand H fn cmd)
    | asyncCommandToNode n fn cmd =>
      exact within_drop (within_redisClusterAsyncFormattedCommandToNode H n fn cmd)
    | asyncDisconnect => exact within_redisClusterAsyncDisconnect H
    | asyncFree => exact within_redisClusterAsyncFree H (hfree rfl)
    | _ => exact absurd rfl hb

/-- The callbacks, if those of topology queries are as wished. -/
theorem within_runCallback (a : AConnId) {cb : ACallback} (reply : Option Reply)
    (htop : ∀ b, cb = .topology b → Within R (topologyReplyCallback H a b reply)) :
    Within R (runCallback H a cb reply) := by
  unfold runCallback
  split
  · exact within_pure _
  · exact within_bind (htop _ rfl) fun _ => within_ite (within_pure _) (within_pure _)
  · exact within_bind (within_redisClusterAsyncCallback H a _ reply) fun _ =>
      within_ite (within_pure _) (within_pure _)

end Actions

/-! ## The routing invariant of a run -/

section Invariant

theorem Ordered.of_async {w w' : World ω} (ho : Ordered w) (hcc : w'.cc = w.cc)
    (hheap : w'.heap = w.heap) (hnode : w'.nextNode = w.nextNode) (hconn : w'.nextConn = w.nextConn)
    (htrace : w'.trace = w.trace) : Ordered w' :=
  ho.of_eq (by rw [hcc]) (by rw [hcc]) (fun n => by rw [hheap]; exact ⟨rfl, rfl⟩) hnode hconn htrace

theorem keeps_of_steady {α : Type} {m : Prog ω α} (h : Within Steady m) : Keeps Ordered m :=
  h.mono fun _ _ h => h.ordered

variable (H : Hiredis ω)

theorem keeps_submitTo (a : AConnId) (cb : ACallback) (q : Sent) :
    Keeps Ordered (submitTo H a cb q) := by
  refine within_bind within_get fun w => within_ite (within_pure _)
    (within_bind (keeps_of_steady (steady_of_aside (aside_ask _))) fun r => ?_)
  cases r with
  | accepted =>
    exact within_bind (fun _ ho => ho.of_async rfl rfl rfl rfl rfl) fun _ => within_pure _
  | rejected f =>
    exact within_bind (keeps_of_steady (steady_of_aside (aside_modifyAConn a _))) fun _ =>
      within_pure _

theorem keeps_redisAsyncCommand (a : AConnId) (cb : ACallback) (q : Sent) :
    Keeps Ordered (redisAsyncCommand H a cb q) :=
  within_bind (keeps_submitTo H a cb q) fun _ =>
    within_bind (fun _ ho => ho.of_async rfl rfl rfl rfl rfl) fun _ => within_pure _

instance : LibClosed (Keeping (@Ordered ω)) := LibClosed.of_lawful fun _ _ h => h.ordered

instance : CommandClosed (Keeping (@Ordered ω)) := CommandClosed.of_lawful fun _ _ h => h.ordered

instance : AsyncClosed H (Keeping (@Ordered ω)) where
  toCallClosed := CallClosed.of_lawful H fun _ _ h => h.ordered
  modifyAcc _ := fun _ ho => ho.of_async rfl rfl rfl rfl rfl
  modifyCad _ _ := fun _ ho => ho.of_async rfl rfl rfl rfl rfl
  newCad _ := fun _ ho => ho.of_async rfl rfl rfl rfl rfl
  send a _ q _ := keeps_redisAsyncCommand H a _ q
  actxGetByNode n := keeps_of_steady (steady_of_aside (within_actxGetByNode H n))
  updateSlotMapAsync a := keeps_of_steady (steady_of_aside (aside_updateSlotMapAsync H a))
  shutdown _ := fun _ ho => ho.of_cc rfl rfl
  disconnectNode n := keeps_of_steady (steady_of_aside (aside_disconnectNode n))

theorem act_ordered {c : Client ω} (h : Ordered c.world) (x : ClientAction) :
    Ordered (act H c x).world := by
  cases x with
  | call op =>
    exact Call.within_run (R := Keeping Ordered) H op (fun addr _ => LibClosed.addNode addr)
      (fun _ => keeps_of_steady steady_redisClusterFree) _ h
  | connected a =>
    exact h.aside (aside_modifyAConn a (fun conn => { conn with connected := true }) c.world)
  | failed a f =>
    exact h.aside (aside_modifyAConn a
      (fun conn => { conn with err := some f, disconnecting := true }) c.world)
  | deliver a reply =>
    unfold act
    dsimp only
    split
    · exact h
    · refine within_runCallback (R := Keeping Ordered) H a reply (fun b _ => ?_) _
        (h.of_async rfl rfl rfl rfl rfl)
      exact keeps_of_steady (steady_topologyReplyCallback H a b reply)
  | free a =>
    exact h.aside (aside_modifyAConn a
      (fun conn => { conn with data := none, freeing := true }) c.world)
  | closed a => exact h.aside (aside_unlinkAsyncContextAndNode a _)
  | ret =>
    unfold act
    dsimp only
    split
    · exact h
    · exact within_resume (R := Keeping Ordered) H _ _ h

theorem World.Fresh.ordered {w : World ω} (h : w.Fresh) : Ordered w := by
  have hcon : ∀ n, (w.heap n).con = none := fun n => by rw [h.heap]
  refine ⟨⟨⟨fun d hd => ?_, fun t ht => ?_⟩, fun n hk => ?_, fun v hv => ?_⟩, fun n c hc => ?_,
    fun n n' c hc => ?_⟩
  · rw [show w.view.nodes = none from h.nodes] at hd
    cases hd
  · rw [show w.view.table = none from h.table] at ht
    cases ht
  · rw [World.Known, World.nodeList, h.nodes] at hk
    cases hk
  · rw [h.trace] at hv
    cases hv
  · rw [hcon n] at hc
    cases hc
  · rw [hcon n] at hc
    cases hc

/-- The routing state of a reachable client is in order. -/
theorem Reaches.ordered {G : Client ω → ClientAction → Prop} {c : Client ω} (h : Reaches H G c) :
    Ordered c.world :=
  Reaches.invariant H (I := fun c => Ordered c.world) (fun _ hw => hw.ordered)
    (fun _ x _ _ ho => act_ordered H ho x) h

end Invariant

/-! ## Concrete clients -/

/-- A new client. -/
def newClient (env : ω) : Client ω := ⟨{ env := env }, []⟩

theorem reachable_newClient (H : Hiredis ω) (env : ω) : Reachable H (newClient env) :=
  .start ⟨rfl, rfl, rfl, rfl, rfl, rfl, rfl, rfl, rfl, rfl, rfl, rfl, rfl, rfl, rfl, rfl⟩

/-- One node is added and asked for the topology. -/
def connect : List ClientAction := [.call (.addNode (ascii "a:1")), .call .updateSlotmap]

/-- A client that has read a topology. -/
def connectedClient (H : Hiredis ω) (env : ω) : Client ω := perform H (newClient env) connect

theorem reachable_connectedClient (H : Hiredis ω) (env : ω) (h : Legal H (newClient env) connect) :
    Reachable H (connectedClient H env) :=
  Reaches.perform H (reachable_newClient H env) connect h

/-- The scripted environment at a time when a node may be connected to. -/
def Hiredis.atWork : Hiredis (List Reply) :=
  { Hiredis.scripted with now := fun env => (2 * slotmapUpdateThrottleUsec, env) }

theorem atWork_clock (env : List Reply) : (Hiredis.atWork.now env).1 ≠ slotmapUpdateOngoing := by
  show 2 * slotmapUpdateThrottleUsec ≠ slotmapUpdateOngoing
  decide

/-- A new client with an event adapter, as the asynchronous API needs it. -/
def newAsyncClient (env : ω) : Client ω := ⟨{ env := env, acc := { adapter := true } }, []⟩

theorem fresh_newAsyncClient (env : ω) : (newAsyncClient env).world.Fresh :=
  ⟨rfl, rfl, rfl, rfl, rfl, rfl, rfl, rfl, rfl, rfl, rfl, rfl, rfl, rfl, rfl, rfl⟩

theorem reaches_newAsyncClient (H : Hiredis ω) (G : Client ω → ClientAction → Prop) (env : ω) :
    Reaches H G (newAsyncClient env) :=
  .start (fresh_newAsyncClient env)

/-- One node is added and asked for the topology, asynchronously. -/
def asyncConnect : List ClientAction := [.call (.addNode (ascii "a:1")), .call .asyncConnect2]
