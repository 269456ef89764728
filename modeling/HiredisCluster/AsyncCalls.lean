/-
# What all asynchronous calls and callbacks respect

The asynchronous calls, and the callback of a command, are made of submissions, of
reaching a node, of starting an update of the slot map, and of edits of the asynchronous
context.  As in `Calls`, whatever these respect, all of them respect.
-/
import HiredisCluster.Async
import HiredisCluster.Lawful

open Program

variable {ω : Type}

/-! ## Submissions -/

/-- A submission is rejected, possibly with an error on the connection, or it is
accepted; either way it was handed to hiredis. -/
theorem redisAsyncCommand_cases (H : Hiredis ω) (a : AConnId) (cb : ACallback) (q : Sent)
    (w : World ω) : wp (redisAsyncCommand H a cb q) (fun s w' =>
      (s = .err ∧ ∃ e f, w' = { w with
        env := e
        aconns := Function.update w.aconns a { w.aconns a with err := f }
        acc := { w.acc with handed := w.acc.handed ++ [(cb, .err)] } }) ∨
      s = .ok ∧ ∃ e, w' = { w with
        env := e
        inflight := w.inflight ++ [(a, cb)]
        acc := { w.acc with handed := w.acc.handed ++ [(cb, .ok)] } }) w := by
  unfold redisAsyncCommand submitTo
  simp only [wp_bind, wp_get]
  split
  · refine Or.inl ⟨rfl, w.env, (w.aconns a).err, ?_⟩
    rw [Function.update_eq_self]
    rfl
  · rw [wp_bind, wp_ask]
    split
    · exact Or.inr ⟨rfl, _, rfl⟩
    · exact Or.inl ⟨rfl, _, _, rfl⟩

/-! ## Reaching a node -/

/-- Relations that are respected by what is done to make a connection ready. -/
class PrepareClosed (H : Hiredis ω) (R : World ω → World ω → Prop) : Prop extends
    Std.Refl R, IsTrans (World ω) R where
  ask : ∀ {α : Type} (f : ω → α × ω), Within R (ask f)
  failed : ∀ (a : AConnId) (f : Fault), Within R (modifyAConn a fun conn => { conn with err := some f })
  asyncSetError : ∀ (type : Option Err) (str : ErrText), Within R (asyncSetError type str)
  sendNull : ∀ (a : AConnId) (q : Sent), Within R (redisAsyncCommand H a .null q)

/-- Relations that are respected by what connecting is made of. -/
class ConnectClosed (H : Hiredis ω) (R : World ω → World ω → Prop) : Prop extends
    PrepareClosed H R where
  attempted : ∀ (n : NodeId) (t : ℤ),
    Within R (modifyNode n fun node => { node with lastConnectionAttempt := t })
  newAConn : ∀ (host : Bytes) (port : ℕ) (err : Option Fault), Within R (newAConn host port err)
  redisAsyncFree : ∀ a : AConnId, Within R (redisAsyncFree a)

/-- Relations that are respected by what reaching a node is made of. -/
class OpenClosed (H : Hiredis ω) (R : World ω → World ω → Prop) : Prop extends
    ConnectClosed H R where
  linkAsync : ∀ (n : NodeId) (a : AConnId), Within R (linkAsync n a)

/-- Relations that are respected by what selecting and reaching a node is made of. -/
class ReachClosed (H : Hiredis ω) (R : World ω → World ω → Prop) : Prop extends
    OpenClosed H R where
  noNodes : Within R (abort .emptyNodes)

section Preparing

variable (H : Hiredis ω) {R : World ω → World ω → Prop} [PrepareClosed H R]

include H in
theorem prepares_copyAsyncError (a : AConnId) : Within R (copyAsyncError a : Prog ω Unit) := by
  refine within_bind within_get fun w => ?_
  split
  · exact PrepareClosed.asyncSetError H _ _
  · exact PrepareClosed.asyncSetError H _ _

theorem within_startTlsAsync (a : AConnId) : Within R (startTlsAsync H a) := by
  refine within_bind within_get fun w =>
    within_ite (within_bind (PrepareClosed.ask H _) fun r => ?_) (within_pure _)
  cases r with
  | none => exact within_pure _
  | some f =>
    exact within_bind (PrepareClosed.failed H a f) fun _ =>
      within_bind (prepares_copyAsyncError H a) fun _ => within_pure _

theorem within_authenticateAsync (a : AConnId) : Within R (authenticateAsync H a) := by
  refine within_bind within_get fun w => ?_
  split
  · exact within_pure _
  · refine within_bind (PrepareClosed.sendNull a _) fun s => ?_
    cases s with
    | ok => exact within_pure _
    | err => exact within_bind (prepares_copyAsyncError H a) fun _ => within_pure _

theorem within_attachAdapter (a : AConnId) : Within R (attachAdapter H a) := by
  refine within_bind within_get fun w =>
    within_ite (within_bind (PrepareClosed.ask H _) fun r => ?_) (within_pure _)
  cases r with
  | true => exact within_pure _
  | false => exact within_bind (PrepareClosed.asyncSetError H _ _) fun _ => within_pure _

theorem within_prepareAsync (a : AConnId) : Within R (prepareAsync H a) := by
  refine within_bind within_get fun w =>
    within_ite (within_bind (prepares_copyAsyncError H a) fun _ => within_pure _) ?_
  refine within_bind (within_startTlsAsync H a) fun s => ?_
  cases s with
  | err => exact within_pure _
  | ok =>
    refine within_bind (within_authenticateAsync H a) fun s => ?_
    cases s with
    | err => exact within_pure _
    | ok => exact within_attachAdapter H a

end Preparing

section Reaching

variable (H : Hiredis ω) {R : World ω → World ω → Prop} [ConnectClosed H R]

theorem within_redisAsyncConnectWithOptions (host : Bytes) (port : ℕ) :
    Within R (redisAsyncConnectWithOptions H host port) := by
  refine within_bind (PrepareClosed.ask H _) fun r => ?_
  cases r with
  | oom => exact within_pure _
  | failed f => exact within_bind (ConnectClosed.newAConn H _ _ _) fun _ => within_pure _
  | ok => exact within_bind (ConnectClosed.newAConn H _ _ _) fun _ => within_pure _

variable {n : NodeId} (hlink : ∀ a : AConnId, Within R (linkAsync n a))

include hlink

theorem openNodeAsync_within : Within R (openNodeAsync H n) := by
  refine within_bind within_get fun w => within_bind (PrepareClosed.ask H _) fun t =>
    within_bind (ConnectClosed.attempted H n t) fun _ =>
      within_bind (within_redisAsyncConnectWithOptions H _ _) fun a => ?_
  cases a with
  | none => exact within_bind (PrepareClosed.asyncSetError H _ _) fun _ => within_pure _
  | some a =>
    refine within_bind (within_prepareAsync H a) fun s => ?_
    cases s with
    | err => exact within_bind (ConnectClosed.redisAsyncFree H a) fun _ => within_pure _
    | ok => exact within_bind (hlink a) fun _ => within_pure _

theorem actxGetByNode_within : Within R (actxGetByNode H n) := by
  refine within_bind within_get fun w => ?_
  split
  · split
    · exact within_pure _
    · exact within_bind (PrepareClosed.asyncSetError H _ _) fun _ => within_pure _
  · exact within_ite (within_bind (PrepareClosed.asyncSetError H _ _) fun _ => within_pure _)
      (openNodeAsync_within H hlink)

end Reaching

theorem within_actxGetByNode (H : Hiredis ω) {R : World ω → World ω → Prop} [OpenClosed H R]
    (n : NodeId) : Within R (actxGetByNode H n) :=
  actxGetByNode_within H (OpenClosed.linkAsync H n)

section Selecting

variable (H : Hiredis ω) {R : World ω → World ω → Prop} [ReachClosed H R]

theorem within_selectNode (nodes : NodeDict) : Within R (selectNode H nodes) := by
  refine within_bind (PrepareClosed.ask H _) fun t =>
    within_bind (PrepareClosed.ask H _) fun r => within_ite ?_ ?_
  · exact within_bind (ReachClosed.noNodes H) fun _ => within_pure _
  · exact within_bind within_get fun _ => within_pure _

theorem within_updateTarget (a : Option AConnId) : Within R (updateTarget H a) := by
  unfold updateTarget
  split
  · exact within_pure _
  · refine within_bind within_get fun w => ?_
    split
    · exact within_bind (PrepareClosed.asyncSetError H _ _) fun _ => within_pure _
    · refine within_bind (within_selectNode H _) fun n => ?_
      cases n with
      | none => exact within_pure _
      | some n => exact within_actxGetByNode H n

end Selecting

/-! ## Calls and callbacks -/

/-- Edits of the asynchronous context that concern its error and its history only, and
that do not select from an empty dictionary. -/
def Notes (f : AsyncContext → AsyncContext) : Prop :=
  ∀ acc, ∃ e s l c x, (x = some .emptyNodes → acc.fatal = some .emptyNodes) ∧ f acc =
    { acc with err := e, errstr := s, accepted := l, called := c, fatal := x }

/-- Relations that are respected by what asynchronous calls are made of. -/
class AsyncClosed (H : Hiredis ω) (R : World ω → World ω → Prop) : Prop extends
    CallClosed H R where
  modifyAcc : ∀ {f : AsyncContext → AsyncContext}, Notes f → Within R (modifyAcc f)
  modifyCad : ∀ (k : ℕ) (f : AsyncData → AsyncData), Within R (modifyCad k f)
  newCad : ∀ cad : AsyncData, Within R (newCad cad)
  send : ∀ (a : AConnId) {cb : ACallback} (q : Sent), (∀ b, cb ≠ .topology b) →
    Within R (redisAsyncCommand H a cb q)
  actxGetByNode : ∀ n : NodeId, Within R (actxGetByNode H n)
  updateSlotMapAsync : ∀ a : Option AConnId, Within R (updateSlotMapAsync H a)
  shutdown : ∀ b : Bool, Within R (modifyCc fun cc => { cc with shutdown := b })
  disconnectNode : ∀ n : NodeId, Within R (disconnectNode n)

/-- Relations that are respected by the bookkeeping of asynchronous calls: they reach no node. -/
class NoteClosed (H : Hiredis ω) (R : World ω → World ω → Prop) : Prop where
  modifyAcc : ∀ {f : AsyncContext → AsyncContext}, Notes f → Within R (modifyAcc f)
  modifyCad : ∀ (k : ℕ) (f : AsyncData → AsyncData), Within R (modifyCad k f)
  newCad : ∀ cad : AsyncData, Within R (newCad cad)
  send : ∀ (a : AConnId) {cb : ACallback} (q : Sent), (∀ b, cb ≠ .topology b) →
    Within R (redisAsyncCommand H a cb q)
  shutdown : ∀ b : Bool, Within R (modifyCc fun cc => { cc with shutdown := b })
  disconnectNode : ∀ n : NodeId, Within R (disconnectNode n)

instance (H : Hiredis ω) {R : World ω → World ω → Prop} [AsyncClosed H R] : NoteClosed H R where
  modifyAcc := AsyncClosed.modifyAcc (H := H)
  modifyCad := AsyncClosed.modifyCad (H := H)
  newCad := AsyncClosed.newCad (H := H)
  send := AsyncClosed.send
  shutdown := AsyncClosed.shutdown (H := H)
  disconnectNode := AsyncClosed.disconnectNode (H := H)

section Notes

variable (H : Hiredis ω) {R : World ω → World ω → Prop} [NoteClosed H R]

include H

theorem within_asyncSetError (type : Option Err) (str : ErrText) :
    Within R (asyncSetError type str : Prog ω Unit) :=
  NoteClosed.modifyAcc (H := H) fun acc => ⟨type, str, acc.accepted, acc.called, acc.fatal, id, rfl⟩

theorem within_abort {f : Fatal} (hf : f ≠ .emptyNodes) : Within R (abort f : Prog ω Unit) := by
  refine NoteClosed.modifyAcc (H := H) fun acc =>
    ⟨acc.err, acc.errstr, acc.accepted, acc.called, _, fun h => ?_, rfl⟩
  rcases getD_fatal acc.fatal f with heq | heq
  · exact heq.symm.trans h
  · exact absurd (Option.some.inj (heq.symm.trans h)) hf

variable [EditClosed R]

theorem within_copyAsyncError (a : AConnId) : Within R (copyAsyncError a : Prog ω Unit) := by
  refine within_bind within_get fun w => ?_
  split
  · exact within_asyncSetError H _ _
  · exact within_asyncSetError H _ _

theorem within_copyContextError : Within R (copyContextError : Prog ω Unit) :=
  within_bind within_get fun _ => within_asyncSetError H _ _

theorem within_resetAsyncError : Within R (resetAsyncError : Prog ω Unit) :=
  within_bind within_get fun _ => within_ite (within_asyncSetError H _ _) (within_pure _)

theorem within_callUser (k : ℕ) (r : Option Reply) : Within R (callUser k r : Prog ω Bool) := by
  refine within_bind within_get fun w => ?_
  split
  · exact within_bind (within_abort H (fun h => by cases h)) fun _ => within_pure _
  · refine within_bind (NoteClosed.modifyAcc (H := H) fun acc =>
      ⟨acc.err, acc.errstr, acc.accepted, _, acc.fatal, id, rfl⟩) fun _ => ?_
    exact within_bind TalkClosed.userHook fun _ => within_pure _

theorem within_finishCallback : Within R (finishCallback : Prog ω Unit) :=
  within_bind within_resetError fun _ => within_resetAsyncError H

theorem within_resubmit (k : ℕ) (a : AConnId) : Within R (resubmit H k a) :=
  within_bind within_get fun _ =>
    within_bind (NoteClosed.send a _ fun _ h => by cases h) fun _ => within_pure _

theorem within_submitCommand (a : AConnId) (cad : AsyncData) :
    Within R (submitCommand H a cad) := by
  refine within_bind (NoteClosed.newCad (H := H) _) fun k =>
    within_bind (NoteClosed.send a _ fun _ h => by cases h) fun s => ?_
  cases s with
  | err => exact within_bind (within_copyAsyncError H a) fun _ => within_pure _
  | ok =>
    exact within_bind (NoteClosed.modifyAcc (H := H) fun acc =>
      ⟨acc.err, acc.errstr, _, acc.called, acc.fatal, id, rfl⟩) fun _ => within_pure _

theorem within_redisClusterAsyncDisconnect :
    Within R (redisClusterAsyncDisconnect : Prog ω Unit) := by
  refine within_bind (NoteClosed.shutdown (H := H) true) fun _ => within_bind within_get fun w => ?_
  split
  · exact within_pure _
  · exact within_forEach (NoteClosed.disconnectNode (H := H)) _

theorem within_redisClusterAsyncFree (hfree : Within R (redisClusterFree : Prog ω Unit)) :
    Within R (redisClusterAsyncFree : Prog ω Unit) :=
  within_bind (NoteClosed.shutdown (H := H) true) fun _ => hfree

end Notes

section Calls

variable (H : Hiredis ω) {R : World ω → World ω → Prop} [AsyncClosed H R] [EditClosed R]

include H

theorem within_throttledUpdateSlotMapAsync (a : Option AConnId) :
    Within R (throttledUpdateSlotMapAsync H a) :=
  within_bind within_get fun _ => within_ite (within_pure _) (within_bind (TalkClosed.ask _) fun _ =>
    within_ite (within_bind (AsyncClosed.updateSlotMapAsync a) fun _ => within_pure _)
      (within_pure _))

/-! ### The callback of a command -/

theorem within_asyncMoved (a : AConnId) (k : ℕ) (r : Reply) : Within R (asyncMoved H a k r) := by
  refine within_bind (within_throttledUpdateSlotMapAsync H _) fun _ =>
    within_bind (EditClosed.handleMoved _) fun n => ?_
  cases n with
  | none => exact within_bind (within_copyContextError H) fun _ => within_callUser H _ _
  | some n =>
    refine within_bind (AsyncClosed.actxGetByNode n) fun a' => ?_
    cases a' with
    | none => exact within_bind (within_abort H (fun h => by cases h)) fun _ => within_pure _
    | some a' => exact within_resubmit H k a'

theorem within_asyncAsk (k : ℕ) (r : Reply) : Within R (asyncAsk H k r) := by
  refine within_bind (EditClosed.handleAsk _) fun n => ?_
  cases n with
  | none => exact within_bind (within_copyContextError H) fun _ => within_callUser H _ _
  | some n =>
    refine within_bind (AsyncClosed.actxGetByNode n) fun a => ?_
    cases a with
    | none => exact within_callUser H _ _
    | some a =>
      refine within_bind (NoteClosed.send a _ fun _ h => by cases h) fun s => ?_
      cases s with
      | err => exact within_pure _
      | ok => exact within_resubmit H k a

theorem within_asyncRedirect (a : AConnId) (k : ℕ) (type : ErrorType) (r : Reply) :
    Within R (asyncRedirect H a k type r) := by
  refine within_bind (NoteClosed.modifyCad (H := H) _ _) fun _ => within_bind within_get fun w =>
    within_ite ?_ ?_
  · exact within_bind (NoteClosed.modifyCad (H := H) _ _) fun _ =>
      within_bind (within_asyncSetError H _ _) fun _ => within_callUser H _ _
  · split
    · exact within_asyncMoved H a k r
    · exact within_asyncAsk H k r
    · exact within_resubmit H k a

theorem within_redisClusterAsyncCallback (a : AConnId) (k : ℕ) (reply : Option Reply) :
    Within R (redisClusterAsyncCallback H a k reply) := by
  unfold redisClusterAsyncCallback
  split
  · refine within_bind (within_copyAsyncError H a) fun _ => within_bind within_get fun w => ?_
    split
    · exact within_callUser H _ _
    · exact within_bind (within_throttledUpdateSlotMapAsync H _) fun _ => within_callUser H _ _
  · exact within_bind within_get fun w => within_ite (within_callUser H _ _)
      (within_asyncRedirect H a k _ _)

/-! ### Sending and connecting -/

theorem within_redisClusterAsyncFormattedCommand (fn : Option ℕ) (cmd : Bytes) :
    Within R (redisClusterAsyncFormattedCommand H fn cmd) := by
  have herr : ∀ type str, Within R (do asyncSetError type str; pure Status.err : Prog ω _) :=
    fun type str => within_bind (within_asyncSetError H _ _) fun _ => within_pure _
  refine within_bind within_get fun w => within_ite (herr _ _) ?_
  refine within_bind within_resetError fun _ => within_bind (within_resetAsyncError H) fun _ =>
    within_bind within_commandGet fun id => within_bind (within_commandFormatBySlot _) fun p => ?_
  refine within_ite (within_bind (within_copyContextError H) fun _ => within_pure _)
    (within_ite (herr _ _) (within_ite (herr _ _) ?_))
  refine within_bind (within_nodeGetByTable _) fun n => ?_
  cases n with
  | none =>
    exact within_bind (within_throttledUpdateSlotMapAsync H _) fun _ =>
      within_bind (within_copyContextError H) fun _ => within_pure _
  | some n =>
    refine within_bind (AsyncClosed.actxGetByNode n) fun a => ?_
    cases a with
    | none => exact within_pure _
    | some a => exact within_submitCommand H a _

theorem within_redisClusterAsyncFormattedCommandToNode (n : NodeId) (fn : Option ℕ)
    (cmd : Bytes) : Within R (redisClusterAsyncFormattedCommandToNode H n fn cmd) := by
  refine within_bind within_get fun w =>
    within_ite (within_bind (within_asyncSetError H _ _) fun _ => within_pure _) ?_
  refine within_bind (AsyncClosed.actxGetByNode n) fun a => ?_
  cases a with
  | none => exact within_pure _
  | some a =>
    exact within_bind within_resetError fun _ => within_bind (within_resetAsyncError H) fun _ =>
      within_bind within_commandGet fun id => within_submitCommand H a _

theorem within_redisClusterConnect2 : Within R (redisClusterConnect2 H) :=
  within_bind (NoteClosed.shutdown (H := H) false) fun _ => within_bind within_get fun _ =>
    within_ite (within_bind (TalkClosed.setError _ _) fun _ => within_pure _)
      CallClosed.updateSlotmap

theorem within_redisClusterAsyncConnect2 : Within R (redisClusterAsyncConnect2 H) :=
  within_bind within_get fun _ =>
    within_ite (AsyncClosed.updateSlotMapAsync none) (within_pure _)

end Calls
