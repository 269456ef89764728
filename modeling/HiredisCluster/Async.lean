/-
# The asynchronous API

A command is submitted to the asynchronous connection of the node serving its slot,
with `redisClusterAsyncCallback` and a `cluster_async_data` that holds the command and
the user's callback.  The callback hands the reply to the user, or follows a redirect
and submits the command again.

User code runs inside `redisClusterAsyncCallback`, and inside `updateNodesAndSlotmap`
while the old nodes are being released and when the new slot map is announced; it may
call the library again.  These functions are therefore embedded in parts, before and
after the user code (see `Client`).

Embedded source (`hircluster.c`): `actx_get_by_node`, `unlinkAsyncContextAndNode`,
`clusterSlotsReplyCallback`, `clusterNodesReplyCallback`, `selectNode`,
`updateSlotMapAsync`, `throttledUpdateSlotMapAsync`, `redisClusterAsyncCallback`,
`redisClusterAsyncFormattedCommand`, `redisClusterAsyncFormattedCommandToNode`,
`redisClusterAsyncConnect2`, `redisClusterAsyncDisconnect`, `redisClusterAsyncFree`,
`redisClusterFree`, `redisClusterConnect2`.
-/
import HiredisCluster.Blocking

open Program

variable {ω : Type}

/-! ## State access -/

/-- Update the asynchronous context. -/
def modifyAcc (f : AsyncContext → AsyncContext) : Prog ω Unit :=
  modify fun w => { w with acc := f w.acc }

/-- Update one asynchronous connection. -/
def modifyAConn (a : AConnId) (f : AConn → AConn) : Prog ω Unit :=
  modify fun w => { w with aconns := Function.update w.aconns a (f (w.aconns a)) }

/-- Update one `cluster_async_data`. -/
def modifyCad (k : ℕ) (f : AsyncData → AsyncData) : Prog ω Unit :=
  modify fun w => { w with cads := Function.update w.cads k (f (w.cads k)) }

/-- The peer of an asynchronous connection. -/
def World.apeer (w : World ω) (a : AConnId) : Peer :=
  { id := a, host := (w.aconns a).host, port := (w.aconns a).port, async := true }

/-- `__redisClusterAsyncSetError`. -/
def asyncSetError (type : Option Err) (str : ErrText) : Prog ω Unit :=
  modifyAcc fun acc => { acc with err := type, errstr := str }

/-- `__redisClusterAsyncSetError(acc, ac->err, ac->errstr)`. -/
def copyAsyncError (a : AConnId) : Prog ω Unit := do
  let w ← get
  match (w.aconns a).err with
  | none => asyncSetError none (.lit "")
  | some f => asyncSetError (some f.code) (ErrText.ofBytes f.str)

/-- `__redisClusterAsyncSetError(acc, cc->err, cc->errstr)`. -/
def copyContextError : Prog ω Unit := do
  let w ← get
  asyncSetError w.cc.err w.cc.errstr

/-- `if (acc->err) { acc->err = 0; memset(...); }` -/
def resetAsyncError : Prog ω Unit := do
  let w ← get
  if w.acc.err.isSome then asyncSetError none (.lit "") else pure ()

/-- The process ends here, if it has not ended before. -/
def abort (f : Fatal) : Prog ω Unit :=
  modifyAcc fun acc => { acc with fatal := some (acc.fatal.getD f) }

theorem getD_fatal (x : Option Fatal) (f : Fatal) : some (x.getD f) = x ∨ some (x.getD f) = some f := by
  cases x with
  | none => exact Or.inr rfl
  | some g => exact Or.inl rfl

variable (H : Hiredis ω)

/-! ## The asynchronous API of hiredis -/

/-- A fresh `redisAsyncContext`. -/
def newAConn (host : Bytes) (port : ℕ) (err : Option Fault) : Prog ω AConnId :=
  fun w => (w.nextAConn,
    { w with
      aconns := Function.update w.aconns w.nextAConn { host, port, err, alive := true }
      nextAConn := w.nextAConn + 1 })

/-- `redisAsyncConnectWithOptions`; `none` is the `NULL` context. -/
def redisAsyncConnectWithOptions (host : Bytes) (port : ℕ) : Prog ω (Option AConnId) := do
  match ← ask (H.asyncConnect · host port) with
  | .oom => pure none
  | .failed f => do
    let a ← newAConn host port (some f)
    pure (some a)
  | .ok => do
    let a ← newAConn host port none
    pure (some a)

/-- `redisAsyncFree` of a connection that belongs to no node yet.  Only AUTH, which has
no callback, can be pending on it. -/
def redisAsyncFree (a : AConnId) : Prog ω Unit := do
  modifyAConn a fun conn => { conn with freeing := true, alive := false }
  modify fun w => { w with inflight := w.inflight.filter fun p => p ≠ (a, .null) }

/-- The answer of hiredis to a submission.  A connection that is about to be closed
accepts no commands. -/
def submitTo (a : AConnId) (cb : ACallback) (q : Sent) : Prog ω Status := do
  let w ← get
  if (w.aconns a).disconnecting || (w.aconns a).freeing then pure .err
  else
    match ← ask (H.submit · (w.apeer a) q) with
    | .accepted => do
      modify fun w => { w with inflight := w.inflight ++ [(a, cb)] }
      pure .ok
    | .rejected f => do
      modifyAConn a fun conn => { conn with err := f.or conn.err }
      pure .err

/-- `redisAsyncCommand` and `redisAsyncFormattedCommand`. -/
def redisAsyncCommand (a : AConnId) (cb : ACallback) (q : Sent) : Prog ω Status := do
  let s ← submitTo H a cb q
  modifyAcc fun acc => { acc with handed := acc.handed ++ [(cb, s)] }
  pure s

/-! ## Reaching a node -/

/-- `acc->cc->ssl && ssl_init_fn(&ac->c, acc->cc->ssl) != REDIS_OK`, with the error
copied to the context. -/
def startTlsAsync (a : AConnId) : Prog ω Status := do
  let w ← get
  if w.cc.ssl then
    match ← ask (H.initSsl · (w.apeer a)) with
    | none => pure .ok
    | some f => do
      modifyAConn a fun conn => { conn with err := some f }
      copyAsyncError a
      pure .err
  else pure .ok

/-- AUTH without a callback, when a password is set. -/
def authenticateAsync (a : AConnId) : Prog ω Status := do
  let w ← get
  match w.cc.password with
  | none => pure .ok
  | some pw => do
    match ← redisAsyncCommand H a .null (.auth w.cc.username pw) with
    | .ok => pure .ok
    | .err => do
      copyAsyncError a
      pure .err

/-- `acc->attach_fn(ac, acc->adapter)`, when there is an adapter. -/
def attachAdapter (a : AConnId) : Prog ω Status := do
  let w ← get
  if w.acc.adapter then
    match ← ask (H.attach · (w.apeer a)) with
    | true => pure .ok
    | false => do
      asyncSetError (some .other) (.lit "Failed to attach event adapter")
      pure .err
  else pure .ok

/-- `ac->data = node` and `node->acon = ac`. -/
def linkAsync (n : NodeId) (a : AConnId) : Prog ω Unit := do
  modifyAConn a fun conn => { conn with data := some n }
  modifyNode n fun node => { node with acon := some a }

/-- Make a new connection ready for commands. -/
def prepareAsync (a : AConnId) : Prog ω Status := do
  let w ← get
  if (w.aconns a).err.isSome then do
    copyAsyncError a
    pure .err
  else
    match ← startTlsAsync H a with
    | .err => pure .err
    | .ok =>
      match ← authenticateAsync H a with
      | .err => pure .err
      | .ok => attachAdapter H a

/-- The part of `actx_get_by_node` that connects. -/
def openNodeAsync (n : NodeId) : Prog ω (Option AConnId) := do
  let w ← get
  let t ← ask H.now
  modifyNode n fun node => { node with lastConnectionAttempt := t }
  match ← redisAsyncConnectWithOptions H (w.heap n).host (w.heap n).port with
  | none => do
    asyncSetError (some .oom) (.lit "Out of memory")
    pure none
  | some a =>
    match ← prepareAsync H a with
    | .err => do
      redisAsyncFree a
      pure none
    | .ok => do
      linkAsync n a
      pure (some a)

/-- `actx_get_by_node`. -/
def actxGetByNode (n : NodeId) : Prog ω (Option AConnId) := do
  let w ← get
  match (w.heap n).acon with
  | some a =>
    match (w.aconns a).err with
    | none => pure (some a)
    | some f => do
      asyncSetError (some f.code) (ErrText.ofBytes f.str)
      pure none
  | none =>
    if (w.heap n).port = 0 then do
      asyncSetError (some .other) (.lit "node host or port is error")
      pure none
    else openNodeAsync H n

/-! ## Slot map updates -/

/-- `SLOTMAP_UPDATE_THROTTLE_USEC` -/
def slotmapUpdateThrottleUsec : ℤ := 1000000

/-- `SLOTMAP_UPDATE_ONGOING`, which is `INT64_MAX`. -/
def slotmapUpdateOngoing : ℤ := 2 ^ 63 - 1

/-- `nodeIsConnected`. -/
def World.nodeIsConnected (w : World ω) (n : NodeId) : Bool :=
  match (w.heap n).acon with
  | none => false
  | some a => (w.aconns a).err.isNone && (w.aconns a).connected

/-- The loop of `selectNode` over the nodes still to be looked at. -/
def selectFrom (w : World ω) (throttleLimit : ℤ) (checkIndex : ℕ) :
    ℕ → Option NodeId → List NodeId → Option NodeId
  | _, selected, [] => selected
  | currentIndex, selected, n :: ns =>
    let idle := match selected with
      | none => true
      | some m => decide (currentIndex < checkIndex) && !w.nodeIsConnected m
    let selected' :=
      if w.nodeIsConnected n then some n
      else if (w.heap n).lastConnectionAttempt < throttleLimit && idle then some n
      else selected
    if checkIndex ≤ currentIndex && (selected'.map w.nodeIsConnected).getD false then selected'
    else selectFrom w throttleLimit checkIndex (currentIndex + 1) selected' ns

/-- `selectNode`; the index is taken modulo the number of nodes. -/
def selectNode (nodes : NodeDict) : Prog ω (Option NodeId) := do
  let t ← ask H.now
  let r ← ask H.random
  if nodes.vals = [] then do
    abort .emptyNodes
    pure none
  else do
    let w ← get
    pure (selectFrom w (t - slotmapUpdateThrottleUsec) (r % nodes.vals.length) 0 none nodes.vals)

/-- The end of `updateSlotMapAsync`: send the topology query. -/
def submitTopologyQuery (a : AConnId) : Prog ω Status := do
  let w ← get
  redisAsyncCommand H a (.topology w.cc.routeUseSlots) w.cc.topologyQuery

/-- `acc->lastSlotmapUpdateAttempt = hi_usec_now()`. -/
def stampSlotmapUpdate : Prog ω Unit := do
  let t ← ask H.now
  modifyAcc fun acc => { acc with lastSlotmapUpdateAttempt := t }

/-- The connection for `updateSlotMapAsync`: the given one, or that of a selected
node. -/
def updateTarget (a : Option AConnId) : Prog ω (Option AConnId) :=
  match a with
  | some a => pure (some a)
  | none => do
    let w ← get
    match w.cc.nodes with
    | none => do
      asyncSetError (some .other) (.lit "no nodes added")
      pure none
    | some nodes => do
      match ← selectNode H nodes with
      | none => pure none
      | some n => actxGetByNode H n

/-- `updateSlotMapAsync`. -/
def updateSlotMapAsync (a : Option AConnId) : Prog ω Status := do
  let w ← get
  if w.acc.lastSlotmapUpdateAttempt = slotmapUpdateOngoing ∨ w.cc.shutdown then pure .err
  else
    match ← updateTarget H a with
    | none => do
      stampSlotmapUpdate H
      pure .err
    | some a =>
      match ← submitTopologyQuery H a with
      | .ok => do
        modifyAcc fun acc => { acc with lastSlotmapUpdateAttempt := slotmapUpdateOngoing }
        pure .ok
      | .err => do
        stampSlotmapUpdate H
        pure .err

/-- `throttledUpdateSlotMapAsync`. -/
def throttledUpdateSlotMapAsync (a : Option AConnId) : Prog ω Unit := do
  let w ← get
  if w.acc.lastSlotmapUpdateAttempt = slotmapUpdateOngoing then pure ()
  else do
    let t ← ask H.now
    if w.acc.lastSlotmapUpdateAttempt + slotmapUpdateThrottleUsec < t then do
      let _ ← updateSlotMapAsync H a
      pure ()
    else pure ()

/-- `parse_cluster_slots` or `parse_cluster_nodes`. -/
def parseTopology (useSlots : Bool) (host : Bytes) (r : Reply) : Prog ω (Option NodeDict) :=
  if useSlots then parseClusterSlots host r else parseClusterNodes host r

/-- `clusterSlotsReplyCallback` and `clusterNodesReplyCallback`, up to where the old
nodes are being released: the result says whether a new node set was installed. -/
def topologyReplyCallback (a : AConnId) (useSlots : Bool) (reply : Option Reply) :
    Prog ω Bool := do
  stampSlotmapUpdate H
  match reply with
  | none => do
    let _ ← updateSlotMapAsync H none
    pure false
  | some r => do
    let w ← get
    match ← parseTopology useSlots (w.aconns a).host r with
    | none => do
      let _ ← updateSlotMapAsync H none
      pure false
    | some nodes =>
      match ← installNodes nodes with
      | .ok => pure true
      | .err => do
        let _ ← updateSlotMapAsync H none
        pure false

/-! ## The callback of a command -/

/-- `NO_RETRY` -/
def noRetry : ℤ := -1

/-- Label `done`, up to the call of the user's function; the rest is
`finishCallback`.  The result says whether the function was called. -/
def callUser (k : ℕ) (r : Option Reply) : Prog ω Bool := do
  let w ← get
  match (w.cads k).callback with
  | none => do
    abort (.nullCallback k)
    pure false
  | some _ => do
    modifyAcc fun acc =>
      { acc with called := acc.called ++ [(k, if acc.err.isSome then none else r)] }
    userHook
    pure true

/-- The rest of `redisClusterAsyncCallback` once the user's function has returned. -/
def finishCallback : Prog ω Unit := do
  resetError
  resetAsyncError

/-- Label `retry`. -/
def resubmit (k : ℕ) (a : AConnId) : Prog ω Bool := do
  let w ← get
  let _ ← redisAsyncCommand H a (.user k)
    (.command (w.cads k).command.id (w.cads k).command.cmd)
  pure false

/-- A MOVED reply.  The connection of the destination is not checked. -/
def asyncMoved (a : AConnId) (k : ℕ) (r : Reply) : Prog ω Bool := do
  throttledUpdateSlotMapAsync H (some a)
  match ← handleMoved r.text with
  | none => do
    copyContextError
    callUser k (some r)
  | some n =>
    match ← actxGetByNode H n with
    | none => do
      abort (.nullConnection k)
      pure false
    | some a' => resubmit H k a'

/-- An ASK reply.  If ASKING cannot be sent the command is dropped. -/
def asyncAsk (k : ℕ) (r : Reply) : Prog ω Bool := do
  match ← handleAsk r.text with
  | none => do
    copyContextError
    callUser k (some r)
  | some n =>
    match ← actxGetByNode H n with
    | none => callUser k (some r)
    | some a =>
      match ← redisAsyncCommand H a .null .asking with
      | .err => pure false
      | .ok => resubmit H k a

/-- A redirect or a transient error: count it, and treat it unless there were too
many. -/
def asyncRedirect (a : AConnId) (k : ℕ) (type : ErrorType) (r : Reply) : Prog ω Bool := do
  modifyCad k fun cad => { cad with retryCount := cad.retryCount + 1 }
  let w ← get
  if w.cc.maxRetryCount < (w.cads k).retryCount then do
    modifyCad k fun cad => { cad with retryCount := 0 }
    asyncSetError (some .tooManyRetries) (.lit "too many cluster retries")
    callUser k (some r)
  else
    match type with
    | .moved => asyncMoved H a k r
    | .ask => asyncAsk H k r
    | _ => resubmit H k a

/-- The reply is handed out whatever it is: retrying is disabled for the command, or
the client is shutting down, or there is nothing to retry. -/
def World.final (w : World ω) (k : ℕ) (r : Reply) : Bool :=
  (w.cads k).retryCount = noRetry || w.cc.shutdown ||
    clusterReplyErrorType r = .notErr || clusterReplyErrorType r = .sentinel

/-- `redisClusterAsyncCallback`, up to the call of the user's function. -/
def redisClusterAsyncCallback (a : AConnId) (k : ℕ) (reply : Option Reply) : Prog ω Bool :=
  match reply with
  | none => do
    copyAsyncError a
    let w ← get
    match (w.aconns a).data with
    | none => callUser k none
    | some _ => do
      throttledUpdateSlotMapAsync H none
      callUser k none
  | some r => do
    let w ← get
    if w.final k r then callUser k (some r)
    else asyncRedirect H a k (clusterReplyErrorType r) r

/-! ## Sending commands -/

/-- `cluster_async_data_create`, with the fields its caller fills in. -/
def newCad (cad : AsyncData) : Prog ω ℕ :=
  fun w => (w.nextCad,
    { w with cads := Function.update w.cads w.nextCad cad, nextCad := w.nextCad + 1 })

/-- Submit a command of the user to `a`. -/
def submitCommand (a : AConnId) (cad : AsyncData) : Prog ω Status := do
  let k ← newCad cad
  match ← redisAsyncCommand H a (.user k) (.command cad.command.id cad.command.cmd) with
  | .err => do
    copyAsyncError a
    pure .err
  | .ok => do
    modifyAcc fun acc => { acc with accepted := acc.accepted ++ [k] }
    pure .ok

/-- `redisClusterAsyncFormattedCommand`. -/
def redisClusterAsyncFormattedCommand (fn : Option ℕ) (cmd : Bytes) : Prog ω Status := do
  let w ← get
  if w.cc.shutdown then do
    asyncSetError (some .other) (.lit "client closing")
    pure .err
  else do
    resetError
    resetAsyncError
    let id ← commandGet
    let (slotNum, command) ← commandFormatBySlot { id, cmd }
    if slotNum < 0 then do
      copyContextError
      pure .err
    else if redisClusterSlots ≤ slotNum.toNat then do
      asyncSetError (some .other) (.lit "slot_num is out of range")
      pure .err
    else if (command.subCommands.getD []).length > 0 then do
      asyncSetError (some .other)
        (.lit "Asynchronous API now not support multi-key command")
      pure .err
    else
      match ← nodeGetByTable (toUint32 slotNum) with
      | none => do
        throttledUpdateSlotMapAsync H none
        copyContextError
        pure .err
      | some n =>
        match ← actxGetByNode H n with
        | none => pure .err
        | some a => submitCommand H a { command := command.toCmd, callback := fn }

/-- `redisClusterAsyncFormattedCommandToNode`. -/
def redisClusterAsyncFormattedCommandToNode (n : NodeId) (fn : Option ℕ) (cmd : Bytes) :
    Prog ω Status := do
  let w ← get
  if w.cc.shutdown then do
    asyncSetError (some .other) (.lit "disconnecting")
    pure .err
  else
    match ← actxGetByNode H n with
    | none => pure .err
    | some a => do
      resetError
      resetAsyncError
      let id ← commandGet
      submitCommand H a { command := { id, cmd }, callback := fn, retryCount := noRetry }

/-! ## Connecting and disconnecting -/

/-- `redisClusterAsyncConnect2`. -/
def redisClusterAsyncConnect2 : Prog ω Status := do
  let w ← get
  if w.acc.adapter then updateSlotMapAsync H none else pure .err

/-- `redisAsyncDisconnect` of the connection of a node: no more commands are accepted. -/
def disconnectNode (n : NodeId) : Prog ω Unit := do
  let w ← get
  match (w.heap n).acon with
  | none => pure ()
  | some a => modifyAConn a fun conn => { conn with disconnecting := true }

/-- `redisClusterAsyncDisconnect`. -/
def redisClusterAsyncDisconnect : Prog ω Unit := do
  modifyCc fun cc => { cc with shutdown := true }
  let w ← get
  match w.cc.nodes with
  | none => pure ()
  | some nodes => forEach disconnectNode nodes.vals

/-- `redisClusterConnect2`: a shutdown is over. -/
def redisClusterConnect2 : Prog ω Status := do
  modifyCc fun cc => { cc with shutdown := false }
  let w ← get
  if w.nodeList = [] then do
    setError (some .other) (.lit "servers address does not set up")
    pure .err
  else redisClusterUpdateSlotmap H

/-- `redisClusterFree`: the user is told, and the table, the nodes and the requests are
released. -/
def redisClusterFree : Prog ω Unit := do
  userHook
  let w ← get
  modifyCc fun cc => { cc with table := none, nodes := none, requests := none }
  match w.cc.nodes with
  | none => pure ()
  | some nodes => dictRelease nodes

/-- `redisClusterAsyncFree`. -/
def redisClusterAsyncFree : Prog ω Unit := do
  modifyCc fun cc => { cc with shutdown := true }
  redisClusterFree

/-- hiredis begins to free the connection of a released node, which `freeRedisClusterNode`
has detached. -/
def beginAsyncFree (a : AConnId) : Prog ω Unit :=
  modifyAConn a fun conn => { conn with data := none, freeing := true }

/-- hiredis frees a connection: `unlinkAsyncContextAndNode` by way of `dataCleanup`. -/
def unlinkAsyncContextAndNode (a : AConnId) : Prog ω Unit := do
  let w ← get
  match (w.aconns a).data with
  | none => pure ()
  | some n => modifyNode n fun node => { node with acon := none }
  modifyAConn a fun conn => { conn with alive := false, freeing := true, data := none }
