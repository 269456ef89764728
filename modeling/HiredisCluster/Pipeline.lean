/-
# Pipelining

Commands are appended to the output buffers of the nodes' connections and listed
in `cc->requests`; `redisClusterGetReply` takes the oldest request off the list
and reads its replies from the connections that serve it then.
`redisClusterReset` ends a pipeline: it reads what is outstanding, or closes the
connections.

Embedded source (`hircluster.c`): `__redisClusterAppendCommand`,
`__redisClusterGetReplyFromNode`, `__redisClusterGetReply`,
`redisClusterAppendFormattedCommand`, `redisClustervAppendCommandToNode`,
`redisClusterSendAll`, `redisClusterClearAll`, `redisClusterGetReply`,
`redisClusterReset`.
-/
import HiredisCluster.Blocking

open Program

variable {ω : Type} (H : Hiredis ω)

/-! ## Appending -/

/-- `__redisClusterAppendCommand`. -/
def clusterAppendCommand (command : Cmd) : Prog ω Status := do
  match ← nodeGetByTable (toUint32 command.slotNum) with
  | none => pure .err
  | some n =>
    match ← ctxGetByNode H n with
    | none => pure .err
    | some c => do
      let w ← get
      if (w.conns c).err.isSome then do
        copyError c
        pure .err
      else
        match ← redisAppendCommand H c (.command command.id command.cmd) with
        | .err => do
          copyError c
          pure .err
        | .ok => pure .ok

/-- The loop over the fragments.  Those appended before a failure stay in the
output buffers. -/
def appendFragments : List Cmd → Prog ω Status
  | [] => pure .ok
  | f :: fs => do
    match ← clusterAppendCommand H f with
    | .err => pure .err
    | .ok => appendFragments fs

/-- The command itself, or its fragments. -/
def appendFormatted (command : Request) : Prog ω Status :=
  match command.subCommands with
  | none => clusterAppendCommand H command.toCmd
  | some frags => appendFragments H frags

/-- Create the request list if there is none. -/
def ensureRequests : Prog ω Unit :=
  modifyCc fun cc => { cc with requests := some (cc.requests.getD []) }

/-- `listAddNodeTail(cc->requests, command)`. -/
def addRequest (command : Request) : Prog ω Unit :=
  modifyCc fun cc => { cc with requests := cc.requests.map (· ++ [command]) }

/-- `redisClusterAppendFormattedCommand`.  The request drops its pointer to the
caller's buffer; the bytes stay in the model as part of the transmission's name. -/
def redisClusterAppendFormattedCommand (cmd : Bytes) : Prog ω Status := do
  ensureRequests
  let id ← commandGet
  let (slotNum, command) ← commandFormatBySlot { id, cmd }
  if slotNum < 0 then pure .err
  else if redisClusterSlots ≤ slotNum.toNat then do
    setError (some .other) (.lit "slot_num is out of range")
    pure .err
  else do
    match ← appendFormatted H command with
    | .err => pure .err
    | .ok => do
      addRequest command
      pure .ok

/-- `redisClustervAppendCommandToNode`, with the formatted command.  The request
remembers the node by its address up to the first NUL (`sdsnew`). -/
def redisClustervAppendCommandToNode (n : NodeId) (cmd : Bytes) : Prog ω Status := do
  ensureRequests
  match ← ctxGetByNode H n with
  | none => pure .err
  | some c => do
    let w ← get
    if (w.conns c).err.isSome then do
      copyError c
      pure .err
    else do
      let id ← commandGet
      match ← redisAppendCommand H c (.command id cmd) with
      | .err => do
        copyError c
        pure .err
      | .ok => do
        addRequest { id, cmd, nodeAddr := some (cstr (w.heap n).addr) }
        pure .ok

/-! ## Reading -/

/-- The counter of reads from a connection in error; many of them schedule an
update of the slot map. -/
def countFailedRead : Prog ω Unit :=
  modifyCc fun cc =>
    if cc.needUpdateRoute then cc
    else if cc.maxRetryCount < cc.retryCount + 1 then
      { cc with needUpdateRoute := true, retryCount := 0 }
    else { cc with retryCount := cc.retryCount + 1 }

/-- `__redisClusterGetReplyFromNode`, to obtain the answer to `q`. -/
def clusterGetReplyFromNode (n : NodeId) (q : Sent) : Prog ω (Option Reply) := do
  let w ← get
  match (w.heap n).con with
  | none => pure none
  | some c =>
    if (w.conns c).err.isSome then do
      countFailedRead
      copyError c
      pure none
    else
      match ← redisGetReply H c q with
      | none => do
        copyError c
        pure none
      | some a => do
        modifyCc fun cc =>
          { cc with needUpdateRoute := cc.needUpdateRoute ||
              decide (clusterReplyErrorType a.reply = .moved) }
        pure (some a.reply)

/-- `__redisClusterGetReply`. -/
def clusterGetReply (slotNum : ℤ) (q : Sent) : Prog ω (Option Reply) :=
  if slotNum < 0 then pure none
  else do
    match ← nodeGetByTable (toUint32 slotNum) with
    | none => pure none
    | some n => clusterGetReplyFromNode H n q

/-- The loop over the fragments of a request; `done` are those that have their
reply. -/
def getFragmentReplies (done : List (Cmd × Option Reply)) :
    List Cmd → Prog ω (Option (List (Cmd × Option Reply)))
  | [] => pure (some done)
  | f :: fs =>
    if f.slotNum < 0 then do
      setError (some .other) (.lit "sub_command slot_num is less then zero")
      pure none
    else do
      match ← clusterGetReply H f.slotNum (.command f.id f.cmd) with
      | none => pure none
      | some r => getFragmentReplies (done ++ [(f, some r)]) fs

/-- The replies to a request. -/
def getRequestReply (command : Request) : Prog ω (Option Reply) := do
  let w ← get
  if 0 ≤ command.slotNum then
    clusterGetReply H command.slotNum (.command command.id command.cmd)
  else
    match command.nodeAddr with
    | some addr =>
      match (w.cc.nodes.getD HashTable.empty).find addr with
      | some n => clusterGetReplyFromNode H n (.command command.id command.cmd)
      | none => do
        setError (some .other) (.lit "command was sent to a now unknown node")
        pure none
    | none =>
      match command.subCommands with
      | none => do
        setError (some .other) (.lit "sub_commands in command is null")
        pure none
      | some frags => do
        match ← getFragmentReplies H [] frags with
        | none => pure none
        | some rs => commandPostFragment command.type command.fragSeq rs

/-- `listDelNode(cc->requests, listFirst(cc->requests))`. -/
def dropRequest : Prog ω Unit :=
  modifyCc fun cc => { cc with requests := cc.requests.map List.tail }

/-- `redisClusterGetReply`; without outstanding requests the reply is `NULL`. -/
def redisClusterGetReply : Prog ω (Status × Option Reply) := do
  clearError
  let w ← get
  match w.cc.requests with
  | none => pure (.err, none)
  | some [] => pure (.ok, none)
  | some (command :: _) => do
    let r ← getRequestReply H command
    dropRequest
    match r with
    | none => pure (.err, none)
    | some r => pure (.ok, some r)

/-! ## Reset -/

/-- The loop of `redisClusterSendAll` over the nodes still to be flushed. -/
def sendAllFrom : List NodeId → Prog ω Status
  | [] => pure .ok
  | n :: ns => do
    match ← ctxGetByNode H n with
    | none => sendAllFrom ns
    | some c =>
      match ← redisBufferWrite H c with
      | .err => pure .err
      | .ok => sendAllFrom ns

/-- `redisClusterSendAll`. -/
def redisClusterSendAll : Prog ω Status := do
  let w ← get
  match w.cc.nodes with
  | none => pure .err
  | some nodes => sendAllFrom H nodes.vals

/-- Close the connection of a node. -/
def closeNode (n : NodeId) : Prog ω Unit := do
  let w ← get
  redisFree (w.heap n).con
  modifyNode n fun node => { node with con := none }

/-- `redisClusterClearAll`. -/
def redisClusterClearAll : Prog ω Status := do
  resetError
  let w ← get
  match w.cc.nodes with
  | none => pure .err
  | some nodes => do
    forEach closeNode nodes.vals
    pure .ok

/-- Read the replies to all requests, as long as that succeeds; `fuel` bounds the
number of requests. -/
def drainReplies : ℕ → Prog ω Unit
  | 0 => pure ()
  | fuel + 1 => do
    match ← redisClusterGetReply H with
    | (.err, _) => do
      let _ ← redisClusterClearAll
      pure ()
    | (.ok, none) => pure ()
    | (.ok, some _) => drainReplies fuel

/-- The update of the slot map at the end of `redisClusterReset`. -/
def updateIfNeeded : Prog ω Unit := do
  let w ← get
  if w.cc.needUpdateRoute then do
    match ← redisClusterUpdateSlotmap H with
    | .err => pure ()
    | .ok => modifyCc fun cc => { cc with needUpdateRoute := false }
  else pure ()

/-- `redisClusterReset`. -/
def redisClusterReset : Prog ω Unit := do
  let w ← get
  match w.cc.nodes with
  | none => pure ()
  | some _ => do
    if w.cc.err.isSome then do
      let _ ← redisClusterClearAll
      pure ()
    else do
      let _ ← redisClusterSendAll H
      drainReplies H ((w.cc.requests.getD []).length + 1)
    modifyCc fun cc => { cc with requests := none }
    updateIfNeeded H
