/-
# Blocking commands

`redisClusterFormattedCommand` executes a command, fragment by fragment if it has
to be split, and `redisClustervCommandToNode` sends one to a given node.

Embedded source (`hircluster.c`): `redisClusterFormattedCommand`,
`redisClustervCommandToNode`.
-/
import HiredisCluster.Execute
import HiredisCluster.Fragment

open Program

variable {ω : Type} (H : Hiredis ω)

/-- `if (cc->err) { cc->err = 0; memset(...); }` -/
def resetError : Prog ω Unit := do
  let w ← get
  if w.cc.err.isSome then clearError else pure ()

/-- What executing the fragments one after the other comes to: all replies, an
error reply, or a failure. -/
inductive Executed where
  | replies (rs : List (Cmd × Option Reply))
  | error (r : Reply)
  | failed

/-- The loop of `redisClusterFormattedCommand` over the fragments; `done` are those
executed so far, with their replies. -/
def executeFragments (done : List (Cmd × Option Reply)) : List Cmd → Prog ω Executed
  | [] => pure (.replies done)
  | f :: fs => do
    match ← redisClusterCommandExecute H f with
    | none => pure .failed
    | some a =>
      match a.reply with
      | .error s => pure (.error (.error s))
      | r => executeFragments (done ++ [(f, some r)]) fs

/-- The execution of a command that was formatted by slot. -/
def executeFormatted (command : Request) : Prog ω (Option Reply) :=
  match command.subCommands with
  | none => do
    let r ← redisClusterCommandExecute H command.toCmd
    pure (r.map Answer.reply)
  | some frags => do
    match ← executeFragments H [] frags with
    | .failed => pure none
    | .error r => pure (some r)
    | .replies rs => commandPostFragment command.type command.fragSeq rs

/-- `redisClusterFormattedCommand`. -/
def redisClusterFormattedCommand (cmd : Bytes) : Prog ω (Option Reply) := do
  resetError
  let id ← commandGet
  let (slotNum, command) ← commandFormatBySlot { id, cmd }
  if slotNum < 0 then do
    modifyCc fun cc => { cc with retryCount := 0 }
    pure none
  else if redisClusterSlots ≤ slotNum.toNat then do
    setError (some .other) (.lit "slot_num is out of range")
    modifyCc fun cc => { cc with retryCount := 0 }
    pure none
  else do
    let r ← executeFormatted H command
    modifyCc fun cc => { cc with retryCount := 0 }
    pure r

/-- The rest of `redisClustervCommandToNode` once the command is on its way. -/
def commandToNodeReply (c : ConnId) (q : Sent) (updatingSlotmap : Bool) :
    Prog ω (Option Answer) := do
  match ← redisGetReply H c q with
  | none => do
    copyError c
    let w ← get
    if (w.conns c).err.map Fault.code = some .oom then pure none
    else do
      modifyCc fun cc => { cc with needUpdateRoute := true }
      pure none
  | some a =>
    if updatingSlotmap then do
      match ← clusterUpdateRouteHandleReply H c with
      | .ok => pure (some a)
      | .err => do
        clearError
        pure (some a)
    else pure (some a)

/-- Send a scheduled topology query behind the command. -/
def commandToNodeUpdate (c : ConnId) : Prog ω Bool := do
  let w ← get
  if w.cc.needUpdateRoute then do
    match ← clusterUpdateRouteSendCommand H c with
    | .ok => pure true
    | .err => pure false
  else pure false

/-- `redisClustervCommandToNode`. -/
def redisClustervCommandToNode (n : NodeId) (cmd : Bytes) : Prog ω (Option Reply) := do
  match ← ctxGetByNode H n with
  | none => pure none
  | some c => do
    let w ← get
    if (w.conns c).err.isSome then do
      copyError c
      pure none
    else do
      resetError
      let id ← commandGet
      match ← redisAppendCommand H c (.command id cmd) with
      | .err => do
        copyError c
        pure none
      | .ok => do
        let updatingSlotmap ← commandToNodeUpdate H c
        let r ← commandToNodeReply H c (.command id cmd) updatingSlotmap
        pure (r.map Answer.reply)
