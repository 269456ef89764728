/-
# Updating the slot map, and reaching a node

`updateNodesAndSlotmap` replaces the node set and the slot table;
`redisClusterUpdateSlotmap` asks one known node after the other for the topology
over a connection of its own; `ctx_get_by_node` gives the connection of a node,
opening it or reconnecting when needed.

Embedded source (`hircluster.c`): `cluster_nodes_swap_ctx`,
`updateNodesAndSlotmap`, `clusterUpdateRouteSendCommand`,
`handleClusterSlotsReply`, `handleClusterNodesReply`,
`clusterUpdateRouteHandleReply`, `cluster_update_route_by_addr`,
`redisClusterUpdateSlotmap`, `redisClusterSetOptionAddNode`, `ctx_get_by_node`,
`node_get_by_table`.
-/
import HiredisCluster.Topology

variable {ω : Type}

/-! ## The slot table of a node set -/

/-- Enter node `n` for `k` slots from slot `i` on. -/
def fillSlots (n : NodeId) : SlotTable → ℕ → ℕ → Except Complaint SlotTable
  | t, _, 0 => .ok t
  | t, i, k + 1 =>
    if (t i).isSome then .error (.other, "Different node holds same slot")
    else fillSlots n (Function.update t i (some n)) (i + 1) k

/-- Enter the ranges of node `n`. -/
def fillRanges (n : NodeId) : SlotTable → List SlotRange → Except Complaint SlotTable
  | t, [] => .ok t
  | t, r :: rs =>
    if r.start > r.stop ∨ r.stop ≥ redisClusterSlots then
      .error (.other, "Slot region for node is invalid")
    else
      match fillSlots n t r.start (r.stop + 1 - r.start) with
      | .error e => .error e
      | .ok t' => fillRanges n t' rs

/-- The slot table of a list of masters. -/
def fillTable (heap : NodeId → Node) : SlotTable → List NodeId → Except Complaint SlotTable
  | t, [] => .ok t
  | t, n :: ns =>
    if (heap n).role ≠ .master then .error (.other, "Node role must be master")
    else
      match fillRanges n t ((heap n).slots.getD []) with
      | .error e => .error e
      | .ok t' => fillTable heap t' ns

/-! ## Replacing the node set -/

/-- Let an asynchronous connection point to its new node. -/
def relinkAsync (acon : Option AConnId) (n : NodeId) : Prog ω Unit :=
  match acon with
  | none => pure ()
  | some a => modify fun w =>
    { w with aconns := Function.update w.aconns a { w.aconns a with data := some n } }

/-- Exchange the connections of two nodes with the same address, where the old
node `f` has one. -/
def swapNodeCtx (f t : NodeId) : Prog ω Unit := do
  let w ← get
  let nf := w.heap f
  let nt := w.heap t
  modifyNode f fun node =>
    { node with
      con := if nf.con.isSome then nt.con else node.con
      acon := if nf.acon.isSome then nt.acon else node.acon }
  modifyNode t fun node =>
    { node with
      con := if nf.con.isSome then nf.con else node.con
      acon := if nf.acon.isSome then nf.acon else node.acon }
  if nf.acon.isSome then do
    relinkAsync nf.acon t
    relinkAsync nt.acon f
  else pure ()

/-- `cluster_nodes_swap_ctx` for the nodes still to be visited. -/
def clusterNodesSwapCtx (nodesF : NodeDict) : List NodeId → Prog ω Unit
  | [] => pure ()
  | t :: ts => do
    let w ← get
    match nodesF.find (w.heap t).addr with
    | none => clusterNodesSwapCtx nodesF ts
    | some f => do
      swapNodeCtx f t
      clusterNodesSwapCtx nodesF ts

/-- The first part of `updateNodesAndSlotmap`: build the table, and if that
succeeds install it and the node set, and release the old nodes.  Releasing a
node runs the callbacks pending on its asynchronous connection. -/
def installNodes (nodes : NodeDict) : Prog ω Status := do
  let w ← get
  match fillTable w.heap (fun _ => none) nodes.vals with
  | .error e => do
    setError (some e.1) (.lit e.2)
    dictRelease nodes
    pure .err
  | .ok table => do
    modifyCc fun cc => { cc with table := some table, routeVersion := cc.routeVersion + 1 }
    match w.cc.nodes with
    | none => do
      modifyCc fun cc => { cc with nodes := some nodes }
      pure .ok
    | some oldnodes => do
      clusterNodesSwapCtx oldnodes nodes.vals
      modifyCc fun cc => { cc with nodes := some nodes }
      dictRelease oldnodes
      pure .ok

/-- The second part of `updateNodesAndSlotmap`: tell the user, and unschedule
any update. -/
def announceSlotmap : Prog ω Unit := do
  userHook
  modifyCc fun cc => { cc with needUpdateRoute := false }

/-- `updateNodesAndSlotmap`; `none` is a `NULL` dictionary. -/
def updateNodesAndSlotmap (nodes : Option NodeDict) : Prog ω Status :=
  match nodes with
  | none => pure .err
  | some nodes => do
    match ← installNodes nodes with
    | .err => pure .err
    | .ok => do
      announceSlotmap
      pure .ok

variable (H : Hiredis ω)

/-! ## Topology queries -/

/-- `clusterUpdateRouteSendCommand`.  A failing `redisBufferWrite` is not
reported on the context. -/
def clusterUpdateRouteSendCommand (c : ConnId) : Prog ω Status := do
  let w ← get
  match ← redisAppendCommand H c w.cc.topologyQuery with
  | .err => do
    let w' ← get
    setError ((w'.conns c).err.map Fault.code)
      (.lit (if w.cc.routeUseSlots then "Command (cluster slots) send error."
        else "Command (cluster nodes) send error."))
    pure .err
  | .ok => redisBufferWrite H c

/-- The error for a topology reply that could not be read. -/
def topologyReadError (c : ConnId) (what : String) : Prog ω Unit := do
  let w ← get
  if (w.conns c).err.map Fault.code = some .timeout then
    setError (some .timeout) (.lit ("Command (" ++ what ++ ") reply error (socket timeout)"))
  else setError (some .other) (.lit ("Command (" ++ what ++ ") reply error (NULL)."))

/-- `handleClusterSlotsReply`. -/
def handleClusterSlotsReply (c : ConnId) : Prog ω Status := do
  match ← redisGetReply H c .clusterSlots with
  | none => do
    topologyReadError c "cluster slots"
    pure .err
  | some a =>
    match a.reply with
    | .array elems => do
      let w ← get
      let nodes ← parseClusterSlots (w.conns c).host (.array elems)
      updateNodesAndSlotmap nodes
    | .error str => do
      setError (some .other) (ErrText.ofBytes str)
      pure .err
    | _ => do
      setError (some .other)
        (.lit "Command (cluster slots) reply error: type is not array.")
      pure .err

/-- `handleClusterNodesReply`. -/
def handleClusterNodesReply (c : ConnId) : Prog ω Status := do
  match ← redisGetReply H c .clusterNodes with
  | none => do
    topologyReadError c "cluster nodes"
    pure .err
  | some a =>
    match a.reply with
    | .string str => do
      let w ← get
      let nodes ← parseClusterNodes (w.conns c).host (.string str)
      updateNodesAndSlotmap nodes
    | .error str => do
      setError (some .other) (ErrText.ofBytes str)
      pure .err
    | _ => do
      setError (some .other)
        (.lit "Command(cluster nodes) reply error: type is not string.")
      pure .err

/-- `clusterUpdateRouteHandleReply`. -/
def clusterUpdateRouteHandleReply (c : ConnId) : Prog ω Status := do
  let w ← get
  if w.cc.routeUseSlots then handleClusterSlotsReply H c else handleClusterNodesReply H c

/-- The conversation of `cluster_update_route_by_addr` on its connection. -/
def queryTopology (c : ConnId) : Prog ω Status := do
  let w ← get
  if (w.conns c).err.isSome then do
    copyError c
    pure .err
  else
    match ← startTls H c with
    | .err => pure .err
    | .ok =>
      match ← authenticate H c with
      | .err => pure .err
      | .ok =>
        match ← clusterUpdateRouteSendCommand H c with
        | .err => pure .err
        | .ok => clusterUpdateRouteHandleReply H c

/-- `cluster_update_route_by_addr`: over a connection of its own. -/
def clusterUpdateRouteByAddr (ip : Bytes) (port : ℕ) : Prog ω Status := do
  if port = 0 then do
    setError (some .other) (.lit "Ip or port error!")
    pure .err
  else
    match ← redisConnectWithOptions H ip port with
    | none => do
      setError (some .oom) (.lit "Out of memory")
      pure .err
    | some c => do
      userHook
      let r ← queryTopology H c
      redisFree (some c)
      pure r

/-- The loop of `redisClusterUpdateSlotmap` over the nodes still to be asked. -/
def updateSlotmapFrom : List NodeId → Prog ω Status
  | [] => pure .err
  | n :: ns => do
    let w ← get
    match ← clusterUpdateRouteByAddr H (w.heap n).host (w.heap n).port with
    | .ok => do
      clearError
      pure .ok
    | .err => updateSlotmapFrom ns

/-- `redisClusterUpdateSlotmap`. -/
def redisClusterUpdateSlotmap : Prog ω Status := do
  let w ← get
  match w.cc.nodes with
  | none => do
    setError (some .other) (.lit "no server address")
    pure .err
  | some nodes =>
    if nodes.vals = [] then do
      setError (some .other) (.lit "no valid server address")
      pure .err
    else updateSlotmapFrom H nodes.vals

/-! ## Adding and reaching nodes -/

/-- `redisClusterSetOptionAddNode`. -/
def redisClusterSetOptionAddNode (addr : Bytes) : Prog ω Status := do
  let w ← get
  let nodes := w.cc.nodes.getD HashTable.empty
  modifyCc fun cc => { cc with nodes := some nodes }
  match nodes.find (cstr addr) with
  | some _ => pure .ok
  | none =>
    match strrchr addr 58 with
    | none => do
      setError (some .other)
        (.lit "server address is incorrect, port separator missing.")
      pure .err
    | some p =>
      let port := hiAtoi ((cstr addr).drop (p + 1))
      if p = 0 then do
        setError (some .other)
          (.lit "server address is incorrect, address part missing.")
        pure .err
      else if (cstr addr).drop (p + 1) = [] then do
        setError (some .other) (.lit "server address is incorrect, port part missing.")
        pure .err
      else if port ≤ 0 then do
        setError (some .other) (.lit "server port is incorrect")
        pure .err
      else do
        let n ← newNode { addr := cstr addr, host := addr.take p, port := toUint16 port }
        match nodes.add (cstr addr) n with
        | none => do
          setError (some .oom) (.lit "Out of memory")
          pure .err
        | some nodes' => do
          modifyCc fun cc => { cc with nodes := some nodes' }
          pure .ok

/-- Open the first connection of a node.  It is kept only when it is ready for
commands. -/
def openNode (n : NodeId) : Prog ω (Option ConnId) := do
  let w ← get
  match ← redisConnectWithOptions H (w.heap n).host (w.heap n).port with
  | none => do
    setError (some .oom) (.lit "Out of memory")
    pure none
  | some c => do
    userHook
    let w' ← get
    if (w'.conns c).err.isSome then do
      copyError c
      redisFree (some c)
      pure none
    else
      match ← startTls H c with
      | .err => do
        redisFree (some c)
        pure none
      | .ok =>
        match ← authenticate H c with
        | .err => do
          redisFree (some c)
          pure none
        | .ok => do
          modifyNode n fun node => { node with con := some c }
          pure (some c)

/-- Reconnect a connection that is in error.  The results of the handshake and
of the authentication are not looked at. -/
def reconnectNode (c : ConnId) : Prog ω Unit := do
  redisReconnect H c
  userHook
  let _ ← startTls H c
  let _ ← authenticate H c
  pure ()

/-- `ctx_get_by_node`. -/
def ctxGetByNode (n : NodeId) : Prog ω (Option ConnId) := do
  let w ← get
  match (w.heap n).con with
  | some c =>
    if (w.conns c).err.isSome then do
      reconnectNode H c
      pure (some c)
    else pure (some c)
  | none => if (w.heap n).port = 0 then pure none else openNode H n

/-- `node_get_by_table`. -/
def nodeGetByTable (slot : ℕ) : Prog ω (Option NodeId) := do
  let w ← get
  if slot ≥ redisClusterSlots then do
    setError (some .other) (.lit "invalid slot")
    pure none
  else
    match w.cc.table with
    | none => do
      setError (some .other) (.lit "slotmap not available")
      pure none
    | some table =>
      match table slot with
      | none => do
        setError (some .other) (.lit "slot not served by any node")
        pure none
      | some n => pure (some n)

/-- A new client to which one node was added. -/
def oneNode (env : ω) : World ω :=
  (redisClusterSetOptionAddNode (ascii "a:1") ({ env := env } : World ω)).2

/-- A client that knows one node, to which every slot is mapped. -/
def singleNode (env : ω) : World ω :=
  { oneNode env with cc := { (oneNode env).cc with table := some fun _ => some 0 } }
