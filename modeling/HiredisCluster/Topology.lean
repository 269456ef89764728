/-
# Parsing the cluster topology

`parse_cluster_slots` walks the typed reply of CLUSTER SLOTS, and
`parse_cluster_nodes` scans the text of CLUSTER NODES; both create node objects
and collect the masters in a dictionary keyed by address.  On an error the
dictionary is released with the nodes in it and the error is set on the context.

Embedded source (`hircluster.c`): `freeRedisClusterNode`, `node_get_with_slots`,
`node_get_with_nodes`, `cluster_slot_ref_node`, `cluster_slot_create`,
`cluster_open_slot_create`, `cluster_master_slave_mapping_with_name`,
`parse_cluster_slots`, `parse_cluster_nodes`.
-/
import HiredisCluster.Hiredis

open Program

variable {ω : Type}

/-! ## Node objects -/

/-- `createRedisClusterNode`, with the fields its caller fills in. -/
def newNode (node : Node) : Prog ω NodeId :=
  fun w => (w.nextNode,
    { w with heap := Function.update w.heap w.nextNode node, nextNode := w.nextNode + 1 })

@[simp] theorem wp_newNode (node : Node) (Q : NodeId → World ω → Prop) (w : World ω) :
    wp (newNode node) Q w = Q w.nextNode
      { w with heap := Function.update w.heap w.nextNode node, nextNode := w.nextNode + 1 } := rfl

/-- The asynchronous connection of a released node is to be detached and freed.  User
code runs while that happens, so it is a step of its own (see `Client`). -/
def detachAsync (acon : Option AConnId) : Prog ω Unit :=
  match acon with
  | none => pure ()
  | some a => modify fun w => { w with closing := w.closing ++ [a] }

/-- `freeRedisClusterNode` of a node without replicas. -/
def freeLoneNode (n : NodeId) : Prog ω Unit := do
  let w ← get
  redisFree (w.heap n).con
  detachAsync (w.heap n).acon
  record (.released n)

/-- Run a routine on each element of a list. -/
def forEach {α : Type} (f : α → Prog ω Unit) : List α → Prog ω Unit
  | [] => pure ()
  | x :: xs => do
    f x
    forEach f xs

/-- `freeRedisClusterNode`: the node, then the replicas in its `slaves` list,
which have no such list themselves. -/
def freeRedisClusterNode (n : NodeId) : Prog ω Unit := do
  let w ← get
  freeLoneNode n
  forEach freeLoneNode ((w.heap n).slaves.getD [])

/-- `dictRelease` of a dictionary that owns its nodes. -/
def dictRelease (nodes : NodeDict) : Prog ω Unit :=
  forEach freeRedisClusterNode nodes.vals

/-- The address `host:port`. -/
def hostPort (host : Bytes) (port : ℤ) : Bytes := host ++ 58 :: decimal port.toNat

/-- `cluster_slot_create` and `cluster_slot_ref_node`: a range for a master. -/
def addSlotRange (n : NodeId) (r : SlotRange) : Prog ω Unit :=
  modifyNode n fun node => { node with slots := some (node.slots.getD [] ++ [r]) }

/-- What makes a parse fail: the error and its text. -/
abbrev Complaint := Err × String

/-- Report a failed parse and release what was built. -/
def parseFailed (nodes : NodeDict) (e : Complaint) : Prog ω (Option NodeDict) := do
  setError (some e.1) (.lit e.2)
  dictRelease nodes
  pure none

/-! ## CLUSTER SLOTS -/

/-- `node_get_with_slots`. -/
def nodeGetWithSlots (host : Bytes) (port : ℤ) (role : Role) : Prog ω NodeId :=
  newNode
    { addr := hostPort host port, host, port := toUint16 port, role
      slots := if role = .master then some [] else none }

/-- The received host, or the queried node's own for an empty or absent one. -/
def slotsHost (tcpHost : Bytes) : Reply → Option Bytes
  | .string s => some (if s.length > 0 then cstr s else tcpHost)
  | .nil => some tcpHost
  | _ => none

/-- The endpoint in a node entry of CLUSTER SLOTS. -/
def slotsEndpoint (tcpHost : Bytes) : Reply → Except Complaint (Bytes × ℤ)
  | .array (ip :: port :: _) =>
    match slotsHost tcpHost ip, port with
    | some host, .integer p =>
      if hiValidPort (toInt32 p) then .ok (host, toInt32 p)
      else .error (.other,
        "Command(cluster slots) reply error: node ip or port is not correct.")
    | _, _ => .error (.other,
        "Command(cluster slots) reply error: node ip or port is not correct.")
  | _ => .error (.other,
      "Command(cluster slots) reply error: nodes sub_reply is not an correct array.")

/-- Add a replica to its master. -/
def addSlave (master slave : NodeId) : Prog ω Unit :=
  modifyNode master fun node => { node with slaves := some (node.slaves.getD [] ++ [slave]) }

/-- The entries after the master in a slot region. -/
def parseSlotsReplicas (tcpHost : Bytes) (master : NodeId) :
    List Reply → Prog ω (Option Complaint)
  | [] => pure none
  | e :: es =>
    match slotsEndpoint tcpHost e with
    | .error msg => pure (some msg)
    | .ok (host, port) => do
      let w ← get
      if w.cc.addSlave then do
        let slave ← nodeGetWithSlots host port .slave
        addSlave master slave
        parseSlotsReplicas tcpHost master es
      else parseSlotsReplicas tcpHost master es

/-- The range at the start of a slot region. -/
def slotsRange : Reply → Reply → Except Complaint SlotRange
  | .integer b, .integer e =>
    let r : SlotRange := ⟨toUint32 (toInt32 b), toUint32 (toInt32 e)⟩
    if r.start > r.stop then
      .error (.other, "Command(cluster slots) reply error: slot begin is bigger than slot end.")
    else .ok r
  | .integer _, _ =>
    .error (.other, "Command(cluster slots) reply error: slot end is not an integer.")
  | _, _ =>
    .error (.other, "Command(cluster slots) reply error: slot begin is not an integer.")

/-- One slot region.  A master that is already known gets the range and the rest
of the region is skipped. -/
def parseSlotsRegion (tcpHost : Bytes) (nodes : NodeDict) :
    Reply → Prog ω (NodeDict × Option Complaint)
  | .array (b :: e :: m :: rest) =>
    match slotsRange b e with
    | .error msg => pure (nodes, some msg)
    | .ok r =>
      match slotsEndpoint tcpHost m with
      | .error msg => pure (nodes, some msg)
      | .ok (host, port) =>
        match nodes.find (hostPort host port) with
        | some master => do
          addSlotRange master r
          pure (nodes, none)
        | none => do
          let master ← nodeGetWithSlots host port .master
          match nodes.add (hostPort host port) master with
          | none => pure (nodes, some (.oom, "Out of memory"))
          | some nodes' => do
            addSlotRange master r
            let res ← parseSlotsReplicas tcpHost master rest
            pure (nodes', res)
  | _ => pure (nodes, some (.other,
      "Command(cluster slots) reply error: first sub_reply is not an array."))

/-- All slot regions, up to the first that does not parse. -/
def parseSlotsRegions (tcpHost : Bytes) (nodes : NodeDict) :
    List Reply → Prog ω (NodeDict × Option Complaint)
  | [] => pure (nodes, none)
  | e :: es => do
    match ← parseSlotsRegion tcpHost nodes e with
    | (nodes', some msg) => pure (nodes', some msg)
    | (nodes', none) => parseSlotsRegions tcpHost nodes' es

/-- `parse_cluster_slots`; `tcpHost` is the host of the queried connection. -/
def parseClusterSlots (tcpHost : Bytes) (reply : Reply) : Prog ω (Option NodeDict) :=
  match reply with
  | .array (e :: es) => do
    match ← parseSlotsRegions tcpHost HashTable.empty (e :: es) with
    | (nodes, some msg) => parseFailed nodes msg
    | (nodes, none) => pure (some nodes)
  | _ => parseFailed HashTable.empty
      (.other, "Command(cluster slots) reply error: reply is not an array.")

/-! ## CLUSTER NODES -/

/-- The text of a reply, empty for the types that have none. -/
def Reply.text : Reply → Bytes
  | .string s => s
  | .status s => s
  | .error s => s
  | _ => []

/-- The lines of the text.  The scan steps over the character after each newline
without looking at it, and what follows the last newline is dropped. -/
def nodesLines (line : Bytes) (skip : Bool) : Bytes → List Bytes
  | [] => []
  | b :: rest =>
    if b = 10 ∧ skip = false then line :: nodesLines [] true rest
    else nodesLines (line ++ [b]) false rest

/-- The address field without `@cport` and what follows it.  An `@` at the very
start leaves the field as it is (`sdsrange` with `-1` keeps everything). -/
def stripCport (field : Bytes) : Bytes :=
  match (cstr field).findIdx? (· = 64) with
  | none => field
  | some 0 => field
  | some i => field.take i

/-- The node that `node_get_with_nodes` makes of the fields of a line. -/
def nodeOfFields (tcpHost : Bytes) (part : List Bytes) (role : Role) :
    Except Complaint Node :=
  let field := stripCport (part.getD 1 [])
  match strrchr field 58 with
  | none => .error (.other, "server address is incorrect, port separator missing.")
  | some p =>
    let port := hiAtoi ((cstr field).drop (p + 1))
    if port < 1 ∨ 65535 < port then .error (.other, "Invalid port")
    else
      let slots := if role = .master then some [] else none
      if p = 0 then
        .ok { name := some (part.getD 0 []), addr := hostPort tcpHost port, host := tcpHost
              port := toUint16 port, role, slots }
      else
        .ok { name := some (part.getD 0 []), addr := field, host := field.take p
              port := toUint16 port, role, slots }

/-- The node of a line as long as its address has not been read. -/
def unaddressed (part : List Bytes) (role : Role) : Node :=
  { name := some (part.getD 0 []), role, slots := if role = .master then some [] else none }

/-- `node_get_with_nodes`.  A node without an address that can be read is released again. -/
def nodeGetWithNodes (tcpHost : Bytes) (part : List Bytes) (role : Role) :
    Prog ω (Except Complaint (NodeId × Node)) := do
  match nodeOfFields tcpHost part role with
  | .error msg => do
    let n ← newNode (unaddressed part role)
    freeRedisClusterNode n
    pure (.error msg)
  | .ok node => do
    let n ← newNode node
    pure (.ok (n, node))

/-- What the scan of CLUSTER NODES has collected. -/
structure NodesScan where
  nodes : NodeDict := HashTable.empty
  /-- Nodes by the name of their master, when replicas are parsed. -/
  nodesName : NodeDict := HashTable.empty
  slotRangesFound : ℕ := 0

/-- `cluster_master_slave_mapping_with_name`. -/
def clusterMasterSlaveMappingWithName (nodesName : NodeDict) (n : NodeId) (masterName : Bytes) :
    Prog ω (Except Complaint NodeDict) := do
  let w ← get
  match nodesName.find masterName with
  | none =>
    match nodesName.add masterName n with
    | none => pure (.error (.oom, "Out of memory"))
    | some nodesName' => pure (.ok nodesName')
  | some old =>
    match (w.heap n).role, (w.heap old).role with
    | .master, .master => pure (.error (.other, "two masters have the same name"))
    | .master, _ => do
      -- the replicas collected so far move over, the first of them in front
      let slaves := (w.heap n).slaves.getD []
      let moved := ((w.heap old).slaves.getD []).reverse ++ slaves
      modifyNode old fun node => { node with slaves := none }
      modifyNode n fun node => { node with slaves := some (old :: moved) }
      pure (.ok (nodesName.setVal masterName n))
    | _, _ => do
      addSlave old n
      pure (.ok nodesName)

/-- A migrating or importing marker `[slot->-node]` or `[slot-<-node]`. -/
def openSlot (tok : List Bytes) : Option OpenSlot :=
  match tok with
  | [a, [dir], b] =>
    if a.length > 1 ∧ b.length > 1 ∧ a.head? = some 91 ∧ b.getLast? = some 93 then
      if dir = 62 then some ⟨toUint32 (hiAtoi (a.drop 1)), true, b.dropLast⟩
      else if dir = 60 then some ⟨toUint32 (hiAtoi (a.drop 1)), false, b.dropLast⟩
      else none
    else none
  | _ => none

/-- Remember an open slot of a master. -/
def addOpenSlot (master : NodeId) (o : OpenSlot) : Prog ω Unit :=
  modifyNode master fun node =>
    if o.migrate then { node with migrating := node.migrating ++ [o] }
    else { node with importing := node.importing ++ [o] }

/-- The bounds a slot field denotes, `-1` where it denotes none. -/
def slotBounds (tok : List Bytes) : ℤ × ℤ :=
  match tok with
  | [a] => (hiAtoi a, hiAtoi a)
  | [a, b] => (hiAtoi a, hiAtoi b)
  | _ => (-1, -1)

/-- The slot fields of a master line; the number of ranges accepted. -/
def parseSlotFields (master : NodeId) : List Bytes → Prog ω ℕ
  | [] => pure 0
  | field :: rest => do
    let w ← get
    let tok := sdssplitlen field 45
    match (if w.cc.addOpenslot then openSlot tok else none) with
    | some o => do
      addOpenSlot master o
      parseSlotFields master rest
    | none =>
      let b := slotBounds tok
      if b.1 < 0 ∨ b.2 < 0 ∨ b.2 < b.1 ∨ redisClusterSlots ≤ b.2.toNat then
        parseSlotFields master rest
      else do
        addSlotRange master ⟨b.1.toNat, b.2.toNat⟩
        let k ← parseSlotFields master rest
        pure (k + 1)

/-- Register a node by name when replicas are parsed.  A failure releases the
node, which a master's dictionary still holds. -/
def mapWithName (scan : NodesScan) (n : NodeId) (masterName : Bytes) :
    Prog ω (NodesScan × Option Complaint) := do
  match ← clusterMasterSlaveMappingWithName scan.nodesName n masterName with
  | .error msg => do
    freeRedisClusterNode n
    pure (scan, some msg)
  | .ok nodesName => pure ({ scan with nodesName }, none)

/-- A master line. -/
def parseMasterLine (tcpHost : Bytes) (scan : NodesScan) (part : List Bytes) :
    Prog ω (NodesScan × Option Complaint) := do
  match ← nodeGetWithNodes tcpHost part .master with
  | .error msg => pure (scan, some msg)
  | .ok (master, node) => do
    match scan.nodes.add node.addr master with
    | none => do
      freeRedisClusterNode master
      pure (scan, some (.other, "The address already exists in the nodes"))
    | some nodes => do
      let w ← get
      if w.cc.addSlave then do
        match ← mapWithName { scan with nodes } master (part.getD 0 []) with
        | (scan', some msg) => pure (scan', some msg)
        | (scan', none) => do
          let k ← parseSlotFields master (part.drop 8)
          pure ({ scan' with slotRangesFound := scan'.slotRangesFound + k }, none)
      else do
        let k ← parseSlotFields master (part.drop 8)
        pure ({ scan with nodes, slotRangesFound := scan.slotRangesFound + k }, none)

/-- A replica line, when replicas are parsed. -/
def parseSlaveLine (tcpHost : Bytes) (scan : NodesScan) (part : List Bytes) :
    Prog ω (NodesScan × Option Complaint) := do
  match ← nodeGetWithNodes tcpHost part .slave with
  | .error msg => pure (scan, some msg)
  | .ok (slave, _) => mapWithName scan slave (part.getD 3 [])

/-- The role field without a leading `myself,`. -/
def roleField (field : Bytes) : Bytes :=
  if (ascii "myself,").isPrefixOf field then field.drop 7 else field

/-- One line of CLUSTER NODES. -/
def parseNodesLine (tcpHost : Bytes) (scan : NodesScan) (line : Bytes) :
    Prog ω (NodesScan × Option Complaint) := do
  let w ← get
  let part := sdssplitlen line 32
  let role := roleField (part.getD 2 [])
  if part.length < 8 then pure (scan, some (.other, "split cluster nodes error"))
  else if (ascii ":0").isPrefixOf (part.getD 1 []) then pure (scan, none)
  else if (ascii "master").isPrefixOf role then parseMasterLine tcpHost scan part
  else if w.cc.addSlave ∧ (ascii "slave").isPrefixOf role then parseSlaveLine tcpHost scan part
  else pure (scan, none)

/-- All lines, up to the first that does not parse. -/
def parseNodesLines (tcpHost : Bytes) (scan : NodesScan) :
    List Bytes → Prog ω (NodesScan × Option Complaint)
  | [] => pure (scan, none)
  | line :: rest => do
    match ← parseNodesLine tcpHost scan line with
    | (scan', some msg) => pure (scan', some msg)
    | (scan', none) => parseNodesLines tcpHost scan' rest

/-- `parse_cluster_nodes`. -/
def parseClusterNodes (tcpHost : Bytes) (reply : Reply) : Prog ω (Option NodeDict) := do
  match ← parseNodesLines tcpHost {} (nodesLines [] false reply.text) with
  | (scan, some msg) => parseFailed scan.nodes msg
  | (scan, none) =>
    if scan.slotRangesFound = 0 then parseFailed scan.nodes (.other, "No slot information")
    else pure (some scan.nodes)
