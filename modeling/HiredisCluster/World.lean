/-
# The cluster client's state

The records of `hircluster.h` and `command.h` (`redisClusterNode`,
`redisClusterContext`, `redisClusterAsyncContext`, `struct cmd`), the part of a
hiredis connection the client relies on, and the `World` that holds them all.

* Node objects live in a heap and are named by the order of their creation, so
  that a pointer to a released node is still a name, and no other node's.
* A blocking connection is a FIFO of the commands written to it whose replies
  have not been read.
* hiredis and the servers behind it are the environment `ω` of a `World ω`; the
  interface is in `Hiredis.lean`.
* `trace` is a history of what happened, which no routine reads.

Memory allocated by the library itself is assumed to be available: the
out-of-memory branches of its own allocations are left out.
-/
import HiredisCluster.Text
import HiredisCluster.Lib.HashTable
import Mathlib.Logic.Function.Basic

/-! ## Errors, replies, commands -/

/-- The values of `err`, `0` being `none` where it is allowed. -/
inductive Err where
  | io | other | eof | protocol | oom | timeout
  /-- `REDIS_ERR_CLUSTER_TOO_MANY_RETRIES` -/
  | tooManyRetries
  deriving DecidableEq, Repr

/-- The text of `errstr`: a literal of the source, or bytes received. -/
inductive ErrText where
  | lit (s : String)
  | bytes (b : Bytes)
  deriving DecidableEq, Repr

/-- Received text as it is copied into the 128 bytes of `errstr`. -/
def ErrText.ofBytes (b : Bytes) : ErrText := .bytes ((cstr b).take 127)

/-- The `err` (never zero) and `errstr` a failing hiredis call leaves behind. -/
structure Fault where
  code : Err
  str : Bytes
  deriving DecidableEq, Repr

/-- `REDIS_OK` and `REDIS_ERR`. -/
inductive Status where
  | ok | err
  deriving DecidableEq, Repr

/-- A `redisReply`; `other` stands for the types the library never looks at. -/
inductive Reply where
  | string (str : Bytes)
  | status (str : Bytes)
  | error (str : Bytes)
  | integer (n : ℤ)
  | array (elems : List Reply)
  | nil
  | other (type : ℕ)
  deriving Repr, Inhabited

/-- The command types that the library distinguishes. -/
inductive CmdType where
  | unknown
  | mget | mset | del | exists | xread | xreadgroup | migrate
  /-- Any other row of the command table. -/
  | row (i : ℕ)
  deriving DecidableEq, Repr

/-- `struct keypos`: a key as offsets into the command buffer; for a command of
key-value pairs also the length of what follows up to the next pair. -/
structure KeyPos where
  start : ℕ
  stop : ℕ
  remainLen : ℕ := 0
  deriving DecidableEq, Repr

/-- The fields of `struct cmd` that every command has.  `slotNum` is `-1` for a
command that is not bound to one slot. -/
structure Cmd where
  id : ℕ
  type : CmdType := .unknown
  cmd : Bytes := []
  keys : List KeyPos := []
  narg : ℕ := 0
  slotNum : ℤ := -1
  deriving DecidableEq, Repr

/-- A command of the pipeline's request list.  `subCommands` holds the fragments
of a multi-slot command and `fragSeq` the slot of the fragment of each key. -/
structure Request extends Cmd where
  nodeAddr : Option Bytes := none
  fragSeq : List ℤ := []
  subCommands : Option (List Cmd) := none
  deriving DecidableEq, Repr

/-! ## Connections -/

/-- Node objects, blocking and asynchronous connections are named by the order
of their creation. -/
abbrev NodeId := ℕ

abbrev ConnId := ℕ

abbrev AConnId := ℕ

/-- What can be written to a connection: a command of the user (with the `id` of
its `struct cmd`), or one of the client's own. -/
inductive Sent where
  | command (id : ℕ) (bytes : Bytes)
  | asking
  | clusterSlots
  | clusterNodes
  | auth (username : Option Bytes) (password : Bytes)
  deriving DecidableEq, Repr

/-- A command of the user. -/
def Sent.isCommand : Sent → Bool
  | .command _ _ => true
  | _ => false

/-- A reply together with the command it answers. -/
structure Answer where
  answers : Sent
  reply : Reply

/-- The part of a blocking `redisContext` the client relies on. -/
structure Conn where
  host : Bytes := []
  port : ℕ := 0
  err : Option Fault := none
  /-- Commands written whose reply has not been read, oldest first. -/
  queue : List Sent := []
  /-- `redisFree` has not been called. -/
  alive : Bool := false
  deriving DecidableEq

/-- The part of a `redisAsyncContext` the client relies on. -/
structure AConn where
  host : Bytes := []
  port : ℕ := 0
  err : Option Fault := none
  connected : Bool := false
  disconnecting : Bool := false
  freeing : Bool := false
  data : Option NodeId := none
  alive : Bool := false
  deriving DecidableEq

/-! ## Nodes and contexts -/

inductive Role where
  | null | master | slave
  deriving DecidableEq, Repr

/-- `cluster_slot`: a range of slots, bounds included. -/
structure SlotRange where
  start : ℕ
  stop : ℕ
  deriving DecidableEq, Repr

/-- `copen_slot`: a slot being migrated or imported. -/
structure OpenSlot where
  slotNum : ℕ
  migrate : Bool
  remoteName : Bytes
  deriving DecidableEq, Repr

/-- `redisClusterNode`.  `slots` and `slaves` are `none` while the list has not
been created. -/
structure Node where
  name : Option Bytes := none
  addr : Bytes := []
  host : Bytes := []
  port : ℕ := 0
  role : Role := .null
  con : Option ConnId := none
  acon : Option AConnId := none
  lastConnectionAttempt : ℤ := 0
  slots : Option (List SlotRange) := none
  slaves : Option (List NodeId) := none
  migrating : List OpenSlot := []
  importing : List OpenSlot := []
  deriving DecidableEq, Inhabited

/-- A dictionary from addresses (or names) to node objects. -/
abbrev NodeDict := HashTable Bytes NodeId dictGenHashFunction

/-- The slot table `cc->table`: `REDIS_CLUSTER_SLOTS` entries. -/
abbrev SlotTable := ℕ → Option NodeId

/-- `redisClusterContext`. -/
structure Context where
  err : Option Err := none
  errstr : ErrText := .lit ""
  addSlave : Bool := false
  addOpenslot : Bool := false
  routeUseSlots : Bool := false
  shutdown : Bool := false
  maxRetryCount : ℤ := 5
  username : Option Bytes := none
  password : Option Bytes := none
  nodes : Option NodeDict := none
  routeVersion : ℕ := 0
  table : Option SlotTable := none
  requests : Option (List Request) := none
  retryCount : ℤ := 0
  needUpdateRoute : Bool := false
  ssl : Bool := false

/-- What ends the process: a `NULL` function is called or a command is submitted to a
`NULL` connection for a `cluster_async_data`, or the index of a node is taken modulo
the size of an empty dictionary. -/
inductive Fatal where
  | nullCallback (cad : ℕ)
  | nullConnection (cad : ℕ)
  | emptyNodes
  deriving DecidableEq, Repr

/-- The callback registered with an asynchronous submission: none at all (`AUTH`
and `ASKING`), `clusterSlotsReplyCallback` or `clusterNodesReplyCallback`, or
`redisClusterAsyncCallback` with its `cluster_async_data`. -/
inductive ACallback where
  | null
  | topology (useSlots : Bool)
  | user (cad : ℕ)
  deriving DecidableEq, Repr

/-- `redisClusterAsyncContext`.  The last four fields are history: the commands that
were accepted, everything that was handed to hiredis with the outcome, the user callbacks
that were called with their replies, and what has ended the process. -/
structure AsyncContext where
  err : Option Err := none
  errstr : ErrText := .lit ""
  lastSlotmapUpdateAttempt : ℤ := 0
  adapter : Bool := false
  accepted : List ℕ := []
  handed : List (ACallback × Status) := []
  called : List (ℕ × Option Reply) := []
  fatal : Option Fatal := none

/-- `cluster_async_data`; `callback` is the user's function pointer, possibly
`NULL`. -/
structure AsyncData where
  command : Cmd := { id := 0 }
  callback : Option ℕ := none
  retryCount : ℤ := 0

/-! ## History -/

/-- What a user callback can see of the routing state. -/
structure View where
  nodes : Option NodeDict
  table : Option SlotTable
  addrOf : NodeId → Bytes

/-- Entries of the history. -/
inductive Event where
  /-- A command was accepted by the connection's output buffer. -/
  | wrote (c : ConnId) (q : Sent)
  /-- A reply was read while waiting for the answer to `awaited`; it answers
  `answered`. -/
  | read (c : ConnId) (awaited answered : Sent) (reply : Reply)
  /-- The command loop asked for the connection of node `n`, which is `known` if
  it is in `cc->nodes`. -/
  | lookup (n : NodeId) (known : Bool)
  /-- The deferred topology reply is awaited on `c`, which is `held` if it is the
  connection of a node in `cc->nodes`. -/
  | deferred (c : ConnId) (held : Bool)
  /-- A redirect let `cc->table[slot]` be `n`; the index may lie outside the table. -/
  | stored (slot : ℤ) (n : NodeId)
  | closed (c : ConnId)
  | released (n : NodeId)
  /-- User code was called. -/
  | callback (v : View)

/-! ## The world -/

/-- The state of a client and of its environment. -/
structure World (ω : Type) where
  env : ω
  cc : Context := {}
  heap : NodeId → Node := fun _ => {}
  nextNode : ℕ := 0
  conns : ConnId → Conn := fun _ => {}
  nextConn : ℕ := 0
  acc : AsyncContext := {}
  aconns : AConnId → AConn := fun _ => {}
  nextAConn : ℕ := 0
  /-- Callbacks accepted by hiredis and not yet run, in submission order. -/
  inflight : List (AConnId × ACallback) := []
  cads : ℕ → AsyncData := fun _ => {}
  nextCad : ℕ := 0
  /-- The asynchronous connections of released nodes: hiredis frees them one after
  the other, running their pending callbacks. -/
  closing : List AConnId := []
  cmdId : ℕ := 0
  trace : List Event := []

/-- A routine of the library. -/
abbrev Prog (ω : Type) := StateM (World ω)

namespace World

variable {ω : Type} (w : World ω)

/-- The nodes in `cc->nodes`, in iteration order. -/
def nodeList : List NodeId := (w.cc.nodes.map HashTable.vals).getD []

/-- Node `n` is in `cc->nodes`. -/
def Known (n : NodeId) : Prop := n ∈ w.nodeList

instance (n : NodeId) : Decidable (w.Known n) := inferInstanceAs (Decidable (n ∈ w.nodeList))

/-- Connection `c` belongs to a node in `cc->nodes`. -/
def Held (c : ConnId) : Prop := ∃ n ∈ w.nodeList, (w.heap n).con = some c

instance (c : ConnId) : Decidable (w.Held c) :=
  inferInstanceAs (Decidable (∃ n ∈ w.nodeList, (w.heap n).con = some c))

/-- The routing state as a user callback sees it. -/
def view : View := ⟨w.cc.nodes, w.cc.table, fun n => (w.heap n).addr⟩

end World
