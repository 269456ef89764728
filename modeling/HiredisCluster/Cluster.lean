/-
# Splitting a command keeps its meaning

A cluster is a number of stores, one per node, and every slot is served by one node.  The
commands that are split act on one key after the other, so it makes no difference whether
they run as a whole on one store or fragment by fragment on the stores of the nodes: the
reply and the contents of the key space come out the same.

The servers are not part of the library.  What they do with MGET, DEL, EXISTS and MSET
is stated here (`serve`), and `Hiredis.Healthy` says that the environment of the client
is a cluster of such servers that answers without redirects or failures.
-/
import HiredisCluster.Blocking
import HiredisCluster.Encoding
import HiredisCluster.Splitting
import HiredisCluster.Lib.Pointwise

open Program

variable {ω : Type}

/-! ## A server -/

/-- A value in a store: a string, or an object of another kind. -/
inductive Value where
  | string (s : Bytes)
  | other (kind : ℕ)
  deriving DecidableEq

/-- The contents of a server. -/
abbrev Store := Bytes → Option Value

/-- A key, and the value that MSET gives to it. -/
abbrev Item := Bytes × Bytes

/-- The arguments of MSET after the name, in pairs. -/
def pairs : List Bytes → List Item
  | k :: v :: rest => (k, v) :: pairs rest
  | _ => []

/-- The arguments after the name, key by key. -/
def items (type : CmdType) (args : List Bytes) : List Item :=
  if type = .mset then pairs args else args.map fun k => (k, [])

/-- What a command does with one key, and its part of the answer. -/
def itemOp (type : CmdType) (i : Item) (old : Option Value) : Reply × Option Value :=
  match type with
  | .mget => (match old with | some (.string s) => .string s | _ => .nil, old)
  | .del => (.integer (if old.isSome then 1 else 0), none)
  | .exists => (.integer (if old.isSome then 1 else 0), old)
  | .mset => (.status (ascii "OK"), some (.string i.2))
  | _ => (.nil, old)

/-- The answer to a command from the answers for its keys. -/
def answer (type : CmdType) (outs : List Reply) : Reply :=
  match type with
  | .mget => .array outs
  | .mset => .status (ascii "OK")
  | _ => .integer (outs.map Reply.count).sum

/-- A command runs through its keys. -/
def serveItems (type : CmdType) (is : List Item) (s : Store) : Reply × Store :=
  let r := Pointwise.run Prod.fst (itemOp type) is s
  (answer type r.1, r.2)

/-- The command that a name stands for. -/
def namedType (name : Bytes) : Option CmdType :=
  if toUpper name = ascii "MGET" then some .mget
  else if toUpper name = ascii "DEL" then some .del
  else if toUpper name = ascii "EXISTS" then some .exists
  else if toUpper name = ascii "MSET" then some .mset
  else none

/-- The command has keys, and MSET a value for each. -/
def wellFormed (type : CmdType) (args : List Bytes) : Bool :=
  args ≠ [] && (type ≠ .mset || args.length % 2 = 0)

/-- A well-formed command has keys. -/
theorem items_ne_nil {type : CmdType} {args : List Bytes} (h : wellFormed type args = true) :
    items type args ≠ [] := by
  simp only [wellFormed, Bool.and_eq_true, decide_eq_true_eq, Bool.or_eq_true] at h
  obtain ⟨hne, heven⟩ := h
  unfold items
  rcases args with _ | ⟨k, _ | ⟨v, rest⟩⟩
  · exact absurd rfl hne
  · by_cases hmset : type = .mset
    · simp [hmset] at heven
    · simp [hmset]
  · split
    · exact List.cons_ne_nil _ _
    · exact List.cons_ne_nil _ _

/-- The command is one of the four, with arguments that it takes. -/
def Proper (argv : List Bytes) : Prop :=
  ∃ name args type, argv = name :: args ∧ namedType name = some type ∧ wellFormed type args = true

/-- A server executes a command. -/
def serve (argv : List Bytes) (s : Store) : Reply × Store :=
  match argv with
  | [] => (.error (ascii "ERR"), s)
  | name :: args =>
    match namedType name with
    | none => (.error (ascii "ERR unknown command"), s)
    | some type =>
      if wellFormed type args then serveItems type (items type args) s
      else (.error (ascii "ERR wrong number of arguments"), s)

/-- The arguments of a command as a server reads them. -/
def decodeArgs (buf : Bytes) : ℕ → Cursor → Option (List Bytes)
  | 0, c => if c.rest = [] then some [] else none
  | n + 1, c =>
    match redisParseBulk c with
    | .error _ => none
    | .ok (arg, c) => (decodeArgs buf n c).map (arg.bytes buf :: ·)

/-- A command as a server reads it. -/
def decodeCommand (buf : Bytes) : Option (List Bytes) :=
  match parseHeader buf with
  | none => none
  | some (n, c) => decodeArgs buf n c

theorem decodeArgs_ahead {buf : Bytes} (args : List Bytes) : ∀ {c : Cursor}, Ahead buf c args →
    decodeArgs buf args.length c = some args := by
  induction args with
  | nil =>
    intro c hc
    have hrest : c.rest = [] := hc.rest
    rw [List.length_nil, decodeArgs, if_pos hrest]
  | cons a args ih =>
    intro c hc
    obtain ⟨arg, c', hbulk, ha, hc'⟩ := hc.bulk_cons
    rw [List.length_cons, decodeArgs, hbulk]
    dsimp only
    rw [ih hc', ha.bytes]
    rfl

/-- What the client formats is read back. -/
theorem decodeCommand_encodeCommand {argv : List Bytes} (hne : argv ≠ [])
    (hlen : (encodeCommand argv).length < 2 ^ 31) : decodeCommand (encodeCommand argv) = some argv := by
  obtain ⟨c, hhead, hc⟩ := parseHeader_encode hne hlen
  rw [decodeCommand, hhead]
  exact decodeArgs_ahead argv hc

/-! ## A cluster -/

/-- A cluster: the contents of the nodes, by host and port, in a state of the environment,
and the node that serves a slot. -/
structure Cluster (ω : Type) where
  store : ω → Bytes × ℕ → Store
  owner : ℕ → Bytes × ℕ

namespace Cluster

/-- The combined key space: each key is where its slot is served. -/
def contents (C : Cluster ω) (env : ω) : Store :=
  fun k => C.store env (C.owner (keyHashSlot k)) k

/-- Every key of a command belongs to a node. -/
def Owns (C : Cluster ω) (node : Bytes × ℕ) (argv : List Bytes) : Prop :=
  ∀ name args type, argv = name :: args → namedType name = some type →
    ∀ i ∈ items type args, C.owner (keyHashSlot i.1) = node

end Cluster

/-- The other end of a connection, as an address. -/
def Peer.addr (p : Peer) : Bytes × ℕ := (p.host, p.port)

/-- **The environment is a cluster** that answers without redirects or failures, and that
no other client changes: connections can be made and written to, and a node answers each
MGET, DEL, EXISTS or MSET about keys of its own from its store. -/
structure Hiredis.Healthy (H : Hiredis ω) (C : Cluster ω) : Prop where
  connect : ∀ env host port, (H.connect env host port).1 = .ok ∧
    C.store (H.connect env host port).2 = C.store env
  reconnect : ∀ env p, (H.reconnect env p).1 = none ∧ C.store (H.reconnect env p).2 = C.store env
  initSsl : ∀ env p, (H.initSsl env p).1 = none ∧ C.store (H.initSsl env p).2 = C.store env
  append : ∀ env p q, (H.append env p q).1 = none ∧ C.store (H.append env p q).2 = C.store env
  auth : ∀ env p user pw, ∃ r, (H.reply env p (.auth user pw)).1 = .ok r ∧ r.isError = false ∧
    C.store (H.reply env p (.auth user pw)).2 = C.store env
  command : ∀ env p id bytes argv, decodeCommand bytes = some argv → Proper argv →
    C.Owns p.addr argv →
    (H.reply env p (.command id bytes)).1 = .ok (serve argv (C.store env p.addr)).1 ∧
    C.store (H.reply env p (.command id bytes)).2 =
      Function.update (C.store env) p.addr (serve argv (C.store env p.addr)).2

/-! ## A client of the cluster -/

/-- Connection `c` leads to `node` and owes nothing, if it can be used at all. -/
structure LeadsTo (node : Bytes × ℕ) (c : ConnId) (w : World ω) : Prop where
  lt : c < w.nextConn
  host : ((w.conns c).host, (w.conns c).port) = node
  idle : Idle c w

/-- The slot map of the client is that of the cluster, and no update of it is scheduled. -/
structure InTouch (C : Cluster ω) (w : World ω) : Prop where
  current : w.cc.needUpdateRoute = false
  route : ∀ slot < redisClusterSlots, ∃ t n, w.cc.table = some t ∧ t slot = some n ∧
    ((w.heap n).host, (w.heap n).port) = C.owner slot ∧
    ((w.heap n).con = none → (w.heap n).port ≠ 0) ∧
    ∀ c, (w.heap n).con = some c → LeadsTo (C.owner slot) c w

/-- Nothing the client relies on has changed, and nothing in the stores. -/
structure Undisturbed (C : Cluster ω) (w w' : World ω) : Prop where
  store : C.store w'.env = C.store w.env
  conns : w'.conns = w.conns
  nextConn : w'.nextConn = w.nextConn
  heap : w'.heap = w.heap
  table : w'.cc.table = w.cc.table
  needUpdateRoute : w'.cc.needUpdateRoute = w.cc.needUpdateRoute

theorem Undisturbed.refl (C : Cluster ω) (w : World ω) : Undisturbed C w w := ⟨rfl, rfl, rfl, rfl, rfl, rfl⟩

theorem Undisturbed.trans {C : Cluster ω} {w w' w'' : World ω} (h : Undisturbed C w w') (h' : Undisturbed C w' w'') :
    Undisturbed C w w'' :=
  ⟨h'.store.trans h.store, h'.conns.trans h.conns, h'.nextConn.trans h.nextConn,
    h'.heap.trans h.heap, h'.table.trans h.table, h'.needUpdateRoute.trans h.needUpdateRoute⟩

/-- What a state looks like but for the stores carries over. -/
theorem InTouch.of_same {C : Cluster ω} {w w' : World ω} (h : InTouch C w) (hconns : w'.conns = w.conns)
    (hnext : w'.nextConn = w.nextConn) (hheap : w'.heap = w.heap) (htable : w'.cc.table = w.cc.table)
    (hneed : w'.cc.needUpdateRoute = w.cc.needUpdateRoute) : InTouch C w' := by
  refine ⟨hneed.trans h.current, fun slot hslot => ?_⟩
  obtain ⟨t, n, ht, hn, hnode, hport, hcon⟩ := h.route slot hslot
  rw [hheap, htable]
  refine ⟨t, n, ht, hn, hnode, hport, fun c hc => ?_⟩
  obtain ⟨hlt, hhost, hidle⟩ := hcon c hc
  exact ⟨hnext ▸ hlt, by rw [hconns]; exact hhost, hidle.of_conns (by rw [hconns])⟩

theorem InTouch.undisturbed {C : Cluster ω} {w w' : World ω} (h : InTouch C w) (ha : Undisturbed C w w') :
    InTouch C w' :=
  h.of_same ha.conns ha.nextConn ha.heap ha.table ha.needUpdateRoute

section Healthy

variable {H : Hiredis ω} {C : Cluster ω} (hH : H.Healthy C)

/-- A connection that has just been set up, or is ready for the next command. -/
def Ready (c : ConnId) (w : World ω) : Prop := (w.conns c).err = none ∧ (w.conns c).queue = []

/-- The connection with one more command. -/
def World.pushed (w : World ω) (c : ConnId) (q : Sent) : ConnId → Conn :=
  Function.update w.conns c { w.conns c with queue := (w.conns c).queue ++ [q] }

include hH in
theorem redisAppendCommand_healthy (c : ConnId) (q : Sent) (w : World ω) :
    wp (redisAppendCommand H c q) (fun s w' => s = .ok ∧ C.store w'.env = C.store w.env ∧
      w'.conns = w.pushed c q ∧ w'.nextConn = w.nextConn ∧ w'.heap = w.heap ∧ w'.cc = w.cc) w := by
  unfold redisAppendCommand
  rw [wp_bind, wp_get, wp_bind, wp_ask, (hH.append w.env (w.peer c) q).1]
  exact ⟨rfl, (hH.append w.env (w.peer c) q).2, rfl, rfl, rfl, rfl⟩

/-- The reply to the one command that is due. -/
theorem redisGetReply_due {c : ConnId} {q q' : Sent} {w : World ω} {r : Reply}
    (herr : (w.conns c).err = none) (hqueue : (w.conns c).queue = [q'])
    (hr : (H.reply w.env (w.peer c) q').1 = .ok r) :
    wp (redisGetReply H c q) (fun a w' => a = some ⟨q', r⟩ ∧
      w'.env = (H.reply w.env (w.peer c) q').2 ∧
      w'.conns = Function.update w.conns c { w.conns c with queue := [] } ∧
      w'.nextConn = w.nextConn ∧ w'.heap = w.heap ∧ w'.cc = w.cc) w := by
  unfold redisGetReply
  rw [wp_bind, wp_get, herr, if_neg (by simp), hqueue]
  dsimp only
  rw [wp_bind, wp_ask, hr]
  exact ⟨rfl, rfl, rfl, rfl, rfl, rfl⟩

/-- A command that is sent and answered leaves the connection as it was. -/
theorem pushed_popped {c : ConnId} {w : World ω} (h : Ready c w) (q : Sent) :
    Function.update (w.pushed c q) c { w.pushed c q c with queue := [] } = w.conns := by
  unfold World.pushed
  rw [Function.update_idem, Function.update_self]
  have heta : ({ w.conns c with queue := [] } : Conn) = w.conns c := by
    rw [← h.2]
  exact (congrArg (Function.update w.conns c) heta).trans (Function.update_eq_self c w.conns)

theorem pushed_ready {c : ConnId} {w : World ω} (h : Ready c w) (q : Sent) :
    (w.pushed c q c).err = none ∧ (w.pushed c q c).queue = [q] := by
  rw [World.pushed, Function.update_self]
  exact ⟨h.1, by rw [h.2]; rfl⟩

include hH in
/-- Authentication succeeds, if it is needed. -/
theorem authenticate_healthy {c : ConnId} {w : World ω} (hc : Ready c w) :
    wp (authenticate H c) (fun s w' => s = .ok ∧ Undisturbed C w w') w := by
  unfold authenticate
  rw [wp_bind, wp_get]
  split
  · exact ⟨rfl, Undisturbed.refl C w⟩
  · rename_i pw _
    unfold redisCommand
    rw [wp_bind, wp_bind]
    refine wp_mono (redisAppendCommand_healthy hH c _ w) ?_
    rintro _ w₁ ⟨rfl, hstore, hconns, hnext, hheap, hcc⟩
    dsimp only
    have hready := pushed_ready hc (.auth w.cc.username pw)
    rw [← hconns] at hready
    obtain ⟨r, hr, hnoerr, hkeep⟩ := hH.auth w₁.env (w₁.peer c) w.cc.username pw
    refine wp_mono (redisGetReply_due hready.1 hready.2 hr) ?_
    rintro _ w₂ ⟨rfl, henv, hconns', hnext', hheap', hcc'⟩
    have hsame : Undisturbed C w w₂ := by
      refine ⟨by rw [henv, hkeep, hstore], ?_, hnext'.trans hnext, hheap'.trans hheap,
        by rw [hcc', hcc], by rw [hcc', hcc]⟩
      rw [hconns', hconns]
      exact pushed_popped hc _
    dsimp only
    cases r with
    | error str => cases hnoerr
    | _ => exact ⟨rfl, hsame⟩

include hH in
/-- So does the TLS handshake. -/
theorem startTls_healthy (c : ConnId) (w : World ω) :
    wp (startTls H c) (fun s w' => s = .ok ∧ Undisturbed C w w') w := by
  unfold startTls
  rw [wp_bind, wp_get]
  split
  · unfold sslInitFn
    rw [wp_bind, wp_bind, wp_get, wp_bind, wp_ask, (hH.initSsl w.env (w.peer c)).1]
    exact ⟨rfl, (hH.initSsl w.env (w.peer c)).2, rfl, rfl, rfl, rfl, rfl⟩
  · exact ⟨rfl, Undisturbed.refl C w⟩

/-- A connection that stays with its node and owes nothing. -/
theorem InTouch.setConn {w w' : World ω} (h : InTouch C w) {c : ConnId} {conn : Conn}
    (hconns : w'.conns = Function.update w.conns c conn)
    (hhost : (conn.host, conn.port) = ((w.conns c).host, (w.conns c).port)) (hqueue : conn.queue = [])
    (hnext : w'.nextConn = w.nextConn) (hheap : w'.heap = w.heap) (hcc : w'.cc = w.cc) :
    InTouch C w' := by
  refine ⟨hcc ▸ h.current, fun slot hslot => ?_⟩
  obtain ⟨t, n, ht, hn, hnode, hport, hcon⟩ := h.route slot hslot
  rw [hheap, hcc]
  refine ⟨t, n, ht, hn, hnode, hport, fun c' hc' => ?_⟩
  obtain ⟨hlt, hold, hidle⟩ := hcon c' hc'
  rcases eq_or_ne c' c with rfl | hne
  · have hself : w'.conns c' = conn := by rw [hconns, Function.update_self]
    exact ⟨hnext ▸ hlt, by rw [hself, hhost, hold], fun _ => by rw [hself, hqueue]⟩
  · have hother : w'.conns c' = w.conns c' := by rw [hconns, Function.update_of_ne hne]
    exact ⟨hnext ▸ hlt, by rw [hother, hold], hidle.of_conns hother⟩

/-- A node gets its first connection. -/
theorem InTouch.link {w w' : World ω} (h : InTouch C w) {n : NodeId} {conn : Conn}
    (hconns : w'.conns = Function.update w.conns w.nextConn conn)
    (hhost : (conn.host, conn.port) = ((w.heap n).host, (w.heap n).port)) (hqueue : conn.queue = [])
    (hnext : w'.nextConn = w.nextConn + 1)
    (hheap : w'.heap = Function.update w.heap n { w.heap n with con := some w.nextConn })
    (htable : w'.cc.table = w.cc.table)
    (hneed : w'.cc.needUpdateRoute = w.cc.needUpdateRoute) : InTouch C w' := by
  refine ⟨hneed.trans h.current, fun slot hslot => ?_⟩
  obtain ⟨t, m, ht, hm, hnode, hport, hcon⟩ := h.route slot hslot
  rw [htable]
  have hself : w'.conns w.nextConn = conn := by rw [hconns, Function.update_self]
  rcases eq_or_ne m n with rfl | hne
  · refine ⟨t, m, ht, hm, ?_⟩
    rw [hheap, Function.update_self]
    refine ⟨hnode, fun h => (by cases h), ?_⟩
    rintro _ ⟨⟩
    exact ⟨by rw [hnext]; exact Nat.lt_succ_self _, by rw [hself, hhost, hnode],
      fun _ => by rw [hself, hqueue]⟩
  · refine ⟨t, m, ht, hm, ?_⟩
    rw [hheap, Function.update_of_ne hne]
    refine ⟨hnode, hport, fun c hc => ?_⟩
    obtain ⟨hlt, hold, hidle⟩ := hcon c hc
    have hother : w'.conns c = w.conns c := by
      rw [hconns, Function.update_of_ne (Nat.ne_of_lt hlt)]
    exact ⟨by rw [hnext]; exact Nat.lt_succ_of_lt hlt, by rw [hother, hold], hidle.of_conns hother⟩

/-- What the command loop gets: a connection to the node, ready for a command. -/
def Reached (C : Cluster ω) (node : Bytes × ℕ) (w : World ω) (r : Option ConnId) (w' : World ω) :
    Prop :=
  ∃ c, r = some c ∧ InTouch C w' ∧ C.store w'.env = C.store w.env ∧ Ready c w' ∧
    ((w'.conns c).host, (w'.conns c).port) = node

include hH in
theorem redisConnectWithOptions_healthy (host : Bytes) (port : ℕ) (w : World ω) :
    wp (redisConnectWithOptions H host port) (fun r w' => r = some w.nextConn ∧
      C.store w'.env = C.store w.env ∧
      w'.conns = Function.update w.conns w.nextConn { host, port, alive := true } ∧
      w'.nextConn = w.nextConn + 1 ∧ w'.heap = w.heap ∧ w'.cc = w.cc) w := by
  unfold redisConnectWithOptions
  rw [wp_bind, wp_ask, (hH.connect w.env host port).1]
  exact ⟨rfl, (hH.connect w.env host port).2, rfl, rfl, rfl, rfl⟩

include hH in
theorem openNode_healthy {n : NodeId} {w : World ω} (hw : InTouch C w) :
    wp (openNode H n) (Reached C ((w.heap n).host, (w.heap n).port) w) w := by
  unfold openNode
  rw [wp_bind, wp_get, wp_bind]
  refine wp_mono (redisConnectWithOptions_healthy hH _ _ w) ?_
  rintro _ w₁ ⟨rfl, hstore, hconns, hnext, hheap, hcc⟩
  have hself : w₁.conns w.nextConn =
      { host := (w.heap n).host, port := (w.heap n).port, alive := true } := by
    rw [hconns, Function.update_self]
  unfold userHook
  dsimp only
  rw [wp_bind, wp_bind, wp_get, wp_record, wp_bind, wp_get]
  dsimp only
  rw [hself, if_neg (by simp), wp_bind]
  refine wp_mono (startTls_healthy hH w.nextConn _) ?_
  rintro _ w₂ ⟨rfl, h₂⟩
  have hready : Ready w.nextConn w₂ := by
    unfold Ready
    rw [h₂.conns]
    dsimp only
    rw [hself]
    exact ⟨rfl, rfl⟩
  dsimp only
  rw [wp_bind]
  refine wp_mono (authenticate_healthy hH hready) ?_
  rintro _ w₃ ⟨rfl, h₃⟩
  have h₂₃ := h₂.trans h₃
  dsimp only
  have hconns' : w₃.conns = w₁.conns := h₂₃.conns
  have hheap' : w₃.heap = w.heap := h₂₃.heap.trans hheap
  refine ⟨w.nextConn, rfl, hw.link (n := n) (hconns'.trans hconns) rfl rfl
    (h₂₃.nextConn.trans hnext) ?_ ?_ ?_, h₂₃.store.trans hstore, ?_, ?_⟩
  · show Function.update w₃.heap n _ = _
    rw [hheap']
  · exact h₂₃.table.trans (by rw [hcc])
  · exact h₂₃.needUpdateRoute.trans (by rw [hcc])
  · show (w₃.conns _).err = none ∧ (w₃.conns _).queue = []
    rw [hconns', hself]
    exact ⟨rfl, rfl⟩
  · show ((w₃.conns _).host, (w₃.conns _).port) = _
    rw [hconns', hself]

include hH in
theorem reconnectNode_healthy {c : ConnId} {w : World ω} (hw : InTouch C w) :
    wp (reconnectNode H c) (fun _ w' => InTouch C w' ∧ C.store w'.env = C.store w.env ∧
      Ready c w' ∧ ((w'.conns c).host, (w'.conns c).port) =
        ((w.conns c).host, (w.conns c).port)) w := by
  have hreconnect := hH.reconnect w.env (w.peer c)
  unfold reconnectNode redisReconnect userHook
  rw [wp_bind, wp_bind, wp_get, wp_bind, wp_ask, wp_modifyConn, wp_bind, wp_bind, wp_get, wp_record,
    wp_bind, hreconnect.1]
  dsimp only
  set conns' := Function.update w.conns c { w.conns c with err := none, queue := [] } with hconns'
  refine wp_mono (startTls_healthy hH c _) ?_
  rintro _ w₁ ⟨rfl, h₁⟩
  have hself : w₁.conns c = { w.conns c with err := none, queue := [] } := by
    rw [h₁.conns]
    exact Function.update_self _ _ _
  rw [wp_bind]
  refine wp_mono (authenticate_healthy hH ⟨by rw [hself], by rw [hself]⟩) ?_
  rintro _ w₂ ⟨rfl, h₂⟩
  have h := h₁.trans h₂
  have hself' : w₂.conns c = { w.conns c with err := none, queue := [] } := by rw [h₂.conns, hself]
  rw [wp_pure]
  refine ⟨?_, h.store.trans hreconnect.2, ⟨by rw [hself'], by rw [hself']⟩, by rw [hself']⟩
  refine InTouch.undisturbed (w := { w with
    env := (H.reconnect w.env (w.peer c)).2, conns := conns' }) ?_ ⟨h.store, h.conns, h.nextConn,
      h.heap, h.table, h.needUpdateRoute⟩
  exact hw.setConn (c := c) rfl rfl rfl rfl rfl rfl

include hH in
/-- **The connection of the node that serves a slot.** -/
theorem lookupNode_healthy {slot : ℕ} {n : NodeId} {w : World ω} (hw : InTouch C w)
    (hnode : ((w.heap n).host, (w.heap n).port) = C.owner slot)
    (hport : (w.heap n).con = none → (w.heap n).port ≠ 0)
    (hcon : ∀ c, (w.heap n).con = some c → LeadsTo (C.owner slot) c w) :
    wp (lookupNode H n) (Reached C (C.owner slot) w) w := by
  unfold lookupNode ctxGetByNode
  rw [wp_bind, wp_get, wp_bind, wp_record, wp_bind, wp_get]
  set w₀ : World ω := { w with trace := w.trace ++ [.lookup n (decide (w.Known n))] } with hw₀
  have hw₀ : InTouch C w₀ := hw.of_same rfl rfl rfl rfl rfl
  have hsame : (w₀.heap n).con = (w.heap n).con := rfl
  rw [hsame]
  cases hc : (w.heap n).con with
  | none =>
    dsimp only
    rw [if_neg (hport hc), ← hnode]
    exact openNode_healthy hH hw₀
  | some c =>
    obtain ⟨_, hhost, hidle⟩ := hcon c hc
    dsimp only
    split
    · rw [wp_bind]
      refine wp_mono (reconnectNode_healthy hH hw₀) ?_
      rintro _ w₁ ⟨hw₁, hstore, hready, haddr⟩
      exact ⟨c, rfl, hw₁, hstore, hready, haddr.trans hhost⟩
    · rename_i herr
      have hnone : (w.conns c).err = none := by simpa using herr
      exact ⟨c, rfl, hw₀, rfl, ⟨hnone, hidle hnone⟩, hhost⟩

/-! ## The command loop on a healthy cluster -/

/-- The command has been answered from the store of `node`. -/
def ServedBy (C : Cluster ω) (node : Bytes × ℕ) (argv : List Bytes) (w : World ω) (r : Option Answer)
    (w' : World ω) : Prop :=
  ∃ a, r = some a ∧ a.reply = (serve argv (C.store w.env node)).1 ∧ InTouch C w' ∧
    C.store w'.env = Function.update (C.store w.env) node (serve argv (C.store w.env node)).2

/-- The loop goes straight on: the command is sent to the node that serves its slot, and
answered. -/
def Straight (C : Cluster ω) (node : Bytes × ℕ) (argv : List Bytes) (w : World ω)
    (s : Exec × World ω) : Prop :=
  s.1.cUpdatingRoute = none ∧
    match s.1.pc with
    | .retry => InTouch C s.2 ∧ C.store s.2.env = C.store w.env
    | .send c => InTouch C s.2 ∧ C.store s.2.env = C.store w.env ∧ Ready c s.2 ∧
        ((s.2.conns c).host, (s.2.conns c).port) = node
    | .done r => ServedBy C node argv w r s.2
    | .ret r => ServedBy C node argv w r s.2
    | _ => False

/-- Replies that are no redirects end the loop. -/
theorem serve_not_redirect (argv : List Bytes) (s : Store) :
    clusterReplyErrorType (serve argv s).1 = .notErr ∨
      clusterReplyErrorType (serve argv s).1 = .sentinel := by
  unfold serve
  split
  · exact .inr rfl
  · split
    · exact .inr rfl
    · rename_i type _
      split
      · refine .inl ?_
        show clusterReplyErrorType (answer type _) = _
        unfold answer
        split <;> rfl
      · exact .inr rfl

section Loop

variable {slot : ℕ} (hslot : slot < redisClusterSlots) {cmd : Cmd} (hcmd : cmd.slotNum = slot)
  {argv : List Bytes} (hdec : decodeCommand cmd.cmd = some argv) (hproper : Proper argv)
  (howns : C.Owns (C.owner slot) argv) {w : World ω}

include hH hslot hcmd in
theorem execRetry_straight {w₁ : World ω} (hw : InTouch C w₁) (hstore : C.store w₁.env = C.store w.env) :
    Straight C (C.owner slot) argv w (execRetry H cmd none w₁) := by
  obtain ⟨t, n, ht, hn, hnode, hport, hcon⟩ := hw.route slot hslot
  have huint : toUint32 cmd.slotNum = slot := by
    rw [hcmd]
    unfold toUint32
    have : slot < 16384 := hslot
    omega
  show wp (execRetry H cmd none) (fun e w' => Straight C (C.owner slot) argv w (e, w')) w₁
  unfold execRetry nodeGetByTable
  rw [wp_bind, wp_bind, wp_get, huint, if_neg (Nat.not_le.mpr hslot), ht]
  dsimp only
  rw [hn]
  dsimp only
  rw [wp_pure]
  dsimp only
  unfold connectOrUpdate
  rw [wp_bind]
  refine wp_mono (lookupNode_healthy hH hw hnode hport hcon) ?_
  rintro _ w₂ ⟨c, rfl, hw₂, hstore₂, hready, haddr⟩
  dsimp only
  rw [wp_bind, wp_get, hready.1, if_neg (by simp)]
  exact ⟨rfl, hw₂, hstore₂.trans hstore, hready, haddr⟩

include hH hdec hproper howns in
theorem execSend_straight {c : ConnId} {w₁ : World ω} (hw : InTouch C w₁)
    (hstore : C.store w₁.env = C.store w.env) (hready : Ready c w₁)
    (haddr : ((w₁.conns c).host, (w₁.conns c).port) = C.owner slot) :
    Straight C (C.owner slot) argv w (execSend H cmd c none w₁) := by
  show wp (execSend H cmd c none) (fun e w' => Straight C (C.owner slot) argv w (e, w')) w₁
  unfold execSend
  rw [wp_bind]
  refine wp_mono (redisAppendCommand_healthy hH c _ w₁) ?_
  rintro _ w₂ ⟨rfl, hstore₂, hconns₂, hnext₂, hheap₂, hcc₂⟩
  dsimp only
  have hpushed := pushed_ready hready (.command cmd.id cmd.cmd)
  rw [← hconns₂] at hpushed
  have hpeer : (w₂.peer c).addr = C.owner slot := by
    rw [← haddr]
    show ((w₂.conns c).host, (w₂.conns c).port) = _
    rw [hconns₂, World.pushed, Function.update_self]
  unfold pipelineUpdate
  rw [wp_bind, wp_bind, wp_get, hcc₂, if_neg (by rw [hw.current]; simp), wp_pure, wp_bind]
  obtain ⟨hreply, hstores⟩ := hH.command w₂.env (w₂.peer c) cmd.id cmd.cmd argv hdec hproper
    (hpeer ▸ howns)
  refine wp_mono (redisGetReply_due hpushed.1 hpushed.2 hreply) ?_
  rintro _ w₃ ⟨rfl, henv₃, hconns₃, hnext₃, hheap₃, hcc₃⟩
  have hserved : ServedBy C (C.owner slot) argv w (some ⟨.command cmd.id cmd.cmd,
      (serve argv (C.store w₂.env (w₂.peer c).addr)).1⟩) w₃ := by
    rw [hpeer, hstore₂, hstore] at hstores ⊢
    refine ⟨_, rfl, rfl, hw.of_same ?_ (hnext₃.trans hnext₂) (hheap₃.trans hheap₂)
      (by rw [hcc₃, hcc₂]) (by rw [hcc₃, hcc₂]), ?_⟩
    · rw [hconns₃, hconns₂]
      exact pushed_popped hready _
    · rw [henv₃]
      exact hstores
  unfold execReply
  dsimp only
  rcases serve_not_redirect argv (C.store w₂.env (w₂.peer c).addr) with h | h
  · rw [h]
    exact ⟨rfl, hserved⟩
  · rw [h]
    exact ⟨rfl, hserved⟩

include hH hslot hcmd hdec hproper howns in
/-- **A command on a healthy cluster** is answered by the node that serves its slot. -/
theorem redisClusterCommandExecute_healthy (hw : InTouch C w) :
    wp (redisClusterCommandExecute H cmd) (ServedBy C (C.owner slot) argv w) w := by
  have hstep : ∀ s, Straight C (C.owner slot) argv w s →
      Straight C (C.owner slot) argv w (execNext H cmd s) := by
    rintro ⟨⟨pc, u⟩, w₁⟩ ⟨rfl, hpc⟩
    cases pc with
    | retry => exact execRetry_straight hH hslot hcmd hpc.1 hpc.2
    | send c => exact execSend_straight hH hdec hproper howns hpc.1 hpc.2.1 hpc.2.2.1 hpc.2.2.2
    | done r => exact ⟨rfl, hpc⟩
    | ret r => exact ⟨rfl, hpc⟩
    | _ => exact hpc.elim
  have hrun : Straight C (C.owner slot) argv w (execAt H cmd w (execFuel w)) :=
    Machine.iterate_guarded (G := fun _ => True) (fun s _ => hstep s) (fun _ => trivial)
      (show Straight C (C.owner slot) argv w (execStart, w) from ⟨rfl, hw, rfl⟩) (execFuel w)
  obtain ⟨r, hr⟩ := execAt_returned H cmd w
  show ServedBy C (C.owner slot) argv w (execAt H cmd w (execFuel w)).1.result _
  unfold Straight at hrun
  rw [hr] at hrun
  rw [Exec.result, hr]
  exact hrun.2

end Loop

end Healthy

/-! ## The keys of a command -/

theorem lookupLoop_none {ρ : Type} {name : ρ → Bytes} {subname : ρ → Option Bytes} {table : List ρ}
    {cmd : Bytes} {c : ρ} (sub : Option Bytes) (fuel : ℕ) : ∀ {left right : ℕ},
      lookupLoop name subname table cmd none fuel left right = some c →
        lookupLoop name subname table cmd sub fuel left right = some c := by
  induction fuel with
  | zero => exact fun h => by cases h
  | succ fuel ih =>
    intro left right h
    unfold lookupLoop at h ⊢
    dsimp only at h ⊢
    split
    · rename_i hlt
      rw [if_pos hlt] at h
      split
      · rename_i hnone
        rw [hnone] at h
        cases h
      · rename_i row hrow
        rw [hrow] at h
        dsimp only at h
        cases hcmp : compareName (name row) cmd with
        | lt =>
          rw [hcmp] at h
          exact ih h
        | gt =>
          rw [hcmp] at h
          exact ih h
        | eq =>
          rw [hcmp] at h
          cases hsub : subname row with
          | none =>
            rw [hsub] at h
            exact h
          | some s =>
            rw [hsub] at h
            cases h
    · rename_i hlt
      rw [if_neg hlt] at h
      cases h

/-- The row of the table for a command that is split. -/
def splitRow : CmdType → CmdDef
  | .del => ⟨.del, "DEL", none, .index, 1, -2⟩
  | .exists => ⟨.exists, "EXISTS", none, .index, 1, -2⟩
  | .mset => ⟨.mset, "MSET", none, .index, 1, -3⟩
  | _ => ⟨.mget, "MGET", none, .index, 1, -2⟩

/-- The commands that are split are found by their names. -/
theorem commandInfo_named {name : Bytes} {type : CmdType} (h : namedType name = some type)
    (args : List Bytes) : commandInfo (name :: args) = some (splitRow type) ∧
      (splitRow type).type = type := by
  have hlookup : ∀ {t : CmdType}, toUpper name = ascii (splitRow t).name →
      lookupLoop (fun c : CmdDef => ascii c.name) (fun c => c.subname.map ascii) redisCommands
        (ascii (splitRow t).name) none redisCommands.length 0 redisCommands.length =
          some (splitRow t) → commandInfo (name :: args) = some (splitRow t) := by
    intro t hname hrow
    show lookupLoop _ _ _ (toUpper name) _ _ _ _ = _
    rw [hname]
    exact lookupLoop_none _ _ hrow
  unfold namedType at h
  split at h
  · cases h
    exact ⟨hlookup (t := .mget) ‹_› (by decide +kernel), rfl⟩
  · split at h
    · cases h
      exact ⟨hlookup (t := .del) ‹_› (by decide +kernel), rfl⟩
    · split at h
      · cases h
        exact ⟨hlookup (t := .exists) ‹_› (by decide +kernel), rfl⟩
      · split at h
        · cases h
          exact ⟨hlookup (t := .mset) ‹_› (by decide +kernel), rfl⟩
        · cases h

theorem everyOther_pairs : ∀ args : List Bytes, args.length % 2 = 0 →
    everyOther args = (pairs args).map Prod.fst
  | [], _ => rfl
  | [_], h => by simp at h
  | k :: v :: rest, h => by
    have hrest : rest.length % 2 = 0 := by
      rw [List.length_cons, List.length_cons] at h
      omega
    rw [everyOther, pairs, List.map_cons, everyOther_pairs rest hrest]

/-- The command is one of those that are split. -/
theorem namedType_splittable {name : Bytes} {type : CmdType} (h : namedType name = some type) :
    Splittable type = true := by
  unfold namedType at h
  repeat' split at h
  all_goals cases h
  all_goals rfl

theorem namedType_cases {name : Bytes} {type : CmdType} (h : namedType name = some type) :
    type = .mget ∨ type = .del ∨ type = .exists ∨ type = .mset := by
  unfold namedType at h
  repeat' split at h
  all_goals cases h
  all_goals simp

/-- A well-formed command is accepted, and its keys are those of its items. -/
theorem splitRow_accepts {name : Bytes} {args : List Bytes} {type : CmdType}
    (hname : namedType name = some type) (hwf : wellFormed type args = true) :
    (splitRow type).Accepts (name :: args) ∧
      (splitRow type).keysOf (name :: args) = (items type args).map Prod.fst := by
  simp only [wellFormed, Bool.and_eq_true, decide_eq_true_eq, Bool.or_eq_true] at hwf
  obtain ⟨hne, heven⟩ := hwf
  have hpos : 0 < args.length := List.length_pos_of_ne_nil hne
  have hplain : ∀ t, (splitRow t).type = t → (splitRow t).arity = -2 →
      (splitRow t).firstkeymethod = .index → (splitRow t).firstkeypos = 1 →
      redisArgx t = true → t ≠ .migrate → t ≠ .mset →
      (splitRow t).Accepts (name :: args) ∧
        (splitRow t).keysOf (name :: args) = (items t args).map Prod.fst := by
    intro t ht harity hm hk hx hmig hmset
    have hkeys : ¬ (splitRow t).NoKeys (name :: args) := by simp [CmdDef.NoKeys, hm]
    refine ⟨⟨?_, fun _ => ?_, fun h => absurd (ht ▸ h) hmig, fun h => absurd (ht ▸ h) hmset⟩, ?_⟩
    · rw [CmdDef.ArityHolds, harity, if_neg (by decide), List.length_cons]
      omega
    · rw [CmdDef.firstKey, hm, hk, List.length_cons]
      simpa using hpos
    · rw [CmdDef.keysOf, if_neg hkeys, ht, if_pos hx, items, if_neg hmset, List.map_map]
      exact (List.map_id args).symm
  rcases namedType_cases hname with rfl | rfl | rfl | rfl
  · exact hplain .mget rfl rfl rfl rfl rfl (by decide) (by decide)
  · exact hplain .del rfl rfl rfl rfl rfl (by decide) (by decide)
  · exact hplain .exists rfl rfl rfl rfl rfl (by decide) (by decide)
  · have hargs : args.length % 2 = 0 := by simpa using heven
    refine ⟨⟨?_, fun _ => ?_, (fun h => by cases h), fun _ => ?_⟩, ?_⟩
    · show (if (0 : ℤ) ≤ -3 then _ else _)
      rw [if_neg (by decide), List.length_cons]
      show -(-3 : ℤ) ≤ _
      omega
    · show 1 < _
      rw [List.length_cons]
      omega
    · rw [List.length_cons]
      omega
    · exact everyOther_pairs args hargs

/-- The parser finds the keys of the items. -/
theorem redisParseCmd_items {name : Bytes} {args : List Bytes} {type : CmdType}
    (hname : namedType name = some type) (hwf : wellFormed type args = true)
    (hlen : (encodeCommand (name :: args)).length < 2 ^ 31) :
    ∃ keys, redisParseCmd (encodeCommand (name :: args)) = .ok ⟨type, args.length + 1, keys⟩ ∧
      keys.map (KeyPos.bytes (encodeCommand (name :: args))) = (items type args).map Prod.fst := by
  obtain ⟨hinfo, htype⟩ := commandInfo_named hname args
  obtain ⟨hacc, hkeys⟩ := splitRow_accepts hname hwf
  have hindex : (splitRow type).firstkeymethod = .index := by
    unfold splitRow
    split <;> rfl
  have hx : (splitRow type).type ≠ .xread ∧ (splitRow type).type ≠ .xreadgroup := by
    unfold splitRow
    split <;> exact ⟨by decide, by decide⟩
  have hyields := redisParseCmd_yields hlen hinfo hx.1 hx.2 fun h => by
    rw [hindex] at h
    cases h
  rcases hyields with ⟨_, keys, hok, hbytes⟩ | ⟨hno, _⟩
  · rw [htype] at hok
    exact ⟨keys, hok, hbytes.trans hkeys⟩
  · exact absurd hacc hno

/-! ## A fragment on its node -/

/-- The slot of a key, as a fragment carries it. -/
def slotOf (k : Bytes) : ℤ := keyHashSlot k

/-- The arguments that an item is made of. -/
def itemArgs (type : CmdType) (i : Item) : List Bytes :=
  if type = .mset then [i.1, i.2] else [i.1]

/-- The name that is written into a fragment. -/
def fragmentName : CmdType → Bytes
  | .del => ascii "del"
  | .exists => ascii "exists"
  | .mset => ascii "mset"
  | _ => ascii "mget"

/-- The arguments that the fragment of a slot is built from. -/
def fragmentArgs (type : CmdType) (is : List Item) (slot : ℤ) : List Bytes :=
  fragmentName type :: (is.filter fun i => slotOf i.1 = slot).flatMap (itemArgs type)

/-- The items of the arguments that were made of items. -/
theorem items_flatMap {type : CmdType} {args : List Bytes} {is : List Item}
    (his : ∀ i ∈ is, i ∈ items type args) : items type (is.flatMap (itemArgs type)) = is := by
  unfold items itemArgs at *
  split at his
  · rename_i hmset
    rw [if_pos hmset]
    clear his
    induction is with
    | nil => rfl
    | cons i is ih => simp [hmset, pairs] at ih ⊢; exact ih
  · rename_i hmset
    rw [if_neg hmset]
    induction is with
    | nil => rfl
    | cons i is ih =>
      obtain ⟨hi, hrest⟩ := List.forall_mem_cons.mp his
      obtain ⟨k, -, rfl⟩ := List.mem_map.mp hi
      have hrest := ih hrest
      simp only [hmset, if_false] at hrest ⊢
      rw [List.flatMap_cons, List.map_append, hrest]
      rfl

section Batch

variable {H : Hiredis ω} {C : Cluster ω} {type : CmdType} {is : List Item} {start : Store}

/-- The answers for the keys of a slot in the run of the whole command. -/
def slotOuts (type : CmdType) (is : List Item) (start : Store) (slot : ℤ) : List Reply :=
  partOf (is.map fun i => slotOf i.1) (Pointwise.run Prod.fst (itemOp type) is start).1 slot

/-- The keys of a slot have been dealt with, as in the run of the whole command. -/
def SlotDone (C : Cluster ω) (type : CmdType) (is : List Item) (start : Store) (slot : ℤ)
    (w w' : World ω) : Prop :=
  ∀ k, C.contents w'.env k =
    if slotOf k = slot then (Pointwise.run Prod.fst (itemOp type) is start).2 k
    else C.contents w.env k

/-- **A fragment on its node** has the answers and the effect of its keys in the whole
command. -/
theorem ServedBy.slotDone {slot : ℕ} {name : Bytes} {args : List Bytes} {w w' : World ω}
    {r : Option Answer} (hname : namedType name = some type) (hwf : wellFormed type args = true)
    (hitems : items type args = is.filter fun i => slotOf i.1 = slot)
    (hstart : ∀ k, slotOf k = slot → C.contents w.env k = start k)
    (h : ServedBy C (C.owner slot) (name :: args) w r w') :
    (∃ a, r = some a ∧ a.reply = answer type (slotOuts type is start slot)) ∧
      SlotDone C type is start slot w w' := by
  obtain ⟨a, rfl, hreply, -, hstore⟩ := h
  have hserve : ∀ s, serve (name :: args) s =
      serveItems type (is.filter fun i => slotOf i.1 = slot) s := by
    intro s
    rw [serve, hname]
    dsimp only
    rw [if_pos hwf, hitems]
  have hslot : ∀ {k : Bytes}, slotOf k = slot → keyHashSlot k = slot := fun h => by
    unfold slotOf at h
    exact_mod_cast h
  have hagree : ∀ k, slotOf k = slot → C.store w.env (C.owner slot) k = start k := fun k hk => by
    rw [← hstart k hk, Cluster.contents, hslot hk]
  obtain ⟨houts, hend⟩ := Pointwise.run_part Prod.fst (itemOp type) slotOf (slot : ℤ) is hagree
  refine ⟨⟨a, rfl, ?_⟩, fun k => ?_⟩
  · rw [hreply, hserve]
    exact congrArg (answer type) houts
  · rw [Cluster.contents, hstore, hserve]
    by_cases hk : slotOf k = slot
    · rw [if_pos hk, hslot hk, Function.update_self]
      exact hend k hk
    · -- a key of another slot, perhaps of the same node
      rw [if_neg hk, Cluster.contents]
      by_cases hnode : C.owner (keyHashSlot k) = C.owner slot
      · rw [hnode, Function.update_self]
        refine Pointwise.run_other Prod.fst (itemOp type) _ (fun i hi hik => hk ?_) _
        rw [← hik]
        simpa using (List.mem_filter.mp hi).2
      · rw [Function.update_of_ne hnode]

/-- What is asked of a fragment: it has a slot of some keys, and it is read as it was
built. -/
structure FragmentOf (type : CmdType) (is : List Item) (f : Cmd) : Prop where
  slot : ∃ i ∈ is, f.slotNum = slotOf i.1
  decode : decodeCommand f.cmd = some (fragmentArgs type is f.slotNum)

theorem slotOf_bounds (k : Bytes) : ∃ slot : ℕ, slotOf k = slot ∧ slot < redisClusterSlots :=
  ⟨keyHashSlot k, rfl, keyHashSlot_lt k⟩

theorem namedType_fragmentName {name : Bytes} (h : namedType name = some type) :
    namedType (fragmentName type) = some type := by
  rcases namedType_cases h with rfl | rfl | rfl | rfl <;> decide

/-- The arguments of a fragment are well formed. -/
theorem wellFormed_fragment {slot : ℤ} {i : Item} (hi : i ∈ is) (hslot : slotOf i.1 = slot) :
    wellFormed type ((is.filter fun i => slotOf i.1 = slot).flatMap (itemArgs type)) = true := by
  have hmem : i ∈ is.filter fun i => slotOf i.1 = slot :=
    List.mem_filter.mpr ⟨hi, by simpa using hslot⟩
  generalize is.filter (fun i => slotOf i.1 = slot) = js at hmem
  simp only [wellFormed, Bool.and_eq_true, decide_eq_true_eq, Bool.or_eq_true]
  constructor
  · intro hnil
    have := List.flatMap_eq_nil_iff.mp hnil i hmem
    unfold itemArgs at this
    split at this <;> cases this
  · by_cases hmset : type = .mset
    · refine .inr ?_
      clear hmem
      induction js with
      | nil => rfl
      | cons j js ih =>
        rw [List.flatMap_cons, List.length_append]
        have : (itemArgs type j).length = 2 := by
          rw [itemArgs, if_pos hmset]
          rfl
        omega
    · exact .inl hmset

section Fragments

variable (hH : H.Healthy C) {name : Bytes} (hname : namedType name = some type) {args : List Bytes}
  (his : is = items type args)

include hH hname his in
/-- One fragment is executed. -/
theorem executeFragment_healthy {f : Cmd} (hf : FragmentOf type is f) {w : World ω}
    (hw : InTouch C w) (hstart : ∀ k, slotOf k = f.slotNum → C.contents w.env k = start k) :
    wp (redisClusterCommandExecute H f) (fun r w' =>
      (∃ a, r = some a ∧ a.reply = answer type (slotOuts type is start f.slotNum)) ∧
        SlotDone C type is start f.slotNum w w' ∧ InTouch C w') w := by
  obtain ⟨i, hi, hslot⟩ := hf.slot
  obtain ⟨slot, hslotOf, hlt⟩ := slotOf_bounds i.1
  have hnum : f.slotNum = slot := hslot.trans hslotOf
  have hitems : items type ((is.filter fun i => slotOf i.1 = f.slotNum).flatMap (itemArgs type)) =
      is.filter fun i => slotOf i.1 = f.slotNum :=
    items_flatMap fun j hj => his ▸ (List.mem_filter.mp hj).1
  have howns : C.Owns (C.owner slot) (fragmentArgs type is f.slotNum) := by
    intro name' args' type' hcons hname' j hj
    obtain ⟨rfl, rfl⟩ := List.cons.inj hcons
    rw [namedType_fragmentName hname] at hname'
    cases hname'
    rw [hitems] at hj
    have hjslot : slotOf j.1 = slot := by simpa [hnum] using (List.mem_filter.mp hj).2
    unfold slotOf at hjslot
    rw [show keyHashSlot j.1 = slot by exact_mod_cast hjslot]
  have hwf : wellFormed type _ = true := wellFormed_fragment hi hslot.symm
  refine wp_mono (redisClusterCommandExecute_healthy hH hlt hnum hf.decode
    ⟨_, _, type, rfl, namedType_fragmentName hname, hwf⟩ howns hw) ?_
  intro r w' hserved
  rw [hnum] at hwf hitems hstart ⊢
  have hdone := ServedBy.slotDone (namedType_fragmentName hname) hwf hitems hstart (hnum ▸ hserved)
  obtain ⟨a, _, _, hw', _⟩ := hserved
  exact ⟨hdone.1, hdone.2, hw'⟩

/-- The slots of some fragments have been dealt with. -/
def SlotsDone (C : Cluster ω) (type : CmdType) (is : List Item) (start : Store) (frags : List Cmd)
    (w w' : World ω) : Prop :=
  ∀ k, C.contents w'.env k =
    if ∃ f ∈ frags, slotOf k = f.slotNum then (Pointwise.run Prod.fst (itemOp type) is start).2 k
    else C.contents w.env k

/-- No reply of a fragment is an error. -/
theorem answer_ne_error (outs : List Reply) (s : Bytes) : answer type outs ≠ .error s := by
  unfold answer
  split <;> exact fun h => by cases h

include hH hname his in
/-- **The fragments, one after the other.** -/
theorem executeFragments_healthy (frags : List Cmd) : ∀ (done : List (Cmd × Option Reply))
    {w : World ω}, frags.Pairwise (fun f g => f.slotNum < g.slotNum) →
    (∀ f ∈ frags, FragmentOf type is f) → InTouch C w →
    (∀ f ∈ frags, ∀ k, slotOf k = f.slotNum → C.contents w.env k = start k) →
      wp (executeFragments H done frags) (fun e w' =>
        e = .replies (done ++ frags.map fun f =>
          (f, some (answer type (slotOuts type is start f.slotNum)))) ∧
        SlotsDone C type is start frags w w' ∧ InTouch C w') w := by
  induction frags with
  | nil =>
    intro done w _ _ hw _
    rw [executeFragments, wp_pure]
    refine ⟨by rw [List.map_nil, List.append_nil], fun k => ?_, hw⟩
    rw [if_neg (by simp)]
  | cons f frags ih =>
    intro done w hsorted hfrags hw hstart
    obtain ⟨hlt, hsorted⟩ := List.pairwise_cons.mp hsorted
    obtain ⟨hf, hrest⟩ := List.forall_mem_cons.mp hfrags
    unfold executeFragments
    rw [wp_bind]
    refine wp_mono (executeFragment_healthy hH hname his hf hw
      (hstart f List.mem_cons_self)) ?_
    rintro _ w₁ ⟨⟨a, rfl, hreply⟩, hdone, hw₁⟩
    dsimp only
    rw [hreply]
    split
    · exact absurd ‹_› (answer_ne_error _ _)
    refine wp_mono (ih _ hsorted hrest hw₁ fun g hg k hk => ?_) ?_
    · rw [hdone k, if_neg fun h => absurd (hlt g hg) (by omega)]
      exact hstart g (List.mem_cons_of_mem _ hg) k hk
    · rintro _ w₂ ⟨rfl, hdone₂, hw₂⟩
      refine ⟨by rw [List.append_assoc]; rfl, fun k => ?_, hw₂⟩
      rw [hdone₂ k, hdone k]
      by_cases hk : ∃ g ∈ frags, slotOf k = g.slotNum
      · rw [if_pos hk, if_pos (hk.imp fun g hg => ⟨List.mem_cons_of_mem _ hg.1, hg.2⟩)]
      · by_cases hkf : slotOf k = f.slotNum
        · rw [if_neg hk, if_pos hkf, if_pos ⟨f, List.mem_cons_self, hkf⟩]
        · rw [if_neg hk, if_neg hkf, if_neg]
          rintro ⟨g, hg, hgk⟩
          rcases List.mem_cons.mp hg with rfl | hg
          · exact hkf hgk
          · exact hk ⟨g, hg, hgk⟩

end Fragments

/-! ## Putting the replies together -/

theorem partOf_map {α β : Type} (g : α → β) (ks : List ℤ) (xs : List α) (c : ℤ) :
    partOf ks (xs.map g) c = (partOf ks xs c).map g := by
  unfold partOf
  rw [List.zip_map_right, List.filter_map, List.map_map, List.map_map]
  rfl

theorem slotOuts_eq (slot : ℤ) : slotOuts type is start slot =
    (Pointwise.run Prod.fst (itemOp type) (is.filter fun i => slotOf i.1 = slot) start).1 :=
  (Pointwise.run_part Prod.fst (itemOp type) slotOf slot is (s := start)
    fun _ _ => rfl).1.symm

/-- As many answers as there are keys in the slot. -/
theorem length_slotOuts (slot : ℤ) :
    (slotOuts type is start slot).length = (is.filter fun i => slotOf i.1 = slot).length := by
  rw [slotOuts_eq, Pointwise.length_run]

/-- The answer for a key counts for at most one. -/
theorem count_itemOp (i : Item) (old : Option Value) :
    0 ≤ (itemOp type i old).1.count ∧ (itemOp type i old).1.count ≤ 1 := by
  have hzero : (0 : ℤ) ≤ 0 ∧ (0 : ℤ) ≤ 1 := by decide
  unfold itemOp
  split
  · split <;> exact hzero
  · dsimp only [Reply.count]
    split <;> decide
  · dsimp only [Reply.count]
    split <;> decide
  · exact hzero
  · exact hzero

theorem sum_counts_bounds : ∀ (is : List Item) (s : Store),
    0 ≤ ((Pointwise.run Prod.fst (itemOp type) is s).1.map Reply.count).sum ∧
      ((Pointwise.run Prod.fst (itemOp type) is s).1.map Reply.count).sum ≤ is.length
  | [], _ => ⟨Int.le_refl 0, Int.le_refl 0⟩
  | i :: is, s => by
    obtain ⟨hlo, hhi⟩ := count_itemOp i (s i.1)
    obtain ⟨hlo', hhi'⟩ := sum_counts_bounds is
      (Function.update s i.1 (itemOp type i (s i.1)).2)
    rw [Pointwise.run, List.map_cons, List.sum_cons, List.length_cons]
    push_cast
    exact ⟨Int.add_nonneg hlo hlo', by omega⟩

section Merge

variable {buf : Bytes} {keys : List KeyPos} {frags : List Cmd} (hs : Split type buf keys frags)
  (hkeys : keys.map (KeyPos.bytes buf) = is.map Prod.fst)

include hkeys in
theorem map_slot_eq : keys.map (KeyPos.slot buf) = is.map fun i => slotOf i.1 := by
  have := congrArg (List.map slotOf) hkeys
  rw [List.map_map, List.map_map] at this
  exact this

include hkeys in
/-- The keys of a slot are those of its items. -/
theorem length_filter_slot (slot : ℤ) : (keys.filter fun k => k.slot buf = slot).length =
    (is.filter fun i => slotOf i.1 = slot).length := by
  have hcount : ∀ {α : Type} (g : α → ℤ) (l : List α),
      (l.filter fun x => g x = slot).length = (l.map g).count slot := by
    intro α g l
    rw [List.count, List.countP_map, List.countP_eq_length_filter]
    rfl
  rw [hcount (KeyPos.slot buf), hcount fun i : Item => slotOf i.1, map_slot_eq hkeys]

include hs hkeys in
/-- Every fragment is answered as its command has it. -/
theorem wellTyped_slotOuts (ht : Splittable type = true) :
    List.Forall₂ (WellTyped type) frags
      (frags.map fun f => answer type (slotOuts type is start f.slotNum)) := by
  rw [List.forall₂_map_right_iff, List.forall₂_same]
  intro f hf
  refine .inr ⟨?_, fun hmget => ?_⟩
  · cases type with
    | mget => rfl
    | del => rfl
    | «exists» => rfl
    | mset => rfl
    | _ => cases ht
  · subst hmget
    rw [hs.keys f hf, List.length_map, length_filter_slot hkeys]
    exact length_slotOuts f.slotNum

/-- The fragments, each with its reply. -/
theorem zip_replies (g : Cmd → Reply) :
    frags.zip ((frags.map g).map some) = frags.map fun f => (f, some (g f)) := by
  have h := List.zip_map' (f := id) (g := some ∘ g) (l := frags)
  rwa [List.map_id, ← List.map_map] at h

include hs hkeys in
/-- The arrays of the fragments are the answers, sorted by slot. -/
theorem fragmentArrays_slotOuts (slot : ℤ) :
    fragmentArrays (frags.map fun f => (f, some (answer .mget (slotOuts .mget is start f.slotNum))))
      slot = slotOuts .mget is start slot := by
  unfold fragmentArrays
  rw [List.find?_map]
  cases hfind : frags.find? ((fun p : Cmd × Option Reply => decide (p.1.slotNum = slot)) ∘
      fun f => (f, some (answer .mget (slotOuts .mget is start f.slotNum)))) with
  | some f =>
    have hslot : f.slotNum = slot := by simpa using List.find?_some hfind
    rw [← hslot]
    rfl
  | none =>
    -- no fragment has the slot, so no key has it
    symm
    rw [Option.map_none, ← List.length_eq_zero_iff, length_slotOuts, ← length_filter_slot hkeys,
      List.length_eq_zero_iff, List.filter_eq_nil_iff]
    intro k hk hks
    obtain ⟨f, hf, hfs⟩ := hs.complete k hk
    have := List.find?_eq_none.mp hfind f hf
    simp [hfs, of_decide_eq_true hks] at this

include hs hkeys in
/-- The counts of the fragments add up to the count of the command. -/
theorem sum_counts_slotOuts (h : type = .del ∨ type = .exists) :
    ((frags.map fun f => answer type (slotOuts type is start f.slotNum)).map Reply.count).sum =
      ((Pointwise.run Prod.fst (itemOp type) is start).1.map Reply.count).sum := by
  have hnodup : (frags.map Cmd.slotNum).Nodup :=
    List.pairwise_map.mpr (hs.sorted.imp fun h => Int.ne_of_lt h)
  have hcover : ∀ s ∈ is.map (fun i => slotOf i.1), s ∈ frags.map Cmd.slotNum := by
    intro s hsmem
    rw [← map_slot_eq hkeys] at hsmem
    obtain ⟨k, hk, rfl⟩ := List.mem_map.mp hsmem
    obtain ⟨f, hf, hfs⟩ := hs.complete k hk
    exact List.mem_map.mpr ⟨f, hf, hfs⟩
  have hsum := @sum_partOf _ _ _ _ _ hnodup (is.map fun i => slotOf i.1)
    ((Pointwise.run Prod.fst (itemOp type) is start).1.map Reply.count)
    (by simp [Pointwise.length_run]) hcover
  rw [← hsum, List.map_map, List.map_map]
  congr 1
  refine List.map_congr_left fun f _ => ?_
  show (answer type (slotOuts type is start f.slotNum)).count = _
  rw [Function.comp_apply, partOf_map]
  rcases h with rfl | rfl <;> rfl

include hs hkeys in
/-- **The merged reply** is the reply to the whole command. -/
theorem mergeReplies_serveItems (ht : Splittable type = true) (hlen : is.length < 2 ^ 31) :
    mergeReplies type (keys.map (KeyPos.slot buf))
      (frags.map fun f => (f, some (answer type (slotOuts type is start f.slotNum)))) =
        .reply (serveItems type is start).1 := by
  obtain ⟨x, hx, hmerged⟩ := mergeReplies_merged ht hs
    (wellTyped_slotOuts hs hkeys ht)
  rw [zip_replies] at hx
  rw [hx]
  congr 1
  have hnone : (frags.map fun f => answer type (slotOuts type is start f.slotNum)).find?
      Reply.isError = none := by
    refine List.find?_eq_none.mpr fun r hr => ?_
    obtain ⟨f, -, rfl⟩ := List.mem_map.mp hr
    cases hans : answer type (slotOuts type is start f.slotNum) with
    | error s => exact absurd hans (answer_ne_error _ s)
    | _ => simp [Reply.isError]
  unfold Merged at hmerged
  rw [hnone] at hmerged
  have hcount : type = .del ∨ type = .exists → x = .integer (Int.bmod ((frags.map fun f =>
      answer type (slotOuts type is start f.slotNum)).map Reply.count).sum (2 ^ 64)) →
      x = .integer ((Pointwise.run Prod.fst (itemOp type) is start).1.map Reply.count).sum := by
    intro h hx
    obtain ⟨hlo, hhi⟩ := @sum_counts_bounds type is start
    rw [hx, sum_counts_slotOuts hs hkeys h, Int.bmod_eq_of_le (by omega) (by omega)]
  cases type with
  | mget =>
    obtain ⟨es, rfl, hes⟩ := hmerged
    rw [zip_replies, map_slot_eq hkeys] at hes
    have hwhole : Interleaves (fragmentArrays (frags.map fun f =>
        (f, some (answer .mget (slotOuts .mget is start f.slotNum))))) (is.map fun i => slotOf i.1)
        (Pointwise.run Prod.fst (itemOp .mget) is start).1 :=
      ⟨by simp [Pointwise.length_run], fun slot => (fragmentArrays_slotOuts hs hkeys slot).symm⟩
    exact congrArg Reply.array (hes.unique hwhole)
  | mset => exact hmerged
  | del => exact hcount (.inl rfl) hmerged
  | «exists» => exact hcount (.inr rfl) hmerged
  | _ => cases ht

end Merge

end Batch

/-! ## The whole command -/

/-- The fragments that `command_format_by_slot` makes of a command. -/
def fragmentsOf (cmd : Bytes) (w : World ω) : List Cmd :=
  ((commandFormatBySlot { id := w.cmdId + 1, cmd } { w with cmdId := w.cmdId + 1 }).1.2.subCommands).getD []

/-- What `command_pre_fragment` returns when the last id that was used is `id`. -/
def preFragmented (r : Request) (id : ℕ) : ℤ × Request :=
  let slots := r.keys.map (KeyPos.slot r.cmd)
  let frags := (collectFragments r.type r.cmd id [] r.keys).2
  if frags.length = 1 then
    (slots.getLast?.getD (-1), { r with slotNum := slots.getLast?.getD (-1) })
  else
    (slots.getLast?.getD (-1), { r with
      fragSeq := slots
      subCommands := some (frags.map (finishFragment r.type r.cmd)) })

theorem commandPreFragment_eq (r : Request) (w : World ω) : commandPreFragment r w =
    (preFragmented r w.cmdId,
      { w with cmdId := (collectFragments r.type r.cmd w.cmdId [] r.keys).1 }) := by
  show ((commandPreFragment r w).1, (commandPreFragment r w).2) = _
  have h : wp (commandPreFragment r) (fun x w' => x = preFragmented r w.cmdId ∧
      w' = { w with cmdId := (collectFragments r.type r.cmd w.cmdId [] r.keys).1 }) w := by
    unfold commandPreFragment preFragmented
    rw [wp_bind, wp_get, wp_bind, wp_modify]
    dsimp only
    split
    · exact ⟨rfl, rfl⟩
    · exact ⟨rfl, rfl⟩
  rw [h.1, h.2]

/-- A command with several keys is split. -/
theorem commandFormatBySlot_several {r : Request} {p : Parsed} (hne : r.cmd ≠ [])
    (hp : redisParseCmd r.cmd = .ok p) (hlen : 2 ≤ p.keys.length) (w : World ω) :
    commandFormatBySlot r w =
      commandPreFragment { r with type := p.type, narg := p.narg, keys := p.keys } w := by
  unfold commandFormatBySlot
  rw [if_neg hne, hp]
  rcases p with ⟨type, narg, _ | ⟨k, _ | ⟨k', ks⟩⟩⟩
  · simp at hlen
  · simp at hlen
  · rfl

section Whole

variable {r : Request} (hkeys : 2 ≤ r.keys.length) (id : ℕ)

include hkeys in
/-- The slot of the last key. -/
theorem preFragmented_slot : ∃ k ∈ r.keys, (preFragmented r id).1 = k.slot r.cmd := by
  have hne : r.keys ≠ [] := by
    intro h
    rw [h] at hkeys
    simp at hkeys
  refine ⟨r.keys.getLast hne, List.getLast_mem hne, ?_⟩
  have hlast : (r.keys.map (KeyPos.slot r.cmd)).getLast?.getD (-1) =
      (r.keys.getLast hne).slot r.cmd := by
    rw [List.getLast?_map, List.getLast?_eq_getLast_of_ne_nil hne]
    rfl
  unfold preFragmented
  dsimp only
  split <;> exact hlast

include hkeys in
/-- The command is not split if all its keys have the same slot. -/
theorem preFragmented_whole (h : (preFragmented r id).2.subCommands = none) :
    (preFragmented r id).2.cmd = r.cmd ∧
      (preFragmented r id).2.slotNum = (preFragmented r id).1 ∧
      ∀ k ∈ r.keys, k.slot r.cmd = (preFragmented r id).1 := by
  obtain ⟨k₀, hk₀, hslot⟩ := preFragmented_slot hkeys id
  have hs : Split r.type r.cmd r.keys (collectFragments r.type r.cmd id [] r.keys).2 :=
    collectFragments_split (split_nil _ _)
  rw [hslot]
  unfold preFragmented at h hslot ⊢
  dsimp only at h hslot ⊢
  split at h
  · rename_i hone
    rw [if_pos hone] at hslot ⊢
    refine ⟨rfl, hslot, fun k hk => ?_⟩
    obtain ⟨f, hf⟩ := List.length_eq_one_iff.mp hone
    obtain ⟨g, hg, hgk⟩ := hs.complete k hk
    obtain ⟨g₀, hg₀, hgk₀⟩ := hs.complete k₀ hk₀
    rw [hf, List.mem_singleton] at hg hg₀
    rw [← hgk, ← hgk₀, hg, hg₀]
  · cases h

/-- Otherwise its fragments are those of its keys. -/
theorem preFragmented_fragments (ht : Splittable r.type = true) (hsub : r.subCommands = none)
    {frags : List Cmd} (h : (preFragmented r id).2.subCommands = some frags) :
    (preFragmented r id).2.Fragmented frags ∧ (preFragmented r id).2.keys = r.keys ∧
      (preFragmented r id).2.cmd = r.cmd ∧ (preFragmented r id).2.type = r.type := by
  have hfrag := commandPreFragment_fragmented hsub ht ({ env := (), cmdId := id } : World Unit)
  unfold wp at hfrag
  rw [commandPreFragment_eq] at hfrag
  refine ⟨hfrag frags h, ?_⟩
  unfold preFragmented
  dsimp only
  split <;> exact ⟨rfl, rfl, rfl⟩

end Whole

section Refinement

variable {H : Hiredis ω} {C : Cluster ω} (hH : H.Healthy C) {name : Bytes} {args : List Bytes}
  {type : CmdType} (hname : namedType name = some type) (hwf : wellFormed type args = true)
  (hlen : (encodeCommand (name :: args)).length < 2 ^ 31) (htwo : 2 ≤ (items type args).length)

/-- The items of a command are no more than its arguments. -/
theorem length_items_le (type : CmdType) (args : List Bytes) : (items type args).length ≤ args.length := by
  unfold items
  split
  · have hpairs : ∀ l : List Bytes, (pairs l).length ≤ l.length := by
      intro l
      fun_induction pairs l with
      | case1 k v rest ih =>
        simp only [List.length_cons]
        omega
      | case2 l _ => exact Nat.zero_le _
    exact hpairs args
  · rw [List.length_map]

/-- A key that the command is not about keeps its value. -/
theorem run_outside {k : Bytes} {is : List Item} {start : Store} (h : ∀ i ∈ is, slotOf k ≠ slotOf i.1) :
    (Pointwise.run Prod.fst (itemOp type) is start).2 k = start k :=
  Pointwise.run_other _ _ _ (fun i hi hik => h i hi (by rw [hik])) _

include hname hwf in
/-- A well-formed command runs through its items. -/
theorem serve_items (s : Store) : serve (name :: args) s = serveItems type (items type args) s := by
  rw [serve, hname]
  dsimp only
  rw [if_pos hwf]

/-- What is to come out: the reply and the contents of a single store. -/
def AsOneStore (C : Cluster ω) (argv : List Bytes) (w : World ω) (r : Option Reply) (w' : World ω) :
    Prop :=
  r = some (serve argv (C.contents w.env)).1 ∧ C.contents w'.env = (serve argv (C.contents w.env)).2

section Formatted

variable {command : Request} {keys : List KeyPos} {w : World ω}
  (hkeys : keys.map (KeyPos.bytes (encodeCommand (name :: args))) = (items type args).map Prod.fst)

include hH hname hwf hlen hkeys in
/-- A command whose keys have one slot is executed as it is. -/
theorem executeWhole_healthy (hw : InTouch C w) (hcmd : command.cmd = encodeCommand (name :: args))
    {k : KeyPos} (hslot : command.slotNum = k.slot (encodeCommand (name :: args)))
    (hall : ∀ k' ∈ keys, k'.slot (encodeCommand (name :: args)) = command.slotNum) :
    wp (redisClusterCommandExecute H command.toCmd) (fun a w' =>
      AsOneStore C (name :: args) w (a.map Answer.reply) w') w := by
  have hslots : ∀ i ∈ items type args, slotOf i.1 = command.slotNum := by
    intro i hi
    have hmem : i.1 ∈ keys.map (KeyPos.bytes (encodeCommand (name :: args))) := by
      rw [hkeys]
      exact List.mem_map_of_mem hi
    obtain ⟨k', hk', hbytes⟩ := List.mem_map.mp hmem
    rw [← hall k' hk', ← hbytes]
    rfl
  obtain ⟨slot, hslotOf, hlt⟩ := slotOf_bounds (k.bytes (encodeCommand (name :: args)))
  have hnum : command.slotNum = slot := hslot.trans hslotOf
  have hfilter : (items type args).filter (fun i => slotOf i.1 = slot) = items type args := by
    refine List.filter_eq_self.mpr fun i hi => ?_
    rw [hslots i hi, hnum]
    exact decide_eq_true rfl
  have hdecode : decodeCommand command.toCmd.cmd = some (name :: args) := by
    show decodeCommand command.cmd = _
    rw [hcmd]
    exact decodeCommand_encodeCommand (List.cons_ne_nil _ _) hlen
  have howns : C.Owns (C.owner slot) (name :: args) := by
    intro name' args' type' hcons hname' i hi
    obtain ⟨rfl, rfl⟩ := List.cons.inj hcons
    rw [hname] at hname'
    cases hname'
    have := hslots i hi
    rw [hnum, slotOf] at this
    rw [show keyHashSlot i.1 = slot by exact_mod_cast this]
  refine wp_mono (redisClusterCommandExecute_healthy hH hlt hnum hdecode
    ⟨name, args, type, rfl, hname, hwf⟩ howns hw) ?_
  intro r w' hserved
  obtain ⟨⟨a, rfl, hreply⟩, hdone⟩ := hserved.slotDone hname hwf hfilter.symm fun _ _ => rfl
  rw [AsOneStore, serve_items hname hwf]
  refine ⟨?_, funext fun k' => ?_⟩
  · rw [Option.map_some, hreply, slotOuts_eq, hfilter]
    rfl
  · rw [hdone k']
    split
    · rfl
    · rename_i hk'
      refine (run_outside fun i hi h => hk' ?_).symm
      rw [h, hslots i hi, hnum]

include hH hname hwf hlen hkeys in
/-- A command whose keys have several slots is executed fragment by fragment. -/
theorem executeFragmented_healthy (hw : InTouch C w) {frags : List Cmd}
    (hfrag : command.Fragmented frags) (htype : command.type = type) (hck : command.keys = keys)
    (hcmd : command.cmd = encodeCommand (name :: args))
    (hdec : ∀ f ∈ frags, decodeCommand f.cmd = some (fragmentArgs type (items type args) f.slotNum)) :
    wp (executeFragments H [] frags) (fun e w' => ∃ rs, e = .replies rs ∧
      mergeReplies command.type command.fragSeq rs =
        .reply (serve (name :: args) (C.contents w.env)).1 ∧
      C.contents w'.env = (serve (name :: args) (C.contents w.env)).2) w := by
  have hsplit := hfrag.split
  rw [htype, hck, hcmd] at hsplit
  have hbound : (items type args).length < 2 ^ 31 := by
    have := (encodeCommand_bounds hlen).1
    have := length_items_le type args
    rw [List.length_cons] at *
    omega
  have hslot : ∀ f ∈ frags, ∃ i ∈ items type args, f.slotNum = slotOf i.1 := by
    intro f hf
    have hne := hsplit.nonempty f hf
    rw [hsplit.keys f hf, ne_eq, List.map_eq_nil_iff, ← ne_eq] at hne
    obtain ⟨k, hk⟩ := List.exists_mem_of_ne_nil _ hne
    obtain ⟨hk, hks⟩ := List.mem_filter.mp hk
    have hmem := List.mem_map_of_mem (f := KeyPos.bytes (encodeCommand (name :: args))) hk
    rw [hkeys] at hmem
    obtain ⟨i, hi, hik⟩ := List.mem_map.mp hmem
    refine ⟨i, hi, ?_⟩
    rw [hik]
    exact (of_decide_eq_true hks).symm
  refine wp_mono (executeFragments_healthy hH hname rfl frags []
    hsplit.sorted (fun f hf => ⟨hslot f hf, hdec f hf⟩) hw fun _ _ _ _ => rfl) ?_
  rintro _ w' ⟨rfl, hdone, -⟩
  rw [List.nil_append]
  refine ⟨_, rfl, ?_, funext fun k => ?_⟩
  · rw [hfrag.fragSeq, hck, hcmd, htype, serve_items hname hwf]
    exact mergeReplies_serveItems hsplit hkeys (namedType_splittable hname) hbound
  · rw [hdone k, serve_items hname hwf]
    split
    · rfl
    · rename_i hno
      refine (run_outside fun i hi h => hno ?_).symm
      obtain ⟨key, hkey, hbytes⟩ : ∃ key ∈ keys,
          key.bytes (encodeCommand (name :: args)) = i.1 := by
        have hmem := List.mem_map_of_mem (f := Prod.fst) hi
        rw [← hkeys] at hmem
        exact List.mem_map.mp hmem
      obtain ⟨f, hf, hfs⟩ := hsplit.complete key hkey
      refine ⟨f, hf, ?_⟩
      rw [h, hfs, ← hbytes]
      rfl

end Formatted

/-- Resetting the error is no matter. -/
theorem resetError_keeps (w : World ω) : wp resetError (fun _ w' => w'.env = w.env ∧
    w'.cmdId = w.cmdId ∧ (InTouch C w → InTouch C w')) w := by
  unfold resetError
  rw [wp_bind, wp_get]
  split
  · exact ⟨rfl, rfl, fun h => h.of_same rfl rfl rfl rfl rfl⟩
  · exact ⟨rfl, rfl, id⟩

include hH hname hwf hlen in
/-- The execution of a command once it is formatted. -/
theorem executeFormatted_healthy {r : Request} {id : ℕ} {w : World ω} (hw : InTouch C w)
    (hkeys : r.keys.map (KeyPos.bytes r.cmd) = (items type args).map Prod.fst)
    (hlenKeys : 2 ≤ r.keys.length) (hcmd : r.cmd = encodeCommand (name :: args))
    (htype : r.type = type) (hsub : r.subCommands = none)
    (hdec : ∀ f ∈ (preFragmented r id).2.subCommands.getD [],
      decodeCommand f.cmd = some (fragmentArgs type (items type args) f.slotNum)) :
    wp (executeFormatted H (preFragmented r id).2) (AsOneStore C (name :: args) w) w := by
  unfold executeFormatted
  cases hfrags : (preFragmented r id).2.subCommands with
  | none =>
    obtain ⟨hcmd', hslot, hall⟩ := preFragmented_whole hlenKeys id hfrags
    obtain ⟨k, -, hk⟩ := preFragmented_slot hlenKeys id
    rw [← hslot, hcmd] at hall
    rw [hcmd] at hkeys hk
    dsimp only
    rw [wp_bind]
    refine wp_mono (executeWhole_healthy hH hname hwf hlen hkeys hw (hcmd'.trans hcmd)
      (hslot.trans hk) hall) fun _ _ h => h
  | some frags =>
    rw [hfrags] at hdec
    obtain ⟨hfragmented, hck, hcmd', htype'⟩ :=
      preFragmented_fragments id (by rw [htype]; exact namedType_splittable hname) hsub hfrags
    rw [hcmd] at hkeys
    dsimp only
    rw [wp_bind]
    refine wp_mono (executeFragmented_healthy hH hname hwf hlen hkeys hw hfragmented
      (htype'.trans htype) hck (hcmd'.trans hcmd) hdec) ?_
    rintro _ w' ⟨rs, rfl, hmerge, hcontents⟩
    dsimp only
    unfold commandPostFragment
    rw [hmerge]
    exact ⟨rfl, hcontents⟩

include hH hname hwf hlen htwo in
/-- **Splitting keeps the meaning.**  On a healthy cluster, MGET, DEL, EXISTS and MSET give
the reply and leave the contents of the key space that the whole command gives and leaves
on a single store; the fragments are read as they were built. -/
theorem redisClusterFormattedCommand_asOneStore {w : World ω} (hw : InTouch C w)
    (hdec : ∀ f ∈ fragmentsOf (encodeCommand (name :: args)) w,
      decodeCommand f.cmd = some (fragmentArgs type (items type args) f.slotNum)) :
    (redisClusterFormattedCommand H (encodeCommand (name :: args)) w).1 =
        some (serve (name :: args) (C.contents w.env)).1 ∧
      C.contents (redisClusterFormattedCommand H (encodeCommand (name :: args)) w).2.env =
        (serve (name :: args) (C.contents w.env)).2 := by
  obtain ⟨keys, hparse, hkeys⟩ := redisParseCmd_items hname hwf hlen
  have hlenKeys : 2 ≤ keys.length := by
    have := congrArg List.length hkeys
    rw [List.length_map, List.length_map] at this
    omega
  have hne : encodeCommand (name :: args) ≠ [] := by simp [encodeCommand]
  -- the request that is split
  set r : Request :=
    { id := w.cmdId + 1, cmd := encodeCommand (name :: args), type := type,
      narg := args.length + 1, keys := keys } with hr
  have hformat : ∀ w' : World ω, w'.cmdId = w.cmdId + 1 →
      commandFormatBySlot { id := w.cmdId + 1, cmd := encodeCommand (name :: args) } w' =
        (preFragmented r (w.cmdId + 1), { w' with
          cmdId := (collectFragments type (encodeCommand (name :: args)) (w.cmdId + 1) [] keys).1 }) := by
    intro w' hid
    rw [commandFormatBySlot_several hne hparse hlenKeys w', commandPreFragment_eq, hid]
  rw [fragmentsOf, hformat _ rfl] at hdec
  obtain ⟨k, hk, hslot⟩ := preFragmented_slot (r := r) hlenKeys (w.cmdId + 1)
  have hlt : keyHashSlot (k.bytes r.cmd) < redisClusterSlots := keyHashSlot_lt _
  show wp (redisClusterFormattedCommand H _) (AsOneStore C (name :: args) w) w
  unfold redisClusterFormattedCommand commandGet
  rw [wp_bind]
  refine wp_mono (resetError_keeps (C := C) w) ?_
  rintro _ w₁ ⟨henv, hid, hw₁⟩
  rw [wp_bind, wp_bind, wp_modify, wp_bind, wp_get, wp_pure, wp_bind]
  dsimp only
  rw [hid]
  have hspec : wp (commandFormatBySlot { id := w.cmdId + 1, cmd := encodeCommand (name :: args) })
      (fun x w' => x = preFragmented r (w.cmdId + 1) ∧ w'.env = w.env ∧ InTouch C w')
      { w₁ with cmdId := w.cmdId + 1 } := by
    unfold wp
    rw [hformat _ rfl]
    exact ⟨rfl, henv, (hw₁ hw).of_same rfl rfl rfl rfl rfl⟩
  refine wp_mono hspec ?_
  rintro _ w₂ ⟨rfl, henv₂, hw₂⟩
  rw [hslot, KeyPos.slot, if_neg (Int.not_lt.mpr (Int.natCast_nonneg _)), Int.toNat_natCast,
    if_neg (Nat.not_le.mpr hlt), wp_bind]
  refine wp_mono (executeFormatted_healthy hH hname hwf hlen (r := r) hw₂ hkeys hlenKeys rfl rfl rfl
    hdec) ?_
  rintro a w₃ ⟨hreply, hcontents⟩
  rw [wp_bind, wp_modifyCc, wp_pure]
  rw [henv₂] at hreply hcontents
  exact ⟨hreply, hcontents⟩

end Refinement

/-! ## Two nodes -/

/-- The slots below 8192 are served by `a:1`, the others by `b:2`. -/
def twoOwners (slot : ℕ) : Bytes × ℕ := if slot < 8192 then (ascii "a", 1) else (ascii "b", 2)

/-- Two servers. -/
def twoServers : Cluster (Bytes × ℕ → Store) := ⟨fun env => env, twoOwners⟩

/-- An environment in which every command is served. -/
def Hiredis.serving : Hiredis (Bytes × ℕ → Store) where
  connect env _ _ := (.ok, env)
  reconnect env _ := (none, env)
  initSsl env _ := (none, env)
  append env _ _ := (none, env)
  flush env _ := (none, env)
  reply env p q :=
    match q with
    | .command _ bytes =>
      match decodeCommand bytes with
      | some argv => (.ok (serve argv (env p.addr)).1,
          Function.update env p.addr (serve argv (env p.addr)).2)
      | none => (.ok (.error (ascii "ERR Protocol error")), env)
    | _ => (.ok (.status (ascii "OK")), env)
  idle env _ := (⟨.timeout, ascii "Resource temporarily unavailable"⟩, env)
  asyncConnect env _ _ := (.ok, env)
  submit env _ _ := (.accepted, env)
  attach env _ := (true, env)
  now env := (0, env)
  random env := (0, env)

theorem serving_healthy : Hiredis.serving.Healthy twoServers where
  connect _ _ _ := ⟨rfl, rfl⟩
  reconnect _ _ := ⟨rfl, rfl⟩
  initSsl _ _ := ⟨rfl, rfl⟩
  append _ _ _ := ⟨rfl, rfl⟩
  auth _ _ _ _ := ⟨_, rfl, rfl, rfl⟩
  command env p id bytes argv hdec _ _ := by
    show (match decodeCommand bytes with | some argv => _ | none => _ : Except Fault Reply × _).1 = _ ∧
      (match decodeCommand bytes with | some argv => _ | none => _ : Except Fault Reply × _).2 = _
    rw [hdec]
    exact ⟨rfl, rfl⟩

/-- A client that knows both nodes and has no connections yet. -/
def twoNodesClient (env : Bytes × ℕ → Store) : World (Bytes × ℕ → Store) where
  env := env
  cc := { table := some fun slot => if slot < 8192 then some 0 else some 1 }
  heap n := if n = 0 then { host := ascii "a", port := 1 } else { host := ascii "b", port := 2 }
  nextNode := 2

theorem twoNodesClient_inTouch (env : Bytes × ℕ → Store) : InTouch twoServers (twoNodesClient env) := by
  refine ⟨rfl, fun slot _ => ?_⟩
  by_cases h : slot < 8192
  · refine ⟨_, 0, rfl, if_pos h, ?_, fun _ => by simp [twoNodesClient], fun c hc => by cases hc⟩
    exact (if_pos h).symm
  · refine ⟨_, 1, rfl, if_neg h, ?_, fun _ => by simp [twoNodesClient], fun c hc => by cases hc⟩
    exact (if_neg h).symm

theorem redisClusterFormattedCommand_asOneStore_mset :
    (redisClusterFormattedCommand Hiredis.serving
      (encodeCommand [ascii "MSET", ascii "a", ascii "1", ascii "k", ascii "2"])
      (twoNodesClient fun _ _ => none)).1 = some (.status (ascii "OK")) := by
  have hwf : wellFormed .mset [ascii "a", ascii "1", ascii "k", ascii "2"] = true := by decide
  have h := redisClusterFormattedCommand_asOneStore serving_healthy
    (by decide : namedType (ascii "MSET") = some .mset) hwf
    (by decide +kernel) (by decide) (twoNodesClient_inTouch fun _ _ => none) (by decide +kernel)
  exact h.1
