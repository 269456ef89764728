/-
# hiredis as the environment of the client

hiredis is not part of the library.  `Hiredis ω` is what the client can observe
of it and of the servers behind it: for every call an answer computed from an
arbitrary environment state.  "For every sequence of replies and failures" is
"for every `ω`, every `H : Hiredis ω` and every initial `env`".

Two facts about hiredis are built into the primitives below:

* a failing call leaves a nonzero `err` on its connection (`Fault.code` has no
  zero);
* a connection is a FIFO: a reply read is the answer to the oldest command
  written and not yet answered, and nothing can be read from a connection that
  is in error or that owes no reply.
-/
import HiredisCluster.World
import HiredisCluster.Lib.Program

open Program

/-- The outcome of a connection attempt: no context at all, a context in error,
or a connection. -/
inductive ConnectResult where
  | oom
  | failed (f : Fault)
  | ok
  deriving DecidableEq

/-- The outcome of an asynchronous submission; a rejected one may leave an error. -/
inductive SubmitResult where
  | accepted
  | rejected (f : Option Fault)
  deriving DecidableEq

/-- The other end of a connection, as the environment may distinguish it. -/
structure Peer where
  id : ℕ
  host : Bytes
  port : ℕ
  async : Bool := false

/-- The environment's answer to each call of the hiredis API. -/
structure Hiredis (ω : Type) where
  connect : ω → Bytes → ℕ → ConnectResult × ω
  reconnect : ω → Peer → Option Fault × ω
  initSsl : ω → Peer → Option Fault × ω
  /-- `redisAppendCommand`: the output buffer may be out of memory. -/
  append : ω → Peer → Sent → Option Fault × ω
  /-- `redisBufferWrite` -/
  flush : ω → Peer → Option Fault × ω
  /-- The reply to the oldest unanswered command, or why it cannot be read. -/
  reply : ω → Peer → Sent → Except Fault Reply × ω
  /-- Why reading fails when no reply is due. -/
  idle : ω → Peer → Fault × ω
  asyncConnect : ω → Bytes → ℕ → ConnectResult × ω
  /-- Whether an asynchronous submission is accepted. -/
  submit : ω → Peer → Sent → SubmitResult × ω
  /-- Whether the event adapter could be attached. -/
  attach : ω → Peer → Bool × ω
  now : ω → ℤ × ω
  random : ω → ℕ × ω

variable {ω : Type} (H : Hiredis ω)

/-! ## State access -/

/-- Consult the environment. -/
def ask {α : Type} (f : ω → α × ω) : Prog ω α :=
  fun w => ((f w.env).1, { w with env := (f w.env).2 })

/-- Update the cluster context. -/
def modifyCc (f : Context → Context) : Prog ω Unit :=
  modify fun w => { w with cc := f w.cc }

/-- Update one node object. -/
def modifyNode (n : NodeId) (f : Node → Node) : Prog ω Unit :=
  modify fun w => { w with heap := Function.update w.heap n (f (w.heap n)) }

/-- Update one blocking connection. -/
def modifyConn (c : ConnId) (f : Conn → Conn) : Prog ω Unit :=
  modify fun w => { w with conns := Function.update w.conns c (f (w.conns c)) }

/-- Append to the history. -/
def record (e : Event) : Prog ω Unit :=
  modify fun w => { w with trace := w.trace ++ [e] }

@[simp] theorem wp_ask {α : Type} (f : ω → α × ω) (Q : α → World ω → Prop) (w : World ω) :
    wp (ask f) Q w = Q (f w.env).1 { w with env := (f w.env).2 } := rfl

@[simp] theorem wp_modifyCc (f : Context → Context) (Q : Unit → World ω → Prop) (w : World ω) :
    wp (modifyCc f) Q w = Q () { w with cc := f w.cc } := rfl

@[simp] theorem wp_modifyConn (c : ConnId) (f : Conn → Conn) (Q : Unit → World ω → Prop)
    (w : World ω) : wp (modifyConn c f) Q w =
      Q () { w with conns := Function.update w.conns c (f (w.conns c)) } := rfl

@[simp] theorem wp_record (e : Event) (Q : Unit → World ω → Prop) (w : World ω) :
    wp (record e) Q w = Q () { w with trace := w.trace ++ [e] } := rfl

/-- Call user code: what it can see is recorded. -/
def userHook : Prog ω Unit := do
  let w ← get
  record (.callback w.view)

/-- The peer of a blocking connection. -/
def World.peer (w : World ω) (c : ConnId) : Peer :=
  { id := c, host := (w.conns c).host, port := (w.conns c).port }

/-! ## The blocking API of hiredis -/

/-- A fresh `redisContext`. -/
def newConn (host : Bytes) (port : ℕ) (err : Option Fault) : Prog ω ConnId :=
  fun w => (w.nextConn,
    { w with
      conns := Function.update w.conns w.nextConn { host, port, err, queue := [], alive := true }
      nextConn := w.nextConn + 1 })

/-- `redisConnectWithOptions`; `none` is the `NULL` context. -/
def redisConnectWithOptions (host : Bytes) (port : ℕ) : Prog ω (Option ConnId) := do
  match ← ask (H.connect · host port) with
  | .oom => pure none
  | .failed f => do
    let c ← newConn host port (some f)
    pure (some c)
  | .ok => do
    let c ← newConn host port none
    pure (some c)

/-- `redisReconnect`: the old session, with everything it owed, is gone. -/
def redisReconnect (c : ConnId) : Prog ω Unit := do
  let w ← get
  let r ← ask (H.reconnect · (w.peer c))
  modifyConn c fun conn => { conn with err := r, queue := [] }

/-- `redisFree`; freeing `NULL` does nothing.  What the connection owed is lost. -/
def redisFree (c : Option ConnId) : Prog ω Unit :=
  match c with
  | none => pure ()
  | some c => do
    modifyConn c fun conn => { conn with queue := [], alive := false }
    record (.closed c)

/-- `cc->ssl_init_fn`, the TLS handshake. -/
def sslInitFn (c : ConnId) : Prog ω Status := do
  let w ← get
  match ← ask (H.initSsl · (w.peer c)) with
  | none => pure .ok
  | some f => do
    modifyConn c fun conn => { conn with err := some f }
    pure .err

/-- `redisAppendCommand` and `redisAppendFormattedCommand`. -/
def redisAppendCommand (c : ConnId) (q : Sent) : Prog ω Status := do
  let w ← get
  match ← ask (H.append · (w.peer c) q) with
  | none => do
    modifyConn c fun conn => { conn with queue := conn.queue ++ [q] }
    record (.wrote c q)
    pure .ok
  | some f => do
    modifyConn c fun conn => { conn with err := some f }
    pure .err

/-- `redisBufferWrite`. -/
def redisBufferWrite (c : ConnId) : Prog ω Status := do
  let w ← get
  if (w.conns c).err.isSome then pure .err
  else
    match ← ask (H.flush · (w.peer c)) with
    | none => pure .ok
    | some f => do
      modifyConn c fun conn => { conn with err := some f }
      pure .err

/-- `redisGetReply`, called to obtain the answer to `awaited`; `none` is
`REDIS_ERR`. -/
def redisGetReply (c : ConnId) (awaited : Sent) : Prog ω (Option Answer) := do
  let w ← get
  if (w.conns c).err.isSome then pure none
  else
    match (w.conns c).queue with
    | [] => do
      let f ← ask (H.idle · (w.peer c))
      modifyConn c fun conn => { conn with err := some f }
      pure none
    | q :: rest => do
      match ← ask (H.reply · (w.peer c) q) with
      | .error f => do
        modifyConn c fun conn => { conn with err := some f }
        pure none
      | .ok r => do
        modifyConn c fun conn => { conn with queue := rest }
        record (.read c awaited q r)
        pure (some ⟨q, r⟩)

/-- `redisCommand`: append, then wait for the reply. -/
def redisCommand (c : ConnId) (q : Sent) : Prog ω (Option Answer) := do
  match ← redisAppendCommand H c q with
  | .err => pure none
  | .ok => redisGetReply H c q

/-! ## Errors on the context -/

/-- `__redisClusterSetError`. -/
def setError (type : Option Err) (str : ErrText) : Prog ω Unit :=
  modifyCc fun cc => { cc with err := type, errstr := str }

@[simp] theorem wp_setError (type : Option Err) (str : ErrText) (Q : Unit → World ω → Prop)
    (w : World ω) : wp (setError type str) Q w =
      Q () { w with cc := { w.cc with err := type, errstr := str } } := rfl

/-- `__redisClusterSetError(cc, c->err, c->errstr)`. -/
def copyError (c : ConnId) : Prog ω Unit := do
  let w ← get
  match (w.conns c).err with
  | none => setError none (.lit "")
  | some f => setError (some f.code) (ErrText.ofBytes f.str)

/-- `cc->err = 0` with an empty `errstr`. -/
def clearError : Prog ω Unit := setError none (.lit "")

/-- `REDIS_COMMAND_CLUSTER_SLOTS` or `REDIS_COMMAND_CLUSTER_NODES`, as
configured. -/
def Context.topologyQuery (cc : Context) : Sent :=
  if cc.routeUseSlots then .clusterSlots else .clusterNodes

/-- `authenticate`. -/
def authenticate (c : ConnId) : Prog ω Status := do
  let w ← get
  match w.cc.password with
  | none => pure .ok
  | some pw => do
    match ← redisCommand H c (.auth w.cc.username pw) with
    | none => do
      setError (some .other) (.lit "Command AUTH reply error (NULL)")
      pure .err
    | some a =>
      match a.reply with
      | .error str => do
        setError (some .other) (ErrText.ofBytes str)
        pure .err
      | _ => pure .ok

/-- `cc->ssl && cc->ssl_init_fn(c, cc->ssl) != REDIS_OK`, with the error copied
to the context. -/
def startTls (c : ConnId) : Prog ω Status := do
  let w ← get
  if w.cc.ssl then
    match ← sslInitFn H c with
    | .ok => pure .ok
    | .err => do
      copyError c
      pure .err
  else pure .ok

/-! ## A scripted environment -/

/-- An environment that gives prepared replies one after the other, whoever is
asked, and then closes the connection; nothing else fails. -/
def Hiredis.scripted : Hiredis (List Reply) where
  connect env _ _ := (.ok, env)
  reconnect env _ := (none, env)
  initSsl env _ := (none, env)
  append env _ _ := (none, env)
  flush env _ := (none, env)
  reply env _ _ :=
    match env with
    | [] => (.error ⟨.eof, ascii "Server closed the connection"⟩, [])
    | r :: rest => (.ok r, rest)
  idle env _ := (⟨.timeout, ascii "Resource temporarily unavailable"⟩, env)
  asyncConnect env _ _ := (.ok, env)
  submit env _ _ := (.accepted, env)
  attach env _ := (true, env)
  now env := (0, env)
  random env := (0, env)
