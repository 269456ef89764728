/-
# What each routine may change

The routing state of a client is its node set `cc->nodes` and its slot table
`cc->table`.  Three relations say how much of it a routine can move:

* `Advance` — node objects are only added, and an object's endpoint is fixed at
  its creation; the asynchronous bookkeeping is untouched.  Every blocking
  routine advances;
* `Linking` — besides, the node set, the table and the settings stay, and a node
  keeps the connection it has (but may get its first one);
* `Calm` — besides, no node gets a connection.  Everything that talks to a
  connection or parses a topology is calm; only installing a parsed topology and
  following a redirect are not.
-/
import HiredisCluster.Slotmap
import Mathlib.Data.Nat.Basic

open Program

variable {ω : Type}

/-- The part of a node that is fixed when it is created. -/
def Node.endpoint (n : Node) : Bytes × Bytes × ℕ := (n.addr, n.host, n.port)

theorem Node.addr_of_endpoint {a b : Node} (h : a.endpoint = b.endpoint) : a.addr = b.addr :=
  congrArg Prod.fst h

theorem Node.port_of_endpoint {a b : Node} (h : a.endpoint = b.endpoint) : a.port = b.port :=
  congrArg (fun x => x.2.2) h

/-- The context without its errors and its routing state: what only the user and
the command loop change. -/
def Context.settings (cc : Context) : Context :=
  { cc with
    err := none, errstr := .lit "", nodes := none, table := none, routeVersion := 0
    needUpdateRoute := false }

/-- Every connection of a node exists, and belongs to no other node. -/
structure Wired (w : World ω) : Prop where
  lt : ∀ n c, (w.heap n).con = some c → c < w.nextConn
  inj : ∀ n n' c, (w.heap n).con = some c → (w.heap n').con = some c → n = n'

/-! ## Relations between the state before and after -/

/-- What every blocking routine respects. -/
structure Advance (w w' : World ω) : Prop where
  nextNode : w.nextNode ≤ w'.nextNode
  endpoint : ∀ n < w.nextNode, (w'.heap n).endpoint = (w.heap n).endpoint
  acc : w'.acc = w.acc
  inflight : w'.inflight = w.inflight
  cads : w'.cads = w.cads ∧ w'.nextCad = w.nextCad
  nextAConn : w'.nextAConn = w.nextAConn
  settings : w'.cc.settings = w.cc.settings
  nextConn : w.nextConn ≤ w'.nextConn
  wired : Wired w → Wired w'
  trace : ∃ new, w'.trace = w.trace ++ new

/-- Events that say nothing about the command loop, and that show the user the
routing state of `w`. -/
def Routine (w : World ω) : Event → Prop
  | .lookup _ _ => False
  | .deferred _ _ => False
  | .stored _ _ => False
  | .callback v =>
    v.nodes = w.cc.nodes ∧ v.table = w.cc.table ∧
      ∀ n < w.nextNode, v.addrOf n = (w.heap n).addr
  | _ => True

/-- The routing state stays, and nodes keep the connection they have. -/
structure Linking (w w' : World ω) : Prop where
  nextNode : w.nextNode ≤ w'.nextNode
  endpoint : ∀ n < w.nextNode, (w'.heap n).endpoint = (w.heap n).endpoint
  acc : w'.acc = w.acc
  inflight : w'.inflight = w.inflight
  cads : w'.cads = w.cads ∧ w'.nextCad = w.nextCad
  nextAConn : w'.nextAConn = w.nextAConn
  cc : ∃ e s, w'.cc = { w.cc with err := e, errstr := s }
  nextConn : w.nextConn ≤ w'.nextConn
  wired : Wired w → Wired w'
  con : ∀ n < w.nextNode, ∀ c, (w.heap n).con = some c → (w'.heap n).con = some c
  trace : ∃ new, w'.trace = w.trace ++ new ∧ ∀ e ∈ new, Routine w e

/-- The routing state stays, and so do the connections of the nodes. -/
structure Calm (w w' : World ω) : Prop extends Linking w w' where
  conEq : ∀ n < w.nextNode, (w'.heap n).con = (w.heap n).con
  conOld : ∀ n c, (w'.heap n).con = some c → (w.heap n).con = some c

theorem Linking.advance {w w' : World ω} (h : Linking w w') : Advance w w' where
  nextNode := h.nextNode
  endpoint := h.endpoint
  acc := h.acc
  inflight := h.inflight
  cads := h.cads
  nextAConn := h.nextAConn
  settings := by
    obtain ⟨e, s, hcc⟩ := h.cc
    rw [hcc]
    rfl
  nextConn := h.nextConn
  wired := h.wired
  trace := let ⟨new, hnew, _⟩ := h.trace; ⟨new, hnew⟩

namespace Linking

variable {w w' : World ω} (h : Linking w w')
include h

theorem nodes : w'.cc.nodes = w.cc.nodes := by
  obtain ⟨e, s, hcc⟩ := h.cc
  rw [hcc]

theorem table : w'.cc.table = w.cc.table := by
  obtain ⟨e, s, hcc⟩ := h.cc
  rw [hcc]

theorem routeUseSlots : w'.cc.routeUseSlots = w.cc.routeUseSlots := by
  obtain ⟨e, s, hcc⟩ := h.cc
  rw [hcc]

theorem nodeList : w'.nodeList = w.nodeList := by
  simp only [World.nodeList, h.nodes]

theorem known {n : NodeId} : w'.Known n ↔ w.Known n := by
  simp only [World.Known, h.nodeList]

theorem routine {e : Event} (he : Routine w' e) : Routine w e := by
  cases e with
  | callback v =>
    obtain ⟨h1, h2, h3⟩ := he
    refine ⟨h1.trans h.nodes, h2.trans h.table, fun n hn => ?_⟩
    rw [h3 n (lt_of_lt_of_le hn h.nextNode)]
    exact Node.addr_of_endpoint (h.endpoint n hn)
  | lookup n k => exact he
  | deferred c k => exact he
  | stored s n => exact he
  | _ => trivial

end Linking

theorem Advance.refl (w : World ω) : Advance w w :=
  ⟨le_rfl, fun _ _ => rfl, rfl, rfl, ⟨rfl, rfl⟩, rfl, rfl, le_rfl, id, [],
    (List.append_nil _).symm⟩

theorem Advance.trans {w w' w'' : World ω} (h : Advance w w') (h' : Advance w' w'') :
    Advance w w'' := by
  obtain ⟨new, hnew⟩ := h.trace
  obtain ⟨new', hnew'⟩ := h'.trace
  refine ⟨Nat.le_trans h.nextNode h'.nextNode, fun n hn => ?_, h'.acc.trans h.acc,
    h'.inflight.trans h.inflight, ⟨h'.cads.1.trans h.cads.1, h'.cads.2.trans h.cads.2⟩,
    h'.nextAConn.trans h.nextAConn, h'.settings.trans h.settings, Nat.le_trans h.nextConn h'.nextConn,
    fun hw => h'.wired (h.wired hw), new ++ new', ?_⟩
  · rw [h'.endpoint n (lt_of_lt_of_le hn h.nextNode), h.endpoint n hn]
  · rw [hnew', hnew, List.append_assoc]

theorem Linking.refl (w : World ω) : Linking w w where
  nextNode := le_rfl
  endpoint _ _ := rfl
  acc := rfl
  inflight := rfl
  cads := ⟨rfl, rfl⟩
  nextAConn := rfl
  cc := ⟨w.cc.err, w.cc.errstr, rfl⟩
  nextConn := le_rfl
  wired := id
  con _ _ _ h := h
  trace := ⟨[], (List.append_nil _).symm, by simp⟩

theorem Linking.trans {w w' w'' : World ω} (h : Linking w w') (h' : Linking w' w'') :
    Linking w w'' := by
  have ha := h.advance.trans h'.advance
  obtain ⟨e, s, hcc⟩ := h.cc
  obtain ⟨e', s', hcc'⟩ := h'.cc
  obtain ⟨new, hnew, hr⟩ := h.trace
  obtain ⟨new', hnew', hr'⟩ := h'.trace
  refine ⟨ha.nextNode, ha.endpoint, ha.acc, ha.inflight, ha.cads, ha.nextAConn, ⟨e', s', ?_⟩,
    ha.nextConn, ha.wired, fun n hn c hc => ?_, new ++ new', ?_, fun ev hev => ?_⟩
  · rw [hcc', hcc]
  · exact h'.con n (lt_of_lt_of_le hn h.nextNode) c (h.con n hn c hc)
  · rw [hnew', hnew, List.append_assoc]
  · rcases List.mem_append.mp hev with hev | hev
    · exact hr ev hev
    · exact h.routine (hr' ev hev)

theorem Calm.refl (w : World ω) : Calm w w := ⟨Linking.refl w, fun _ _ => rfl, fun _ _ h => h⟩

theorem Calm.trans {w w' w'' : World ω} (h : Calm w w') (h' : Calm w' w'') : Calm w w'' := by
  refine ⟨h.toLinking.trans h'.toLinking, fun n hn => ?_,
    fun n c hc => h.conOld n c (h'.conOld n c hc)⟩
  rw [h'.conEq n (lt_of_lt_of_le hn h.nextNode), h.conEq n hn]

instance : Std.Refl (@Advance ω) := ⟨Advance.refl⟩

instance : IsTrans (World ω) Advance := ⟨fun _ _ _ => Advance.trans⟩

instance : Std.Refl (@Linking ω) := ⟨Linking.refl⟩

instance : IsTrans (World ω) Linking := ⟨fun _ _ _ => Linking.trans⟩

instance : Std.Refl (@Calm ω) := ⟨Calm.refl⟩

instance : IsTrans (World ω) Calm := ⟨fun _ _ _ => Calm.trans⟩

/-! ## Calm routines: the primitives -/

/-- Connections may be handed over from node to node. -/
theorem Wired.of_perm {w w' : World ω} (h : Wired w) {σ : NodeId → NodeId}
    (hσ : Function.Injective σ) (hcon : ∀ n, (w'.heap n).con = (w.heap (σ n)).con)
    (hnext : w.nextConn ≤ w'.nextConn) : Wired w' where
  lt n c hc := lt_of_lt_of_le (h.lt (σ n) c ((hcon n).symm.trans hc)) hnext
  inj n n' c hc hc' := hσ (h.inj (σ n) (σ n') c ((hcon n).symm.trans hc) ((hcon n').symm.trans hc'))

theorem Wired.of_con {w w' : World ω} (h : Wired w)
    (hcon : ∀ n, (w'.heap n).con = (w.heap n).con) (hnext : w.nextConn ≤ w'.nextConn) :
    Wired w' :=
  h.of_perm Function.injective_id hcon hnext

theorem calm_of_world {w w' : World ω} (hheap : w'.heap = w.heap)
    (hnext : w'.nextNode = w.nextNode) (hconn : w.nextConn ≤ w'.nextConn)
    (hcc : ∃ e s, w'.cc = { w.cc with err := e, errstr := s })
    (hacc : w'.acc = w.acc) (hin : w'.inflight = w.inflight)
    (hcads : w'.cads = w.cads ∧ w'.nextCad = w.nextCad) (haconn : w'.nextAConn = w.nextAConn)
    (htrace : ∃ new, w'.trace = w.trace ++ new ∧ ∀ e ∈ new, Routine w e) : Calm w w' where
  nextNode := by omega
  endpoint n _ := by rw [hheap]
  acc := hacc
  inflight := hin
  cads := hcads
  nextAConn := haconn
  cc := hcc
  nextConn := hconn
  wired h := h.of_con (fun n => by rw [hheap]) hconn
  con n _ c hc := by rw [hheap]; exact hc
  trace := htrace
  conEq n _ := by rw [hheap]
  conOld n c hc := by rw [← hheap]; exact hc

theorem noEvents (w : World ω) : ∃ new, w.trace = w.trace ++ new ∧ ∀ e ∈ new, Routine w e :=
  ⟨[], (List.append_nil _).symm, by simp⟩

theorem calm_ask {α : Type} (f : ω → α × ω) : Within Calm (ask f) := fun w =>
  calm_of_world rfl rfl le_rfl ⟨_, _, rfl⟩ rfl rfl ⟨rfl, rfl⟩ rfl (noEvents w)

theorem calm_modifyConn (c : ConnId) (f : Conn → Conn) :
    Within Calm (modifyConn c f : Prog ω Unit) := fun w =>
  calm_of_world rfl rfl le_rfl ⟨_, _, rfl⟩ rfl rfl ⟨rfl, rfl⟩ rfl (noEvents w)

theorem calm_newConn (host : Bytes) (port : ℕ) (err : Option Fault) :
    Within Calm (newConn host port err : Prog ω ConnId) := fun w =>
  calm_of_world rfl rfl (Nat.le_succ _) ⟨_, _, rfl⟩ rfl rfl ⟨rfl, rfl⟩ rfl (noEvents w)

theorem calm_setError (type : Option Err) (str : ErrText) :
    Within Calm (setError type str : Prog ω Unit) := fun w =>
  calm_of_world rfl rfl le_rfl ⟨_, _, rfl⟩ rfl rfl ⟨rfl, rfl⟩ rfl (noEvents w)

theorem calm_record {w : World ω} {e : Event} (he : Routine w e) : Calm w (record e w).2 :=
  calm_of_world rfl rfl le_rfl ⟨_, _, rfl⟩ rfl rfl ⟨rfl, rfl⟩ rfl ⟨[e], rfl, by simpa using he⟩

theorem calm_userHook : Within Calm (userHook : Prog ω Unit) := fun _ =>
  calm_record ⟨rfl, rfl, fun _ _ => rfl⟩

theorem calm_newNode {node : Node} (hcon : node.con = none) :
    Within Calm (newNode node : Prog ω NodeId) := fun w => by
  have hne : ∀ n < w.nextNode, n ≠ w.nextNode := fun n hn => ne_of_lt hn
  have hwired : ∀ n c, (Function.update w.heap w.nextNode node n).con = some c →
      (w.heap n).con = some c := by
    intro n c hc
    rcases eq_or_ne n w.nextNode with rfl | hn
    · rw [Function.update_self, hcon] at hc
      cases hc
    · rwa [Function.update_of_ne hn] at hc
  refine ⟨⟨Nat.le_succ _, fun n hn => ?_, rfl, rfl, ⟨rfl, rfl⟩, rfl, ⟨_, _, rfl⟩, le_rfl, fun hw => ?_,
    fun n hn c hc => ?_, noEvents w⟩, fun n hn => ?_, hwired⟩
  · simp only [newNode, Function.update_of_ne (hne n hn)]
  · exact ⟨fun n c hc => hw.lt n c (hwired n c hc),
      fun n n' c hc hc' => hw.inj n n' c (hwired n c hc) (hwired n' c hc')⟩
  · simpa only [newNode, Function.update_of_ne (hne n hn)] using hc
  · simp only [newNode, Function.update_of_ne (hne n hn)]

/-- Changes to a node that leave its endpoint and its connection alone. -/
theorem calm_modifyNode (n : NodeId) {f : Node → Node}
    (hf : ∀ node, (f node).endpoint = node.endpoint ∧ (f node).con = node.con) :
    Within Calm (modifyNode n f : Prog ω Unit) := fun w => by
  have hsame : ∀ m, ((Function.update w.heap n (f (w.heap n))) m).endpoint =
      (w.heap m).endpoint ∧ ((Function.update w.heap n (f (w.heap n))) m).con = (w.heap m).con := by
    intro m
    rcases eq_or_ne m n with rfl | hm
    · rw [Function.update_self]
      exact hf _
    · rw [Function.update_of_ne hm]
      exact ⟨rfl, rfl⟩
  exact ⟨⟨le_rfl, fun m _ => (hsame m).1, rfl, rfl, ⟨rfl, rfl⟩, rfl, ⟨_, _, rfl⟩, le_rfl,
    fun hw => hw.of_con (fun m => (hsame m).2) le_rfl,
    fun m _ c hc => ((hsame m).2.trans hc), noEvents w⟩, fun m _ => (hsame m).2,
    fun m c hc => (hsame m).2.symm.trans hc⟩

theorem calm_detachAsync (acon : Option AConnId) :
    Within Calm (detachAsync acon : Prog ω Unit) := by
  cases acon with
  | none => exact within_pure _
  | some a => exact fun w => calm_of_world rfl rfl le_rfl ⟨_, _, rfl⟩ rfl rfl ⟨rfl, rfl⟩ rfl (noEvents w)

/-! ## Talking over a connection

hiredis calls ask the environment, edit a blocking connection, and are remembered:
whatever these few operations respect, all of them respect. -/

/-- Relations that are respected by setting the error of the context. -/
class ErrorClosed (R : World ω → World ω → Prop) : Prop extends
    Std.Refl R, IsTrans (World ω) R where
  setError : ∀ (type : Option Err) (str : ErrText), Within R (setError type str)

section Errors

variable {R : World ω → World ω → Prop} [ErrorClosed R]

theorem within_copyError (c : ConnId) : Within R (copyError c : Prog ω Unit) := by
  refine within_bind within_get fun w => ?_
  cases (w.conns c).err with
  | none => exact ErrorClosed.setError _ _
  | some f => exact ErrorClosed.setError _ _

theorem within_topologyReadError (c : ConnId) (what : String) :
    Within R (topologyReadError c what : Prog ω Unit) :=
  within_bind within_get fun _ => within_ite (ErrorClosed.setError _ _) (ErrorClosed.setError _ _)

theorem within_nodeGetByTable (slot : ℕ) : Within R (nodeGetByTable slot : Prog ω _) := by
  refine within_bind within_get fun w => within_ite ?_ ?_
  · exact within_bind (ErrorClosed.setError _ _) fun _ => within_pure _
  · split
    · exact within_bind (ErrorClosed.setError _ _) fun _ => within_pure _
    · split
      · exact within_bind (ErrorClosed.setError _ _) fun _ => within_pure _
      · exact within_pure _

end Errors

/-- Relations that are respected by what a conversation is made of. -/
class TalkClosed (R : World ω → World ω → Prop) : Prop extends
    Std.Refl R, IsTrans (World ω) R where
  ask : ∀ {α : Type} (f : ω → α × ω), Within R (ask f)
  modifyConn : ∀ (c : ConnId) (f : Conn → Conn), Within R (modifyConn c f)
  newConn : ∀ (host : Bytes) (port : ℕ) (err : Option Fault), Within R (newConn host port err)
  setError : ∀ (type : Option Err) (str : ErrText), Within R (setError type str)
  wroteOwn : ∀ (c : ConnId) {q : Sent}, q.isCommand = false → Within R (record (.wrote c q))
  read : ∀ (c : ConnId) (q q' : Sent) (r : Reply), Within R (record (.read c q q' r))
  closed : ∀ c : ConnId, Within R (record (.closed c))
  userHook : Within R userHook

/-- Relations that are also respected by what sending a command of the user is made of. -/
class CommandClosed (R : World ω → World ω → Prop) : Prop extends TalkClosed R where
  wrote : ∀ (c : ConnId) (q : Sent), Within R (record (.wrote c q))

instance : CommandClosed (@Calm ω) where
  ask := calm_ask
  modifyConn := calm_modifyConn
  newConn := calm_newConn
  setError := calm_setError
  wroteOwn _ _ _ _ := calm_record trivial
  wrote _ _ _ := calm_record trivial
  read _ _ _ _ _ := calm_record trivial
  closed _ _ := calm_record trivial
  userHook := calm_userHook

/-- A calm call, to be used at its state. -/
theorem calmly {α : Type} {m : Prog ω α} (h : Within Calm m) (w : World ω) :
    wp m (fun _ w' => Calm w w') w :=
  h w

section Calls

variable (H : Hiredis ω) {R : World ω → World ω → Prop} [TalkClosed R]

instance : ErrorClosed R := ⟨TalkClosed.setError⟩

theorem within_redisConnectWithOptions (host : Bytes) (port : ℕ) :
    Within R (redisConnectWithOptions H host port) := by
  refine within_bind (TalkClosed.ask _) fun r => ?_
  cases r with
  | oom => exact within_pure _
  | failed f => exact within_bind (TalkClosed.newConn _ _ _) fun _ => within_pure _
  | ok => exact within_bind (TalkClosed.newConn _ _ _) fun _ => within_pure _

theorem within_redisReconnect (c : ConnId) : Within R (redisReconnect H c) :=
  within_bind within_get fun _ => within_bind (TalkClosed.ask _) fun _ => TalkClosed.modifyConn _ _

theorem within_redisFree (c : Option ConnId) : Within R (redisFree c : Prog ω Unit) := by
  cases c with
  | none => exact within_pure _
  | some c => exact within_bind (TalkClosed.modifyConn _ _) fun _ => TalkClosed.closed _

theorem within_sslInitFn (c : ConnId) : Within R (sslInitFn H c) := by
  refine within_bind within_get fun w => within_bind (TalkClosed.ask _) fun r => ?_
  cases r with
  | none => exact within_pure _
  | some f => exact within_bind (TalkClosed.modifyConn _ _) fun _ => within_pure _

theorem within_redisAppendCommand_of_wrote (c : ConnId) {q : Sent}
    (hq : Within R (record (.wrote c q))) : Within R (redisAppendCommand H c q) := by
  refine within_bind within_get fun w => within_bind (TalkClosed.ask _) fun r => ?_
  cases r with
  | none =>
    exact within_bind (TalkClosed.modifyConn _ _) fun _ => within_bind hq fun _ => within_pure _
  | some f => exact within_bind (TalkClosed.modifyConn _ _) fun _ => within_pure _

/-- A command of the client's own. -/
theorem within_redisAppendCommand_own (c : ConnId) {q : Sent} (hq : q.isCommand = false) :
    Within R (redisAppendCommand H c q) :=
  within_redisAppendCommand_of_wrote H c (TalkClosed.wroteOwn c hq)

theorem within_redisAppendCommand {R : World ω → World ω → Prop} [CommandClosed R] (c : ConnId)
    (q : Sent) : Within R (redisAppendCommand H c q) :=
  within_redisAppendCommand_of_wrote H c (CommandClosed.wrote c q)

theorem within_redisBufferWrite (c : ConnId) : Within R (redisBufferWrite H c) := by
  refine within_bind within_get fun w => within_ite (within_pure _) ?_
  refine within_bind (TalkClosed.ask _) fun r => ?_
  cases r with
  | none => exact within_pure _
  | some f =>
    exact within_bind (TalkClosed.modifyConn _ _) fun _ => within_pure _

theorem within_redisGetReply (c : ConnId) (awaited : Sent) :
    Within R (redisGetReply H c awaited) := by
  refine within_bind within_get fun w => within_ite (within_pure _) ?_
  cases (w.conns c).queue with
  | nil =>
    exact within_bind (TalkClosed.ask _) fun _ =>
      within_bind (TalkClosed.modifyConn _ _) fun _ => within_pure _
  | cons q rest =>
    refine within_bind (TalkClosed.ask _) fun r => ?_
    cases r with
    | error f => exact within_bind (TalkClosed.modifyConn _ _) fun _ => within_pure _
    | ok r =>
      exact within_bind (TalkClosed.modifyConn _ _) fun _ =>
        within_bind (TalkClosed.read _ _ _ _) fun _ => within_pure _

theorem within_redisCommand (c : ConnId) {q : Sent} (hq : q.isCommand = false) :
    Within R (redisCommand H c q) := by
  refine within_bind (within_redisAppendCommand_own H c hq) fun r => ?_
  cases r with
  | err => exact within_pure _
  | ok => exact within_redisGetReply H c q

theorem topologyQuery_own (cc : Context) : cc.topologyQuery.isCommand = false := by
  unfold Context.topologyQuery
  split
  · rfl
  · rfl

theorem within_authenticate (c : ConnId) : Within R (authenticate H c) := by
  refine within_bind within_get fun w => ?_
  cases w.cc.password with
  | none => exact within_pure _
  | some pw =>
    refine within_bind (within_redisCommand H c rfl) fun r => ?_
    cases r with
    | none => exact within_bind (TalkClosed.setError _ _) fun _ => within_pure _
    | some a =>
      cases a with
      | mk q reply =>
        cases reply with
        | error str => exact within_bind (TalkClosed.setError _ _) fun _ => within_pure _
        | _ => exact within_pure _

theorem within_startTls (c : ConnId) : Within R (startTls H c) := by
  refine within_bind within_get fun w => within_ite ?_ (within_pure _)
  refine within_bind (within_sslInitFn H c) fun r => ?_
  cases r with
  | ok => exact within_pure _
  | err => exact within_bind (within_copyError c) fun _ => within_pure _

theorem within_clusterUpdateRouteSendCommand (c : ConnId) :
    Within R (clusterUpdateRouteSendCommand H c) := by
  refine within_bind within_get fun w =>
    within_bind (within_redisAppendCommand_own H c (topologyQuery_own _)) fun r => ?_
  cases r with
  | err =>
    exact within_bind within_get fun _ => within_bind (TalkClosed.setError _ _) fun _ => within_pure _
  | ok => exact within_redisBufferWrite H c

theorem within_reconnectNode (c : ConnId) : Within R (reconnectNode H c) :=
  within_bind (within_redisReconnect H c) fun _ => within_bind TalkClosed.userHook fun _ =>
    within_bind (within_startTls H c) fun _ => within_bind (within_authenticate H c) fun _ =>
      within_pure _

end Calls

theorem within_forEach {α : Type} {R : World ω → World ω → Prop} [Std.Refl R]
    [IsTrans (World ω) R] {f : α → Prog ω Unit} (hf : ∀ x, Within R (f x)) (l : List α) :
    Within R (forEach f l) := by
  induction l with
  | nil => exact within_pure _
  | cons x xs ih => exact within_bind (hf x) fun _ => ih

/-! ## Parsing a topology

Parsing creates nodes, edits them and releases them, and no more: whatever these
few operations respect, the whole parse respects. -/

/-- Relations that are respected by what a parse is made of. -/
class ParseClosed (R : World ω → World ω → Prop) : Prop extends
    Std.Refl R, IsTrans (World ω) R where
  setError : ∀ (type : Err) (str : ErrText), Within R (setError (some type) str)
  redisFree : ∀ c : Option ConnId, Within R (redisFree c)
  detachAsync : ∀ a : Option AConnId, Within R (detachAsync a)
  released : ∀ n : NodeId, Within R (record (.released n))
  newNode : ∀ {node : Node}, node.con = none → Within R (newNode node)
  editNode : ∀ (n : NodeId) {f : Node → Node},
    (∀ node, (f node).endpoint = node.endpoint ∧ (f node).con = node.con) →
      Within R (modifyNode n f)

instance : ParseClosed (@Calm ω) where
  setError type := calm_setError (some type)
  redisFree := within_redisFree
  detachAsync := calm_detachAsync
  released _ _ := calm_record trivial
  newNode := calm_newNode
  editNode := calm_modifyNode

section Parsing

variable {R : World ω → World ω → Prop} [ParseClosed R]

theorem within_freeLoneNode (n : NodeId) : Within R (freeLoneNode n : Prog ω Unit) :=
  within_bind within_get fun _ => within_bind (ParseClosed.redisFree _) fun _ =>
    within_bind (ParseClosed.detachAsync _) fun _ => ParseClosed.released _

theorem within_freeRedisClusterNode (n : NodeId) :
    Within R (freeRedisClusterNode n : Prog ω Unit) :=
  within_bind within_get fun _ => within_bind (within_freeLoneNode _) fun _ =>
    within_forEach within_freeLoneNode _

theorem within_dictRelease (nodes : NodeDict) : Within R (dictRelease nodes : Prog ω Unit) :=
  within_forEach within_freeRedisClusterNode _

theorem within_parseFailed (nodes : NodeDict) (e : Complaint) :
    Within R (parseFailed nodes e : Prog ω _) :=
  within_bind (ParseClosed.setError _ _) fun _ => within_bind (within_dictRelease _) fun _ => within_pure _

theorem within_addSlotRange (n : NodeId) (r : SlotRange) :
    Within R (addSlotRange n r : Prog ω Unit) :=
  ParseClosed.editNode n fun _ => ⟨rfl, rfl⟩

theorem within_addSlave (master slave : NodeId) : Within R (addSlave master slave : Prog ω Unit) :=
  ParseClosed.editNode master fun _ => ⟨rfl, rfl⟩

theorem within_addOpenSlot (n : NodeId) (o : OpenSlot) :
    Within R (addOpenSlot n o : Prog ω Unit) :=
  ParseClosed.editNode n fun _ => by split <;> exact ⟨rfl, rfl⟩

theorem within_parseSlotsReplicas (tcpHost : Bytes) (master : NodeId) (l : List Reply) :
    Within R (parseSlotsReplicas tcpHost master l : Prog ω _) := by
  induction l with
  | nil => exact within_pure _
  | cons e es ih =>
    unfold parseSlotsReplicas
    cases slotsEndpoint tcpHost e with
    | error msg => exact within_pure _
    | ok hp =>
      refine within_bind within_get fun w => within_ite ?_ ih
      exact within_bind (ParseClosed.newNode rfl) fun _ => within_bind (within_addSlave _ _) fun _ => ih

theorem within_parseSlotsRegion (tcpHost : Bytes) (nodes : NodeDict) (r : Reply) :
    Within R (parseSlotsRegion tcpHost nodes r : Prog ω _) := by
  unfold parseSlotsRegion
  split
  · split
    · exact within_pure _
    · split
      · exact within_pure _
      · split
        · exact within_bind (within_addSlotRange _ _) fun _ => within_pure _
        · refine within_bind (ParseClosed.newNode rfl) fun m => ?_
          split
          · exact within_pure _
          · exact within_bind (within_addSlotRange _ _) fun _ =>
              within_bind (within_parseSlotsReplicas _ _ _) fun _ => within_pure _
  · exact within_pure _

theorem within_parseSlotsRegions (tcpHost : Bytes) (l : List Reply) :
    ∀ nodes, Within R (parseSlotsRegions tcpHost nodes l : Prog ω _) := by
  induction l with
  | nil => exact fun nodes => within_pure _
  | cons e es ih =>
    intro nodes
    refine within_bind (within_parseSlotsRegion _ _ _) fun r => ?_
    obtain ⟨nodes', _ | msg⟩ := r
    · exact ih nodes'
    · exact within_pure _

theorem within_parseClusterSlots (tcpHost : Bytes) (r : Reply) :
    Within R (parseClusterSlots tcpHost r : Prog ω _) := by
  unfold parseClusterSlots
  split
  · refine within_bind (within_parseSlotsRegions _ _ _) fun r => ?_
    obtain ⟨nodes', _ | msg⟩ := r
    · exact within_pure _
    · exact within_parseFailed _ _
  · exact within_parseFailed _ _

theorem within_clusterMasterSlaveMappingWithName (d : NodeDict) (n : NodeId) (name : Bytes) :
    Within R (clusterMasterSlaveMappingWithName d n name : Prog ω _) := by
  refine within_bind within_get fun w => ?_
  dsimp only
  split
  · split <;> exact within_pure _
  · split
    · exact within_pure _
    · exact within_bind (ParseClosed.editNode _ fun _ => ⟨rfl, rfl⟩) fun _ =>
        within_bind (ParseClosed.editNode _ fun _ => ⟨rfl, rfl⟩) fun _ => within_pure _
    · exact within_bind (within_addSlave _ _) fun _ => within_pure _

theorem within_parseSlotFields (master : NodeId) (l : List Bytes) :
    Within R (parseSlotFields master l : Prog ω _) := by
  induction l with
  | nil => exact within_pure _
  | cons field rest ih =>
    refine within_bind within_get fun w => ?_
    dsimp only
    split
    · exact within_bind (within_addOpenSlot _ _) fun _ => ih
    · refine within_ite ih ?_
      exact within_bind (within_addSlotRange _ _) fun _ => within_bind ih fun _ => within_pure _

theorem within_mapWithName (scan : NodesScan) (n : NodeId) (name : Bytes) :
    Within R (mapWithName scan n name : Prog ω _) := by
  refine within_bind (within_clusterMasterSlaveMappingWithName _ _ _) fun r => ?_
  cases r with
  | error msg => exact within_bind (within_freeRedisClusterNode _) fun _ => within_pure _
  | ok d => exact within_pure _

theorem nodeOfFields_con {tcpHost : Bytes} {part : List Bytes} {role : Role} {node : Node}
    (h : nodeOfFields tcpHost part role = .ok node) : node.con = none := by
  unfold nodeOfFields at h
  dsimp only at h
  split at h
  · cases h
  · split at h
    · cases h
    · split at h
      · obtain rfl := Except.ok.inj h
        rfl
      · obtain rfl := Except.ok.inj h
        rfl

theorem within_nodeGetWithNodes (tcpHost : Bytes) (part : List Bytes) (role : Role) :
    Within R (nodeGetWithNodes tcpHost part role : Prog ω _) := by
  unfold nodeGetWithNodes
  split
  · exact within_bind (ParseClosed.newNode rfl) fun _ =>
      within_bind (within_freeRedisClusterNode _) fun _ => within_pure _
  · exact within_bind (ParseClosed.newNode (nodeOfFields_con ‹_›)) fun _ => within_pure _

theorem within_parseMasterLine (tcpHost : Bytes) (scan : NodesScan) (part : List Bytes) :
    Within R (parseMasterLine tcpHost scan part : Prog ω _) := by
  refine within_bind (within_nodeGetWithNodes _ _ _) fun r => ?_
  obtain msg | ⟨master, node⟩ := r
  · exact within_pure _
  · dsimp only
    split
    · exact within_bind (within_freeRedisClusterNode _) fun _ => within_pure _
    · refine within_bind within_get fun w => within_ite ?_ ?_
      · refine within_bind (within_mapWithName _ _ _) fun r => ?_
        obtain ⟨scan', _ | msg⟩ := r
        · exact within_bind (within_parseSlotFields _ _) fun _ => within_pure _
        · exact within_pure _
      · exact within_bind (within_parseSlotFields _ _) fun _ => within_pure _

theorem within_parseSlaveLine (tcpHost : Bytes) (scan : NodesScan) (part : List Bytes) :
    Within R (parseSlaveLine tcpHost scan part : Prog ω _) := by
  refine within_bind (within_nodeGetWithNodes _ _ _) fun r => ?_
  obtain msg | ⟨slave, node⟩ := r
  · exact within_pure _
  · exact within_mapWithName _ _ _

theorem within_parseNodesLine (tcpHost : Bytes) (scan : NodesScan) (line : Bytes) :
    Within R (parseNodesLine tcpHost scan line : Prog ω _) := by
  refine within_bind within_get fun w => ?_
  refine within_ite (within_pure _) (within_ite (within_pure _) (within_ite ?_ (within_ite ?_ ?_)))
  · exact within_parseMasterLine _ _ _
  · exact within_parseSlaveLine _ _ _
  · exact within_pure _

theorem within_parseNodesLines (tcpHost : Bytes) (l : List Bytes) :
    ∀ scan, Within R (parseNodesLines tcpHost scan l : Prog ω _) := by
  induction l with
  | nil => exact fun scan => within_pure _
  | cons line rest ih =>
    intro scan
    refine within_bind (within_parseNodesLine _ _ _) fun r => ?_
    obtain ⟨scan', _ | msg⟩ := r
    · exact ih scan'
    · exact within_pure _

theorem within_parseClusterNodes (tcpHost : Bytes) (r : Reply) :
    Within R (parseClusterNodes tcpHost r : Prog ω _) := by
  refine within_bind (within_parseNodesLines _ _ _) fun r => ?_
  obtain ⟨scan, _ | msg⟩ := r
  · exact within_ite (within_parseFailed _ _) (within_pure _)
  · exact within_parseFailed _ _

end Parsing
