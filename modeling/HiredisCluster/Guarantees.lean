/-
# What holds in every reachable state

The results about single calls and pipelines, for every client that can be reached by
calls of the library, by what hiredis does, and by calls from user callbacks.
-/
import HiredisCluster.Client
import HiredisCluster.Staleness
import HiredisCluster.Ordering

open Program

variable {ω : Type}

/-! ## The slot table -/

/-- **The slot table only refers to known nodes**, now and in every state that user code
has seen: a node that serves a slot is filed in the node set under its own address, and
the node set has at most one node for each address. -/
theorem Reachable.table_known {H : Hiredis ω} {c : Client ω} (h : Reachable H c) {v : View}
    (hv : v = c.world.view ∨ .callback v ∈ c.world.trace) :
    (∀ t, v.table = some t → ∀ s n, t s = some n →
      ∃ d, v.nodes = some d ∧ d.find (v.addrOf n) = some n) ∧
    (∀ d, v.nodes = some d → ∀ k n k' n', (k, n) ∈ d.entries → (k', n') ∈ d.entries →
      v.addrOf n = v.addrOf n' → n = n') := by
  have ho := (Reaches.ordered H h).routed
  have hr : v.Routed := by
    rcases hv with rfl | hv
    · exact ho.view
    · exact ho.shown v hv
  refine ⟨hr.table, fun d hd k n k' n' hn hn' haddr => ?_⟩
  exact (Prod.mk.inj (hr.unique hd hn hn' haddr)).2

/-- After a topology was read, slot 7629 refers to the node at `a:1`. -/
theorem Reachable.table_known_connected :
    ∃ d t, (connectedClient Hiredis.scripted [topologyOfK]).world.cc.nodes = some d ∧
      (connectedClient Hiredis.scripted [topologyOfK]).world.cc.table = some t ∧
      t 7629 = some 1 ∧ d.find (ascii "a:1") = some 1 := by
  have hreach := reachable_connectedClient Hiredis.scripted [topologyOfK] (by decide +kernel)
  have hslot : ((connectedClient Hiredis.scripted [topologyOfK]).world.cc.table.bind
      fun t => t 7629) = some 1 := by decide +kernel
  have haddr : ((connectedClient Hiredis.scripted [topologyOfK]).world.heap 1).addr =
      ascii "a:1" := by decide +kernel
  generalize connectedClient Hiredis.scripted [topologyOfK] = c at hreach hslot haddr ⊢
  obtain ⟨t, ht, hts⟩ := Option.bind_eq_some_iff.mp hslot
  obtain ⟨d, hd, hfind⟩ := (Reachable.table_known hreach (Or.inl rfl)).1 t ht 7629 1 hts
  exact ⟨d, t, hd, ht, hts, by rw [← haddr]; exact hfind⟩

/-! ## Stale nodes -/

/-- **No stale node is used while a command executes**, if no MOVED makes the loop
replace the node set before it follows the redirect. -/
theorem Reachable.noStaleNode {H : Hiredis ω} {c : Client ω} (h : Reachable H c) (cmd : Cmd)
    (hg : ∀ k, NotReplaced H (execAt H cmd c.world k)) : NoStaleNode H cmd c.world :=
  noStaleNode_of_notReplaced H cmd (Reaches.ordered H h) hg

/-- `GET k`, with its slot. -/
def getKCmd : Cmd := { id := 1, cmd := getK, slotNum := 7629 }

/-- A MOVED whose topology query is sent to the node that redirected. -/
theorem Reachable.noStaleNode_moved :
    NoStaleNode Hiredis.scripted getKCmd
      (connectedClient Hiredis.scripted [topologyOfK, .error (ascii "MOVED 7629 b:2"),
        .string (ascii "v"), topologyOfK]).world :=
  Reachable.noStaleNode (reachable_connectedClient _ _ (by decide +kernel)) getKCmd
    (execAt_forall (P := fun s => NotReplaced Hiredis.scripted s) _ 6 (by decide +kernel)
      (by decide +kernel))

/-- The connection of the first node cannot be flushed. -/
def flushFails : Hiredis (List Reply) :=
  { Hiredis.scripted with
    flush := fun env p =>
      if p.id = 1 then (some ⟨.io, ascii "Connection reset by peer"⟩, env) else (none, env) }

/-- **After a MOVED, the node set is replaced and the redirect is followed to a node that
was released.** -/
theorem movedThenUpdated_stale :
    ¬ NoStaleNode flushFails getKCmd
      (connectedClient flushFails
        [topologyOfK, .error (ascii "MOVED 7629 b:2"), topologyOfK]).world := by
  have hstale : ((redisClusterCommandExecute flushFails getKCmd (connectedClient flushFails
      [topologyOfK, .error (ascii "MOVED 7629 b:2"), topologyOfK]).world).2.trace.any fun
      | .lookup _ known => !known
      | _ => false) = true := by decide +kernel
  have hbefore : ((connectedClient flushFails
      [topologyOfK, .error (ascii "MOVED 7629 b:2"), topologyOfK]).world.trace.any fun
      | .lookup _ known => !known
      | _ => false) = false := by decide +kernel
  generalize (connectedClient flushFails
    [topologyOfK, .error (ascii "MOVED 7629 b:2"), topologyOfK]).world = w at hstale hbefore ⊢
  rintro ⟨new, hnew, hlookup, -⟩
  rw [hnew, List.any_append, hbefore, Bool.false_or] at hstale
  obtain ⟨e, he, hk⟩ := List.any_eq_true.mp hstale
  cases e with
  | lookup n known =>
    rw [hlookup n known he] at hk
    cases hk
  | _ => cases hk

/-! ## Pipelines -/

/-- No request is listed, and on every connection of a node that is in no error, as many
replies were read as commands were written. -/
def Resynchronised (w : World ω) : Prop :=
  w.cc.requests.getD [] = [] ∧
    ∀ n c, w.Known n → (w.heap n).con = some c → (w.conns c).err = none → (w.conns c).queue = []

/-- **Reset resynchronises the client after a pipeline**, if no call of the pipeline has
left a reply behind, or an error is set when it is called. -/
theorem Reachable.reset_resynchronises {H : Hiredis ω} {c : Client ω} (h : Reachable H c)
    (hs : InStep c.world) {ops : List PipeOp} (hk : ∀ op ∈ ops, op.Known c.world)
    (ht : tidy H ops c.world = true ∨ (pipeline H ops c.world).cc.err ≠ none) :
    Resynchronised (redisClusterReset H (pipeline H ops c.world)).2 := by
  have hstep := inStep_of_tidy H (Reaches.ordered H h) hs hk ht
  exact ⟨hstep.1, fun _ c _ _ herr => hstep.2 c herr⟩

/-- The command `MGET k a`, for two slots. -/
def mgetKA : Bytes := ascii "*3\r\n$4\r\nMGET\r\n$1\r\nk\r\n$1\r\na\r\n"

/-- A client is in step once it is connected. -/
theorem inStep_connectedClient (H : Hiredis ω) (env : ω)
    (hreq : (connectedClient H env).world.cc.requests = none) :
    InStep (connectedClient H env).world := by
  have hw : (connectedClient H env).world = (redisClusterUpdateSlotmap H
      (redisClusterSetOptionAddNode (ascii "a:1") (newClient env).world).2).2 := rfl
  refine ⟨by rw [hreq]; rfl, fun c => ?_⟩
  have hadd := learns_redisClusterSetOptionAddNode (ascii "a:1") (newClient env).world
  rw [hw]
  generalize redisClusterSetOptionAddNode (ascii "a:1") (newClient env).world = t at hadd
  rcases (settles_redisClusterUpdateSlotmap H t.2).conns c with hc | hc
  · unfold Idle
    rw [hc, hadd.conns]
    exact fun _ => rfl
  · exact hc

/-- Two nodes, each of which serves one of the slots of `MGET k a`. -/
def topologyOfTwo : Reply :=
  .string (ascii "i a:1 master - 0 0 1 connected 7629\nj b:2 master - 0 0 1 connected 15495\n")

/-- A client of two nodes, and the replies to `GET k`, to the parts of `MGET k a` and to another
`GET k`. -/
def twoNodes : Client (List Reply) :=
  connectedClient Hiredis.scripted [topologyOfTwo, .string (ascii "v"), .array [.string (ascii "v")],
    .array [.string (ascii "u")], .string (ascii "w")]

theorem reachable_twoNodes : Reachable Hiredis.scripted twoNodes :=
  reachable_connectedClient _ _ (by decide +kernel)

theorem inStep_twoNodes : InStep twoNodes.world := inStep_connectedClient _ _ (by decide +kernel)

/-- One command is read, and two for several nodes are not. -/
theorem Reachable.reset_resynchronises_append :
    Resynchronised (redisClusterReset Hiredis.scripted (pipeline Hiredis.scripted
      [.append getK, .append mgetKA, .getReply, .appendToNode 2 getK] twoNodes.world)).2 := by
  have hknown : twoNodes.world.Known 2 := by decide +kernel
  exact Reachable.reset_resynchronises reachable_twoNodes inStep_twoNodes
    (by simp [PipeOp.Known, hknown]) (Or.inl (by decide +kernel))

/-- Whatever is appended and read, a reset resynchronises the client. -/
def ResetResynchronises (H : Hiredis ω) (w : World ω) : Prop :=
  ∀ ops : List PipeOp, (∀ op ∈ ops, op.Known w) →
    Resynchronised (redisClusterReset H (pipeline H ops w)).2

/-- **A multi-slot command that is appended in part leaves a reply behind** that a reset
does not read, once the next read has cleared the error. -/
theorem partialAppend_not_resynchronised :
    Reachable Hiredis.scripted (connectedClient Hiredis.scripted [topologyOfK]) ∧
      InStep (connectedClient Hiredis.scripted [topologyOfK]).world ∧
      ¬ ResetResynchronises Hiredis.scripted
        (connectedClient Hiredis.scripted [topologyOfK]).world := by
  have hknown : (redisClusterReset Hiredis.scripted (pipeline Hiredis.scripted
      [.append mgetKA, .getReply] (connectedClient Hiredis.scripted [topologyOfK]).world)).2.Known 1 := by
    decide +kernel
  have hcon : ((redisClusterReset Hiredis.scripted (pipeline Hiredis.scripted
      [.append mgetKA, .getReply] (connectedClient Hiredis.scripted [topologyOfK]).world)).2.heap
        1).con = some 1 := by decide +kernel
  have hconn : let conn := (redisClusterReset Hiredis.scripted (pipeline Hiredis.scripted
      [.append mgetKA, .getReply] (connectedClient Hiredis.scripted [topologyOfK]).world)).2.conns 1
      conn.err = none ∧ conn.queue ≠ [] := by decide +kernel
  refine ⟨reachable_connectedClient _ _ (by decide +kernel),
    inStep_connectedClient _ _ (by decide +kernel), ?_⟩
  generalize (connectedClient Hiredis.scripted [topologyOfK]).world = w at hknown hcon hconn ⊢
  intro h
  have hops : ∀ op ∈ [PipeOp.append mgetKA, .getReply], op.Known w := by
    intro op hop
    rcases List.mem_cons.mp hop with rfl | hop
    · exact trivial
    · obtain rfl := List.mem_singleton.mp hop
      exact trivial
  exact hconn.2 ((h _ hops).2 1 1 hknown hcon hconn.1)

/-! ## The order of replies -/

/-- The `k`-th call of a pipeline that finds a request returns the answer to the `k`-th
command that was appended. -/
def InOrder (H : Hiredis ω) (ops : List PipeOp) (w : World ω) : Prop :=
  (∀ (k : ℕ) (g : Got), (got H ops w)[k]? = some g →
    ∃ r, (appended H ops w)[k]? = some r ∧ g.AnswerTo r) ∧
  (appended H ops w).map (fun r => r.cmd) = ops.filterMap PipeOp.command?

/-- **Pipelined replies come back in order**, if the address that is kept for each command
that is sent to a node leads back to that node. -/
theorem Reachable.replies_in_order {H : Hiredis ω} {c : Client ω} (h : Reachable H c)
    (hs : InStep c.world) {ops : List PipeOp} (hf : Flawless H ops c.world)
    (hl : ∀ op ∈ ops, op.Located c.world) : InOrder H ops c.world :=
  got_in_order H (Reaches.ordered H h) hs hl hf

instance (w : World ω) : Decidable (Sane w) :=
  decidable_of_iff (∀ n ∈ w.nodeList, ∀ c ∈ (w.heap n).con, (w.conns c).err = none)
    ⟨fun h c ⟨n, hn, hc⟩ => h n hn c hc, fun h n hn c hc => h c ⟨n, hn, hc⟩⟩

instance (H : Hiredis ω) (w : World ω) : (op : PipeOp) → Decidable (op.Succeeds H w)
  | .append _ => inferInstanceAs (Decidable (_ = _))
  | .appendToNode _ _ => inferInstanceAs (Decidable (_ = _))
  | .getReply => isTrue trivial

instance (H : Hiredis ω) : (ops : List PipeOp) → (w : World ω) → Decidable (Flawless H ops w)
  | [], w => inferInstanceAs (Decidable (Sane w))
  | op :: ops, w =>
    have := instDecidableFlawless H ops (op.run H w).2
    inferInstanceAs (Decidable (_ ∧ _ ∧ _))

/-- A command for a slot, one for two slots and one for a node are appended, and then read. -/
theorem Reachable.replies_in_order_append :
    InOrder Hiredis.scripted [.append getK, .append mgetKA, .appendToNode 2 getK, .getReply,
      .getReply, .getReply] twoNodes.world := by
  have hlocated : PipeOp.Located twoNodes.world (.appendToNode 2 getK) :=
    ⟨by decide +kernel, by decide +kernel⟩
  exact Reachable.replies_in_order reachable_twoNodes inStep_twoNodes (by decide +kernel)
    (by simpa [PipeOp.Located] using hlocated)

/-- A topology with the address `b:2\0x`. -/
def topologyWithNul : Reply :=
  .string (ascii "i a:1 master - 0 0 1 connected 7629\nj b:2" ++ [0] ++
    ascii "x master - 0 0 1 connected 15495\n")

/-- The replies to commands for slots and for known nodes come back in order. -/
def RepliesInOrder (H : Hiredis ω) (w : World ω) : Prop :=
  ∀ ops : List PipeOp, (∀ op ∈ ops, op.Known w) → Flawless H ops w → InOrder H ops w

/-- **The reply of a node whose address holds a NUL byte is not found**: the address is
kept up to that byte only. -/
theorem nulAddress_not_in_order :
    Reachable Hiredis.scripted (connectedClient Hiredis.scripted
      [topologyWithNul, .string (ascii "v")]) ∧
      InStep (connectedClient Hiredis.scripted [topologyWithNul, .string (ascii "v")]).world ∧
      ¬ RepliesInOrder Hiredis.scripted
        (connectedClient Hiredis.scripted [topologyWithNul, .string (ascii "v")]).world := by
  have hknown : (connectedClient Hiredis.scripted
      [topologyWithNul, .string (ascii "v")]).world.Known 2 := by decide +kernel
  have hf : Flawless Hiredis.scripted [.appendToNode 2 getK, .getReply]
      (connectedClient Hiredis.scripted [topologyWithNul, .string (ascii "v")]).world := by
    decide +kernel
  have hgot : (got Hiredis.scripted [.appendToNode 2 getK, .getReply]
      (connectedClient Hiredis.scripted [topologyWithNul, .string (ascii "v")]).world).map
        (fun g => g.answers.length) = [0] := by decide +kernel
  have hsent : (appended Hiredis.scripted [.appendToNode 2 getK, .getReply]
      (connectedClient Hiredis.scripted [topologyWithNul, .string (ascii "v")]).world).map
        (fun r => r.transmissions.length) = [1] := by decide +kernel
  refine ⟨reachable_connectedClient _ _ (by decide +kernel),
    inStep_connectedClient _ _ (by decide +kernel), ?_⟩
  generalize (connectedClient Hiredis.scripted [topologyWithNul, .string (ascii "v")]).world = w
    at hknown hf hgot hsent ⊢
  intro h
  obtain ⟨horder, -⟩ := h [.appendToNode 2 getK, .getReply]
    (by simp [PipeOp.Known, hknown]) hf
  obtain ⟨g, hg, hanswers⟩ := List.map_eq_singleton_iff.mp hgot
  obtain ⟨r, hr, hlen⟩ := List.map_eq_singleton_iff.mp hsent
  obtain ⟨r', hr', hanswer⟩ := horder 0 g (by rw [hg]; rfl)
  obtain rfl : r = r' := by
    rw [hr] at hr'
    exact Option.some.inj hr'
  -- nothing was read, although one command had been sent
  have := congrArg List.length hanswer.1
  rw [List.length_map, hanswers, hlen] at this
  cases this
