/-
# Recovery from a stale slot map

When slots have moved, a client goes on with a slot map that is out of date.  The first command
that it sends to the wrong node is redirected: the client follows the redirect, and asks the node
that sent it for the topology.  From then on its slot map is that of the cluster:
`redisClusterCommandExecute_recovers`.

The servers are not part of the library.  `Hiredis.Redirects` says that the environment is a
cluster whose nodes redirect what is not theirs, and tell the topology.
-/
import HiredisCluster.Correlation
import HiredisCluster.Filling
import HiredisCluster.Lawful
import HiredisCluster.Relearning

open Program

variable {ω : Type}

/-! ## A cluster that redirects -/

/-- The command is well formed, and all its keys have one slot. -/
def AboutSlot (argv : List Bytes) (slot : ℕ) : Prop :=
  ∃ name args type, argv = name :: args ∧ namedType name = some type ∧
    wellFormed type args = true ∧ ∀ i ∈ items type args, keyHashSlot i.1 = slot

/-- `MOVED slot host:port`. -/
def movedText (slot : ℕ) (node : Bytes × ℕ) : Bytes :=
  ([32] : Bytes).intercalate [ascii "MOVED", decimal slot, hostPort node.1 node.2]

/-- An address that a redirect can name. -/
structure Nameable (node : Bytes × ℕ) : Prop where
  host : node.1 ≠ []
  noNul : 0 ∉ node.1
  noBlank : 32 ∉ node.1
  port_pos : 1 ≤ node.2
  port_le : node.2 ≤ 65535

/-- **The environment is a cluster** whose nodes serve their slots, redirect the commands about
other slots, and tell the topology. -/
structure Hiredis.Redirects (H : Hiredis ω) (C : Cluster ω) : Prop extends H.Healthy C where
  flush : ∀ env p, (H.flush env p).1 = none ∧ C.store (H.flush env p).2 = C.store env
  moved : ∀ env p id bytes argv slot, decodeCommand bytes = some argv → AboutSlot argv slot →
    C.owner slot ≠ p.addr →
      (H.reply env p (.command id bytes)).1 = .ok (.error (movedText slot (C.owner slot))) ∧
      C.store (H.reply env p (.command id bytes)).2 = C.store env
  topology : ∀ env p q, q = .clusterSlots ∨ q = .clusterNodes →
    ∃ r, (H.reply env p q).1 = .ok r ∧ C.Tells p.host q r ∧
      C.store (H.reply env p q).2 = C.store env
  nameable : ∀ slot < redisClusterSlots, Nameable (C.owner slot)

theorem Hiredis.Redirects.placed {H : Hiredis ω} {C : Cluster ω} (h : H.Redirects C) : C.Placed := by
  intro slot hslot
  have := (h.nameable slot hslot).port_pos
  omega

theorem AboutSlot.proper {argv : List Bytes} {slot : ℕ} (h : AboutSlot argv slot) : Proper argv := by
  obtain ⟨name, args, type, heq, hname, hwf, -⟩ := h
  exact ⟨name, args, type, heq, hname, hwf⟩

theorem AboutSlot.owns {C : Cluster ω} {argv : List Bytes} {slot : ℕ} (h : AboutSlot argv slot) :
    C.Owns (C.owner slot) argv := by
  obtain ⟨name, args, type, rfl, hname, -, hslots⟩ := h
  intro name' args' type' hcons hname' i hi
  obtain ⟨rfl, rfl⟩ := List.cons.inj hcons
  obtain rfl := Option.some.inj (hname.symm.trans hname')
  rw [hslots i hi]

/-! ## Reading an address -/

section Address

variable {host : Bytes} {port : ℕ}

theorem notMem_decimal {b : UInt8} (hb : isDigit b = false) (n : ℕ) : b ∉ decimal n := by
  intro h
  have hdigit := isDigit_of_mem_decimal h
  rw [hb] at hdigit
  cases hdigit

theorem notMem_hostPort {b : UInt8} (hb : b ∉ host) (hcolon : b ≠ 58) (hdigit : isDigit b = false) :
    b ∉ hostPort host port := by
  unfold hostPort
  rw [Int.toNat_natCast, List.mem_append, List.mem_cons]
  rintro (hmem | rfl | hmem)
  · exact hb hmem
  · exact hcolon rfl
  · exact notMem_decimal hdigit _ hmem

variable (hnul : 0 ∉ host)

include hnul

theorem cstr_hostPort : cstr (hostPort host port) = hostPort host port :=
  cstr_of_noNul (notMem_hostPort hnul (by decide) (by decide))

/-- The last colon is the one before the port. -/
theorem strrchr_hostPort : strrchr (hostPort host port) 58 = some host.length := by
  rw [strrchr, cstr_hostPort hnul, hostPort, Int.toNat_natCast, lastIdx_append (colon_notMem_decimal _)]

theorem portText_hostPort : (cstr (hostPort host port)).drop (host.length + 1) = decimal port := by
  rw [cstr_hostPort hnul, hostPort, Int.toNat_natCast, List.drop_append]
  simp

/-- The port of the node that is created for an address. -/
theorem port_hostPort (hport : port ≤ 65535) :
    hiAtoi ((cstr (hostPort host port)).drop (host.length + 1)) = port ∧
      toUint16 (hiAtoi ((cstr (hostPort host port)).drop (host.length + 1))) = port := by
  rw [portText_hostPort hnul, hiAtoi_decimal (by omega), toUint16]
  omega

end Address

/-! ## Reading the redirect -/

section Reading

variable {slot : ℕ} (hslot : slot < redisClusterSlots) {node : Bytes × ℕ} (hnode : Nameable node)

include hnode in
theorem split_movedText : sdssplitlen (movedText slot node) 32 =
    [ascii "MOVED", decimal slot, hostPort node.1 node.2] := by
  have hne : movedText slot node ≠ [] := by
    unfold movedText
    rw [List.intercalate_cons_cons]
    simp
  have hfields : ∀ f ∈ [ascii "MOVED", decimal slot, hostPort node.1 node.2], (32 : UInt8) ∉ f := by
    intro f hf
    rw [List.mem_cons, List.mem_cons, List.mem_singleton] at hf
    rcases hf with rfl | rfl | rfl
    · decide
    · exact notMem_decimal (by decide) slot
    · exact notMem_hostPort hnode.noBlank (by decide) (by decide)
  rw [sdssplitlen, if_neg hne, movedText, List.splitOn_intercalate 32 hfields (by simp)]

/-- It is taken for a redirect. -/
theorem errorType_movedText : clusterReplyErrorType (.error (movedText slot node)) = .moved := by
  have hstart : startsWith "MOVED" (movedText slot node) = true := by
    unfold startsWith movedText
    rw [List.intercalate_cons_cons, Bool.and_eq_true, decide_eq_true_eq, List.append_assoc]
    constructor
    · rw [List.length_append, List.length_append, List.length_singleton]
      omega
    · exact List.isPrefixOf_iff_prefix.mpr ⟨_, rfl⟩
  rw [clusterReplyErrorType, if_pos hstart]

include hslot in
theorem hiAtoi_slot : hiAtoi (decimal slot) = slot := by
  apply hiAtoi_decimal
  have : slot < 16384 := hslot
  omega

end Reading

/-! ## A client with a stale slot map -/

/-- The client knows some nodes of the cluster, and every slot leads to one of them, right or
wrong.  Connections lead to their nodes; on `u` the answer to a topology query is waiting. -/
structure Acquainted (u : Option ConnId) (w : World ω) : Prop where
  ordered : Ordered w
  table : ∃ t, w.cc.table = some t ∧ ∀ slot < redisClusterSlots, t slot ≠ none
  plain : ∀ n, w.Known n → (w.heap n).Plain
  leading : Leading u w
  deferred : ∀ c, u = some c → c < w.nextConn ∧
    (w.conns c).err = none ∧ (w.conns c).queue = [w.cc.topologyQuery]

/-- Where a node is. -/
def World.placeOf (w : World ω) (n : NodeId) : Bytes × ℕ := ((w.heap n).host, (w.heap n).port)

/-- Where a connection leads. -/
def World.endOf (w : World ω) (c : ConnId) : Bytes × ℕ := ((w.conns c).host, (w.conns c).port)

section Acquainted

variable {u : Option ConnId} {w w' : World ω} (h : Acquainted u w)

include h

/-- The routing state stays, and so does what is waiting. -/
theorem Acquainted.linking (hl : Linking w w') (hlead : Leading u w')
    (hu : ∀ c, u = some c → w'.conns c = w.conns c) : Acquainted u w' := by
  obtain ⟨t, ht, hfull⟩ := h.table
  constructor
  · exact h.ordered.linking hl
  · exact ⟨t, hl.table.trans ht, hfull⟩
  · intro n hn
    have hn := hl.known.mp hn
    exact (h.plain n hn).of_endpoint (hl.endpoint n (h.ordered.routed.lt n hn))
  · exact hlead
  · intro c hc
    obtain ⟨hlt, hwaits⟩ := h.deferred c hc
    rw [hu c hc, hl.advance.topologyQuery]
    exact ⟨lt_of_lt_of_le hlt hl.nextConn, hwaits⟩

/-- The limits and counters do not matter. -/
theorem Acquainted.of_cc {cc : Context} (hw : w' = { w with cc := cc })
    (hnodes : cc.nodes = w.cc.nodes) (htable : cc.table = w.cc.table)
    (hslots : cc.routeUseSlots = w.cc.routeUseSlots) : Acquainted u w' := by
  subst hw
  obtain ⟨t, ht, hfull⟩ := h.table
  constructor
  · exact h.ordered.of_cc hnodes htable
  · exact ⟨t, htable.trans ht, hfull⟩
  · intro n hn
    apply h.plain n
    rwa [World.Known, World.nodeList, ← hnodes]
  · exact h.leading.same rfl rfl rfl
  · intro c hc
    rw [Context.topologyQuery, hslots]
    exact h.deferred c hc

theorem Acquainted.record {e : Event} (he : ∀ v, e ≠ .callback v)
    (hw : w' = { w with trace := w.trace ++ [e] }) : Acquainted u w' := by
  subst hw
  exact ⟨h.ordered.record he, h.table, h.plain, h.leading.same rfl rfl rfl, h.deferred⟩

end Acquainted

/-! ## Getting a connection -/

section Lookup

variable {H : Hiredis ω} {C : Cluster ω} (hH : H.Healthy C)

include hH

/-- A node without a connection gets one. -/
theorem openNode_opens (n : NodeId) (w : World ω) :
    wp (openNode H n) (fun r w' => r = some w.nextConn ∧ C.store w'.env = C.store w.env ∧
      w'.conns = Function.update w.conns w.nextConn
        { host := (w.heap n).host, port := (w.heap n).port, alive := true } ∧
      w'.nextConn = w.nextConn + 1 ∧
      w'.heap = Function.update w.heap n { w.heap n with con := some w.nextConn }) w := by
  unfold openNode
  rw [wp_bind, wp_get, wp_bind]
  refine wp_mono (redisConnectWithOptions_healthy hH _ _ w) ?_
  rintro _ w₁ ⟨rfl, hstore, hconns, hnext, hheap, -⟩
  have hself : w₁.conns w.nextConn =
      { host := (w.heap n).host, port := (w.heap n).port, alive := true } := by
    rw [hconns, Function.update_self]
  unfold userHook
  dsimp only
  rw [wp_bind, wp_bind, wp_get, wp_record, wp_bind, wp_get]
  dsimp only
  rw [hself, if_neg (by simp), wp_bind]
  refine wp_mono (startTls_healthy hH w.nextConn _) ?_
  rintro _ w₂ ⟨rfl, h₂⟩
  dsimp only
  rw [wp_bind]
  have hready : Ready w.nextConn w₂ := by
    unfold Ready
    rw [h₂.conns]
    dsimp only
    rw [hself]
    exact ⟨rfl, rfl⟩
  refine wp_mono (authenticate_healthy hH hready) ?_
  rintro _ w₃ ⟨rfl, h₃⟩
  have h₂₃ := h₂.trans h₃
  refine ⟨rfl, h₂₃.store.trans hstore, h₂₃.conns.trans hconns, h₂₃.nextConn.trans hnext, ?_⟩
  show Function.update w₃.heap n _ = _
  rw [h₂₃.heap.trans hheap]

/-- A connection that has failed is set up again. -/
theorem reconnectNode_resets (c : ConnId) (w : World ω) :
    wp (reconnectNode H c) (fun _ w' => C.store w'.env = C.store w.env ∧
      w'.conns = Function.update w.conns c { w.conns c with err := none, queue := [] } ∧
      w'.nextConn = w.nextConn ∧ w'.heap = w.heap) w := by
  have hreconnect := hH.reconnect w.env (w.peer c)
  unfold reconnectNode redisReconnect userHook
  rw [wp_bind, wp_bind, wp_get, wp_bind, wp_ask, wp_modifyConn, wp_bind, wp_bind, wp_get, wp_record,
    wp_bind, hreconnect.1]
  refine wp_mono (startTls_healthy hH c _) ?_
  rintro _ w₁ ⟨rfl, h₁⟩
  have hself : w₁.conns c = { w.conns c with err := none, queue := [] } := by
    rw [h₁.conns]
    exact Function.update_self _ _ _
  rw [wp_bind]
  refine wp_mono (authenticate_healthy hH ⟨by rw [hself], by rw [hself]⟩) ?_
  rintro _ w₂ ⟨rfl, h₂⟩
  have h := h₁.trans h₂
  exact ⟨h.store.trans hreconnect.2, h.conns, h.nextConn, h.heap⟩

/-- What the command loop gets for a node: a connection that leads there, ready for a command. -/
structure GotConnection (C : Cluster ω) (u : Option ConnId) (n : NodeId) (w : World ω) (c : ConnId)
    (w' : World ω) : Prop where
  lt : c < w'.nextConn
  store : C.store w'.env = C.store w.env
  ready : Ready c w'
  ends : w'.endOf c = w.placeOf n
  leading : Leading u w'
  waiting : ∀ c', u = some c' → w'.conns c' = w.conns c'

theorem ctxGetByNode_got {u : Option ConnId} {n : NodeId} {w : World ω}
    (hw : Acquainted u w) (hn : (w.heap n).Plain)
    (hu : ∀ c, (w.heap n).con = some c → u ≠ some c) :
    wp (ctxGetByNode H n) (fun r w' => ∃ c, r = some c ∧ GotConnection C u n w c w') w := by
  unfold ctxGetByNode
  rw [wp_bind, wp_get]
  cases hcon : (w.heap n).con with
  | none =>
    dsimp only
    rw [if_neg hn.port]
    refine wp_mono (openNode_opens hH n w) ?_
    rintro _ w' ⟨rfl, hstore, hconns, hnext, hheap⟩
    have hself : w'.conns w.nextConn =
        { host := (w.heap n).host, port := (w.heap n).port, alive := true } := by
      rw [hconns, Function.update_self]
    refine ⟨_, rfl, ?_, hstore, ?_, ?_, ?_, ?_⟩
    · rw [hnext]
      exact Nat.lt_succ_self _
    · unfold Ready
      rw [hself]
      exact ⟨rfl, rfl⟩
    · unfold World.endOf
      rw [hself]
      rfl
    · intro m c hc
      rw [hheap] at hc
      rcases eq_or_ne m n with rfl | hm
      · rw [Function.update_self] at hc
        obtain rfl := Option.some.inj hc
        constructor
        · rw [hheap, Function.update_self]
          exact ⟨hn.addr, hn.port⟩
        · rw [hnext]
          exact Nat.lt_succ_self _
        · rw [hself, hheap, Function.update_self]
        · intro _ _
          rw [hself]
      · rw [Function.update_of_ne hm] at hc
        obtain ⟨hplain, hlt, hhost, hidle⟩ := hw.leading m c hc
        have hother : w'.conns c = w.conns c := by
          rw [hconns, Function.update_of_ne (Nat.ne_of_lt hlt)]
        constructor
        · rw [hheap, Function.update_of_ne hm]
          exact hplain
        · rw [hnext]
          exact Nat.lt_succ_of_lt hlt
        · rw [hother, hheap, Function.update_of_ne hm]
          exact hhost
        · exact fun hu => (hidle hu).of_conns hother
    · intro c' hc'
      rw [hconns, Function.update_of_ne (Nat.ne_of_lt (hw.deferred c' hc').1)]
  | some c =>
    obtain ⟨-, hlt, hhost, hidle⟩ := hw.leading n c hcon
    have huc := hu c hcon
    dsimp only
    split
    · rw [wp_bind]
      refine wp_mono (reconnectNode_resets hH c w) ?_
      rintro _ w' ⟨hstore, hconns, hnext, hheap⟩
      have hself : w'.conns c = { w.conns c with err := none, queue := [] } := by
        rw [hconns, Function.update_self]
      have hother : ∀ c' ≠ c, w'.conns c' = w.conns c' := fun c' hne => by
        rw [hconns, Function.update_of_ne hne]
      rw [wp_pure]
      refine ⟨c, rfl, hnext ▸ hlt, hstore, ?_, ?_, ?_, ?_⟩
      · unfold Ready
        rw [hself]
        exact ⟨rfl, rfl⟩
      · unfold World.endOf
        rw [hself]
        exact hhost
      · apply hw.leading.transfer hnext
        · intro m c' hc'
          rw [hheap] at hc' ⊢
          exact ⟨hc', rfl⟩
        · intro c'
          rcases eq_or_ne c' c with rfl | hne
          · rw [hself]
          · rw [hother c' hne]
        · intro c' hu' hi
          rcases eq_or_ne c' c with rfl | hne
          · intro _
            rw [hself]
          · exact (hi hu').of_conns (hother c' hne)
      · intro c' hc'
        apply hother
        rintro rfl
        exact huc hc'
    · rename_i herr
      have hnone : (w.conns c).err = none := by simpa using herr
      exact ⟨c, rfl, hlt, rfl, ⟨hnone, hidle huc hnone⟩, hhost, hw.leading, fun _ _ => rfl⟩

/-- The context is the same but for the error. -/
def SameContext (w w' : World ω) : Prop := ∃ e s, w'.cc = { w.cc with err := e, errstr := s }

/-- **The connection of a node**, made or repaired if need be. -/
theorem lookupNode_acquainted {u : Option ConnId} {n : NodeId} {w : World ω}
    (hw : Acquainted u w) (hn : (w.heap n).Plain)
    (hu : ∀ c, (w.heap n).con = some c → u ≠ some c) :
    wp (lookupNode H n) (fun r w' => ∃ c, r = some c ∧ Acquainted u w' ∧ SameContext w w' ∧
      GotConnection C u n w c w') w := by
  unfold lookupNode
  rw [wp_bind, wp_get, wp_bind, wp_record]
  have hw₀ := hw.record (e := .lookup n (decide (w.Known n))) (fun v h => by cases h) rfl
  refine wp_mono (wp_and (ctxGetByNode_got hH hw₀ hn hu) (ctxGetByNode_links H n _)) ?_
  rintro r w' ⟨⟨c, rfl, hgot⟩, hlinks, -⟩
  refine ⟨c, rfl, ?_, hlinks.1.cc, hgot.lt, hgot.store, hgot.ready, hgot.ends, hgot.leading,
    hgot.waiting⟩
  exact hw₀.linking hlinks.1 hgot.leading hgot.waiting

end Lookup

/-! ## Following a redirect -/

section Following

variable {u : Option ConnId} {w : World ω} {slot : ℕ} {node : Bytes × ℕ}

/-- What is known of the node that a redirect names. -/
structure Named (u : Option ConnId) (node : Bytes × ℕ) (w : World ω) (n : NodeId) (w' : World ω) :
    Prop where
  known : w'.Known n
  place : w'.placeOf n = node
  plain : ∀ m, w'.Known m → (w'.heap m).Plain
  leading : Leading u w'
  env : w'.env = w.env
  conns : w'.conns = w.conns
  nextConn : w'.nextConn = w.nextConn
  cc : ∃ d, w'.cc = { w.cc with nodes := some d }

/-- **The node that a redirect names** is known, or becomes known. -/
theorem getNodeFromRedirectReply_named (hw : Acquainted u w) (hslot : slot < redisClusterSlots)
    (hnode : Nameable node) :
    wp (getNodeFromRedirectReply (movedText slot node)) (fun r w' =>
      ∃ n, r = (some n, (slot : ℤ)) ∧ Named u node w n w') w := by
  obtain ⟨t, ht, hfull⟩ := hw.table
  -- the table leads to nodes of a dictionary
  obtain ⟨n₀, hn₀⟩ := Option.ne_none_iff_exists'.mp (hfull 0 (by decide))
  obtain ⟨d, hd, -⟩ := hw.ordered.routed.view.table t ht 0 n₀ hn₀
  have hd : w.cc.nodes = some d := hd
  have hlen : node.1.length ≠ 0 := by
    intro h
    exact hnode.host (List.length_eq_zero_iff.mp h)
  unfold getNodeFromRedirectReply
  rw [wp_bind, wp_get, split_movedText hnode]
  dsimp only
  rw [strrchr_hostPort hnode.noNul, hiAtoi_slot hslot, hd]
  dsimp only
  rw [if_neg hlen, Option.getD_some]
  cases hfind : d.find (hostPort node.1 node.2) with
  | some n =>
    have hn : w.Known n := (World.known_iff hd).mpr ⟨_, (d.find_eq_some_iff _ n).mp hfind⟩
    have haddr := hw.ordered.routed.filed hd hfind
    rw [(hw.plain n hn).addr] at haddr
    obtain ⟨hhost, hport⟩ := hostPort_inj haddr
    have hplace : w.placeOf n = node := by
      unfold World.placeOf
      rw [hhost, hport]
    dsimp only
    rw [wp_pure]
    exact ⟨n, rfl, hn, hplace, hw.plain, hw.leading, rfl, rfl, rfl, d, by rw [← hd]⟩
  | none =>
    dsimp only
    rw [wp_bind, wp_newNode_creating]
    split
    · rename_i hadd
      have hsome := (HashTable.add_isSome_iff _ _ w.nextNode).mpr hfind
      rw [hadd] at hsome
      cases hsome
    · rename_i d' hadd
      rw [wp_bind, wp_modifyCc, wp_pure]
      have htake : (hostPort node.1 node.2).take node.1.length = node.1 := List.take_left' rfl
      rw [(port_hostPort hnode.noNul hnode.port_le).2, htake]
      set made : Node :=
        { addr := hostPort node.1 node.2, host := node.1, port := node.2, role := .master }
      have hmade : made.Plain := by
        constructor
        · rfl
        · exact Nat.ne_of_gt hnode.port_pos
      have hself := w.creating_heap_self made
      refine ⟨w.nextNode, rfl, ?_, ?_, ?_, ?_, rfl, rfl, rfl, d', rfl⟩
      · refine (World.known_iff rfl).mpr ⟨hostPort node.1 node.2, ?_⟩
        exact (HashTable.mem_entries_add hadd _).mpr (Or.inl rfl)
      · show (((w.creating made).heap w.nextNode).host, ((w.creating made).heap w.nextNode).port) = _
        rw [hself]
      · intro m hm
        show ((w.creating made).heap m).Plain
        obtain ⟨k, hk⟩ := (World.known_iff rfl).mp hm
        rcases (HashTable.mem_entries_add hadd _).mp hk with heq | hold
        · rw [(Prod.mk.inj heq).2, hself]
          exact hmade
        · have hm : w.Known m := (World.known_iff hd).mpr ⟨k, hold⟩
          rw [w.creating_heap_of_lt made (hw.ordered.routed.lt m hm)]
          exact hw.plain m hm
      · exact hw.leading.newNode rfl rfl rfl rfl

theorem storeSlot_env (s : ℤ) (n : NodeId) (w : World ω) : (storeSlot s n w).2.env = w.env := by
  unfold storeSlot
  split
  · rfl
  · show wp _ (fun _ w' => w'.env = w.env) w
    rw [wp_bind, wp_record]
    split
    · rfl
    · rfl

/-- **A redirect is followed** to its node, and the client stays acquainted. -/
theorem handleMoved_named (hw : Acquainted u w) (hslot : slot < redisClusterSlots)
    (hnode : Nameable node) :
    wp (handleMoved (movedText slot node)) (fun r w' => ∃ n, r = some n ∧ Acquainted u w' ∧
      (w'.heap n).Plain ∧ w'.placeOf n = node ∧ w'.env = w.env ∧ w'.conns = w.conns ∧
      w'.cc.settings = w.cc.settings) w := by
  have hmain : wp (handleMoved (movedText slot node)) (fun r w' => ∃ n w₁, r = some n ∧
      Named u node w n w₁ ∧ SlotPointed n w₁ w' ∧ w'.env = w₁.env) w := by
    unfold handleMoved
    rw [wp_bind]
    refine wp_mono (getNodeFromRedirectReply_named hw hslot hnode) ?_
    rintro _ w₁ ⟨n, rfl, hn⟩
    exact ⟨n, w₁, rfl, hn, storeSlot_pointed slot n w₁, storeSlot_env slot n w₁⟩
  refine wp_mono (wp_and hmain (wp_and ((lawful_handleMoved _).wp w)
    ((advance_handleMoved _).wp w))) ?_
  rintro _ w' ⟨⟨n, w₁, rfl, hn, hp, henv⟩, hlawful, hadvance⟩
  obtain ⟨t, ht, hfull⟩ := hw.table
  obtain ⟨d, hcc⟩ := hn.cc
  obtain ⟨t', hcc', htable⟩ := hp.cc
  have hplain : ∀ m, w'.Known m → (w'.heap m).Plain := by
    intro m hm
    rw [World.Known, hp.nodeList] at hm
    rw [hp.heap]
    exact hn.plain m hm
  have hconns : w'.conns = w.conns := hp.conns.trans hn.conns
  have hknown : w'.Known n := by
    rw [World.Known, hp.nodeList]
    exact hn.known
  refine ⟨n, rfl, ?_, hplain n hknown, ?_, henv.trans hn.env, hconns, hadvance.settings⟩
  · constructor
    · exact hlawful.ordered hw.ordered
    · rw [hcc, ht] at htable
      rcases htable with ⟨hnone, -⟩ | ⟨t₀, t₁, ht₀, rfl, hor⟩
      · cases hnone
      · obtain rfl := Option.some.inj ht₀
        refine ⟨t₁, by rw [hcc'], fun s hs => ?_⟩
        rcases hor s with heq | heq
        · rw [heq]
          exact hfull s hs
        · rw [heq]
          exact Option.some_ne_none n
    · exact hplain
    · exact hn.leading.same hp.heap hp.conns hp.nextConn
    · intro c hc
      obtain ⟨hlt, hwaits⟩ := hw.deferred c hc
      rw [hconns, hadvance.topologyQuery]
      exact ⟨lt_of_lt_of_le hlt hadvance.nextConn, hwaits⟩
  · rw [← hn.place]
    unfold World.placeOf
    rw [hp.heap]

end Following

/-! ## Sending and reading -/

section Talking

variable {H : Hiredis ω} {C : Cluster ω}

/-- The reply to the oldest command that is due. -/
theorem redisGetReply_next {c : ConnId} {q q' : Sent} {rest : List Sent} {w : World ω} {r : Reply}
    (herr : (w.conns c).err = none) (hqueue : (w.conns c).queue = q' :: rest)
    (hr : (H.reply w.env (w.peer c) q').1 = .ok r) :
    wp (redisGetReply H c q) (fun a w' => a = some ⟨q', r⟩ ∧
      w'.env = (H.reply w.env (w.peer c) q').2 ∧
      w'.conns = Function.update w.conns c { w.conns c with queue := rest } ∧
      w'.nextConn = w.nextConn ∧ w'.heap = w.heap ∧ w'.cc = w.cc) w := by
  unfold redisGetReply
  rw [wp_bind, wp_get, herr, if_neg (by simp), hqueue]
  dsimp only
  rw [wp_bind, wp_ask, hr]
  exact ⟨rfl, rfl, rfl, rfl, rfl, rfl⟩

/-- What goes along with a command: nothing, or the topology query that is scheduled. -/
def Along (c : ConnId) (w : World ω) (u u' : Option ConnId) (rest : List Sent) : Prop :=
  (u' = u ∧ rest = [] ∧ (u = none → w.cc.needUpdateRoute = false)) ∨
    (u = none ∧ u' = some c ∧ rest = [w.cc.topologyQuery])

variable (hH : H.Redirects C)

include hH

/-- The topology query is written. -/
theorem clusterUpdateRouteSendCommand_sends {c : ConnId} {w : World ω}
    (herr : (w.conns c).err = none) :
    wp (clusterUpdateRouteSendCommand H c) (fun s w' => s = .ok ∧ C.store w'.env = C.store w.env ∧
      w'.conns = w.pushed c w.cc.topologyQuery ∧ w'.nextConn = w.nextConn ∧ w'.heap = w.heap ∧
      w'.cc = w.cc) w := by
  unfold clusterUpdateRouteSendCommand
  rw [wp_bind, wp_get, wp_bind]
  refine wp_mono (redisAppendCommand_healthy hH.toHealthy c _ w) ?_
  rintro _ w₁ ⟨rfl, hstore, hconns, hnext, hheap, hcc⟩
  have herr₁ : (w₁.conns c).err = none := by
    rw [hconns, World.pushed, Function.update_self]
    exact herr
  obtain ⟨hflush, hkeep⟩ := hH.flush w₁.env (w₁.peer c)
  dsimp only
  unfold redisBufferWrite
  rw [wp_bind, wp_get, herr₁, if_neg (by simp), wp_bind, wp_ask, hflush]
  exact ⟨rfl, hkeep.trans hstore, hconns, hnext, hheap, hcc⟩

theorem pipelineUpdate_along {c : ConnId} {u : Option ConnId} {w : World ω}
    (herr : (w.conns c).err = none) :
    wp (pipelineUpdate H c u) (fun u' w' => ∃ rest, Along c w u u' rest ∧
      C.store w'.env = C.store w.env ∧
      w'.conns = Function.update w.conns c
        { w.conns c with queue := (w.conns c).queue ++ rest } ∧
      w'.nextConn = w.nextConn ∧ w'.heap = w.heap ∧ w'.cc = w.cc) w := by
  unfold pipelineUpdate
  rw [wp_bind, wp_get]
  split
  · rename_i hneed
    rw [wp_bind]
    refine wp_mono (clusterUpdateRouteSendCommand_sends hH herr) ?_
    rintro _ w₁ ⟨rfl, h₁⟩
    exact ⟨_, Or.inr ⟨hneed.2, rfl, rfl⟩, h₁⟩
  · rename_i hneed
    refine ⟨[], Or.inl ⟨rfl, rfl, fun hu => ?_⟩, rfl, ?_, rfl, rfl, rfl⟩
    · exact Bool.eq_false_iff.mpr fun h => hneed ⟨h, hu⟩
    · rw [List.append_nil]
      exact (Function.update_eq_self c w.conns).symm

end Talking

/-! ## The command loop on a cluster that redirects -/

/-- The command has been answered once, from the store of the node that serves its slot. -/
def Answered (C : Cluster ω) (slot : ℕ) (argv : List Bytes) (w : World ω) (r : Option Answer)
    (w' : World ω) : Prop :=
  ∃ a, r = some a ∧ a.reply = (serve argv (C.store w.env (C.owner slot))).1 ∧
    C.store w'.env = Function.update (C.store w.env) (C.owner slot)
      (serve argv (C.store w.env (C.owner slot))).2

/-- The slot leads to the node that serves it. -/
def World.Knows (w : World ω) (C : Cluster ω) (slot : ℕ) : Prop :=
  ∃ t n, w.cc.table = some t ∧ t slot = some n ∧ w.placeOf n = C.owner slot

/-- The client has learnt the topology anew, or nothing was wrong with the slot. -/
def Recovered (C : Cluster ω) (slot : ℕ) (w w' : World ω) : Prop :=
  Relearned C w w' ∨ (w.Knows C slot ∧ w.cc.needUpdateRoute = false ∧ Acquainted none w' ∧
    w'.cc.settings = w.cc.settings)

/-- The phases of the loop: the command is sent where the slot leads, and perhaps redirected
to where the slot is served; a topology query that is deferred is collected at the end. -/
def Heals (C : Cluster ω) (slot : ℕ) (argv : List Bytes) (w : World ω) (s : Exec × World ω) :
    Prop :=
  match s.1.pc with
  | .retry => s.1.cUpdatingRoute = none ∧ s.2 = w
  | .send c => Acquainted s.1.cUpdatingRoute s.2 ∧ C.store s.2.env = C.store w.env ∧
      Ready c s.2 ∧ c < s.2.nextConn ∧
      (s.1.cUpdatingRoute = none ∧ SameContext w s.2 ∧
          (s.2.endOf c = C.owner slot → w.Knows C slot) ∨
        s.1.cUpdatingRoute ≠ none ∧ s.1.cUpdatingRoute ≠ some c ∧ s.2.endOf c = C.owner slot)
  | .moved n c => Acquainted s.1.cUpdatingRoute s.2 ∧ C.store s.2.env = C.store w.env ∧
      (s.2.heap n).Plain ∧ s.2.placeOf n = C.owner slot ∧ s.2.endOf c ≠ C.owner slot ∧
      (s.1.cUpdatingRoute = some c ∨ s.1.cUpdatingRoute = none ∧ Ready c s.2 ∧ c < s.2.nextConn)
  | .follow n ask => ask = false ∧ ∃ c, s.1.cUpdatingRoute = some c ∧ Acquainted (some c) s.2 ∧
      C.store s.2.env = C.store w.env ∧ (s.2.heap n).Plain ∧ s.2.placeOf n = C.owner slot ∧
      s.2.endOf c ≠ C.owner slot
  | .asking _ => False
  | .done r => Acquainted s.1.cUpdatingRoute s.2 ∧ Answered C slot argv w r s.2 ∧
      (s.1.cUpdatingRoute = none → w.Knows C slot ∧ w.cc.needUpdateRoute = false ∧
        s.2.cc.settings = w.cc.settings)
  | .ret r => Answered C slot argv w r s.2 ∧ Recovered C slot w s.2

section Loop

variable {H : Hiredis ω} {C : Cluster ω} (hH : H.Redirects C) {slot : ℕ}
  (hslot : slot < redisClusterSlots) {cmd : Cmd} (hcmd : cmd.slotNum = slot) {argv : List Bytes}
  (hdec : decodeCommand cmd.cmd = some argv) (habout : AboutSlot argv slot) {w w₁ : World ω}

include hH hslot hcmd in
theorem execRetry_heals (hw : Acquainted none w) :
    Heals C slot argv w (execRetry H cmd none w) := by
  obtain ⟨t, ht, hfull⟩ := hw.table
  obtain ⟨n, hn⟩ := Option.ne_none_iff_exists'.mp (hfull slot hslot)
  have hknown : w.Known n := hw.ordered.routed.known ht hn
  have huint : toUint32 cmd.slotNum = slot := by
    have hlt : slot < 16384 := hslot
    rw [hcmd]
    unfold toUint32
    omega
  show wp (execRetry H cmd none) (fun e w' => Heals C slot argv w (e, w')) w
  unfold execRetry nodeGetByTable
  rw [wp_bind, wp_bind, wp_get, huint, if_neg (Nat.not_le.mpr hslot), ht]
  dsimp only
  rw [hn]
  dsimp only
  rw [wp_pure]
  dsimp only
  unfold connectOrUpdate
  rw [wp_bind]
  refine wp_mono (lookupNode_acquainted hH.toHealthy hw (hw.plain n hknown)
    fun c _ => (Option.some_ne_none c).symm) ?_
  rintro _ w₁ ⟨c, rfl, hw₁, hcc, hgot⟩
  dsimp only
  rw [wp_bind, wp_get, hgot.ready.1, if_neg (by simp)]
  refine ⟨hw₁, hgot.store, hgot.ready, hgot.lt, Or.inl ⟨rfl, hcc, fun hend => ?_⟩⟩
  exact ⟨t, n, ht, hn, hgot.ends.symm.trans hend⟩

include hH in
theorem execFollow_heals {n : NodeId} {c : ConnId} (hw : Acquainted (some c) w₁)
    (hstore : C.store w₁.env = C.store w.env) (hn : (w₁.heap n).Plain)
    (hplace : w₁.placeOf n = C.owner slot) (hend : w₁.endOf c ≠ C.owner slot) :
    Heals C slot argv w (connectOrFail H n .send (some c) w₁) := by
  show wp (connectOrFail H n .send (some c)) (fun e w' => Heals C slot argv w (e, w')) w₁
  unfold connectOrFail
  rw [wp_bind]
  -- the connection that waits for the topology leads elsewhere
  have hother : ∀ c', (w₁.heap n).con = some c' → some c ≠ some c' := by
    rintro c' hc' ⟨⟩
    exact hend ((hw.leading n c hc').host.trans hplace)
  refine wp_mono (lookupNode_acquainted hH.toHealthy hw hn hother) ?_
  rintro _ w₂ ⟨c', rfl, hw₂, -, hgot⟩
  dsimp only
  rw [wp_bind, wp_get, hgot.ready.1, if_neg (by simp)]
  have hends : w₂.endOf c' = C.owner slot := hgot.ends.trans hplace
  refine ⟨hw₂, hgot.store.trans hstore, hgot.ready, hgot.lt,
    Or.inr ⟨Option.some_ne_none c, ?_, hends⟩⟩
  rintro ⟨⟩
  apply hend
  rw [← hends]
  unfold World.endOf
  rw [hgot.waiting c rfl]

/-- A connection with nothing due carries the topology query, if it goes along. -/
theorem Acquainted.along {u u' : Option ConnId} {c : ConnId} {rest : List Sent} {w₂ : World ω}
    (hw : Acquainted u w₁) (hready : Ready c w₁) (hlt : c < w₁.nextConn) (hu : u ≠ some c)
    (halong : (u' = u ∧ rest = []) ∨
      (u = none ∧ u' = some c ∧ rest = [w₁.cc.topologyQuery]))
    (hcalm : Calm w₁ w₂)
    (hconns : w₂.conns = Function.update w₁.conns c { w₁.conns c with queue := rest })
    (hnext : w₂.nextConn = w₁.nextConn) (hheap : w₂.heap = w₁.heap) : Acquainted u' w₂ := by
  have hother : ∀ c' ≠ c, w₂.conns c' = w₁.conns c' := fun c' hne => by
    rw [hconns, Function.update_of_ne hne]
  have hself : w₂.conns c = { w₁.conns c with queue := rest } := by
    rw [hconns, Function.update_self]
  have hl := hcalm.toLinking
  obtain ⟨t, ht, hfull⟩ := hw.table
  constructor
  · exact hw.ordered.linking hl
  · exact ⟨t, hl.table.trans ht, hfull⟩
  · intro n hn
    rw [hheap]
    exact hw.plain n (hl.known.mp hn)
  · apply hw.leading.transfer hnext
    · intro n c' hc'
      rw [hheap] at hc' ⊢
      exact ⟨hc', rfl⟩
    · intro c'
      rcases eq_or_ne c' c with rfl | hne
      · rw [hself]
      · rw [hother c' hne]
    · intro c' hu' hi
      rcases halong with ⟨rfl, rfl⟩ | ⟨rfl, rfl, rfl⟩
      · rcases eq_or_ne c' c with rfl | hne
        · intro _
          rw [hself]
        · exact (hi hu').of_conns (hother c' hne)
      · have hne : c' ≠ c := fun h => hu' (by rw [h])
        exact (hi (Option.some_ne_none c').symm).of_conns (hother c' hne)
  · intro c' hc'
    rw [hl.advance.topologyQuery, hnext]
    rcases halong with ⟨rfl, rfl⟩ | ⟨rfl, rfl, rfl⟩
    · have hne : c' ≠ c := fun h => hu (by rw [hc', h])
      rw [hother c' hne]
      exact hw.deferred c' hc'
    · obtain rfl := Option.some.inj hc'
      rw [hself]
      exact ⟨hlt, hready.1, rfl⟩

include hH in
/-- The node that sent the redirect is asked for the topology. -/
theorem execMoved_heals {n : NodeId} {c : ConnId} {u : Option ConnId} (hw : Acquainted u w₁)
    (hstore : C.store w₁.env = C.store w.env) (hn : (w₁.heap n).Plain)
    (hplace : w₁.placeOf n = C.owner slot) (hend : w₁.endOf c ≠ C.owner slot)
    (hu : u = some c ∨ u = none ∧ Ready c w₁ ∧ c < w₁.nextConn) :
    Heals C slot argv w (execMoved H n c u w₁) := by
  rcases hu with rfl | ⟨rfl, hready, hlt⟩
  · exact ⟨rfl, c, rfl, hw, hstore, hn, hplace, hend⟩
  · show wp (execMoved H n c none) (fun e w' => Heals C slot argv w (e, w')) w₁
    unfold execMoved
    dsimp only
    rw [wp_bind]
    refine wp_mono (wp_and (clusterUpdateRouteSendCommand_sends hH hready.1)
      (calmly (within_clusterUpdateRouteSendCommand H c) w₁)) ?_
    rintro _ w₂ ⟨⟨rfl, hstore₂, hconns, hnext, hheap, -⟩, hcalm⟩
    have hpushed : w₂.conns = Function.update w₁.conns c
        { w₁.conns c with queue := [w₁.cc.topologyQuery] } := by
      rw [hconns, World.pushed, hready.2]
      rfl
    have hends : w₂.endOf c = w₁.endOf c := by
      unfold World.endOf
      rw [hpushed, Function.update_self]
    have hplace₂ : w₂.placeOf n = C.owner slot := by
      unfold World.placeOf
      rw [hheap]
      exact hplace
    refine ⟨rfl, c, rfl, ?_, hstore₂.trans hstore, hheap ▸ hn, hplace₂, hends ▸ hend⟩
    exact hw.along hready hlt (Option.some_ne_none c).symm (Or.inr ⟨rfl, rfl, rfl⟩) hcalm
      hpushed hnext hheap

include hH in
/-- The topology that is deferred is collected. -/
theorem execDone_heals {r : Option Answer} {u : Option ConnId} (hw : Acquainted u w₁)
    (hle : w.nextNode ≤ w₁.nextNode) (hans : Answered C slot argv w r w₁)
    (hnone : u = none → w.Knows C slot ∧ w.cc.needUpdateRoute = false ∧
      w₁.cc.settings = w.cc.settings) : Heals C slot argv w (execDone H r u w₁) := by
  show wp (execDone H r u) (fun e w' => Heals C slot argv w (e, w')) w₁
  unfold execDone
  cases u with
  | none =>
    obtain ⟨hknows, hneed, hsettings⟩ := hnone rfl
    exact ⟨hans, Or.inr ⟨hknows, hneed, hw, hsettings⟩⟩
  | some c =>
    dsimp only
    rw [wp_bind, wp_get, wp_bind, wp_record, wp_bind]
    have hw₂ := hw.record (e := .deferred c (decide (w₁.Held c))) (fun v h => by cases h) rfl
    set w₂ : World ω := { w₁ with trace := w₁.trace ++ [.deferred c (decide (w₁.Held c))] }
    obtain ⟨-, herr, hqueue⟩ := hw₂.deferred c rfl
    have hquery : w₂.cc.topologyQuery = .clusterSlots ∨ w₂.cc.topologyQuery = .clusterNodes := by
      unfold Context.topologyQuery
      split
      · exact Or.inl rfl
      · exact Or.inr rfl
    obtain ⟨reply, hreply, htells, hkeep⟩ := hH.topology w₂.env (w₂.peer c) _ hquery
    refine wp_mono (clusterUpdateRouteHandleReply_relearns hw₂.ordered.routed hw₂.leading herr hqueue
      hreply htells hH.placed) ?_
    rintro _ w₃ ⟨rfl, henv, hrelearned⟩
    obtain ⟨a, ha, hreply, hstore⟩ := hans
    refine ⟨⟨a, ha, hreply, ?_⟩, Or.inl (hrelearned.since hle)⟩
    show C.store w₃.env = _
    rw [henv, hkeep]
    exact hstore

/-- The command has been written, with what goes along, and its reply has been read. -/
structure Exchanged (C : Cluster ω) (c : ConnId) (u u' : Option ConnId) (w₁ w₂ : World ω) : Prop where
  acquainted : Acquainted u' w₂
  ends : w₂.endOf c = w₁.endOf c
  cc : w₂.cc = w₁.cc
  ready : u' = none → Ready c w₂
  lt : c < w₂.nextConn
  along : (u' = u ∧ (u = none → w₁.cc.needUpdateRoute = false)) ∨ u = none ∧ u' = some c

include hH in
/-- **One exchange.**  The node gets the command, and its reply is taken up. -/
theorem execSend_exchanged {c : ConnId} {u : Option ConnId} {Q : Exec → World ω → Prop}
    (hw : Acquainted u w₁) (hready : Ready c w₁) (hlt : c < w₁.nextConn) (hu : u ≠ some c)
    {reply : Reply} {store : Bytes × ℕ → Store}
    (hreply : ∀ env p, C.store env = C.store w₁.env → p.addr = w₁.endOf c →
      (H.reply env p (.command cmd.id cmd.cmd)).1 = .ok reply ∧
      C.store (H.reply env p (.command cmd.id cmd.cmd)).2 = store)
    (hQ : ∀ u' w₂, Exchanged C c u u' w₁ w₂ → C.store w₂.env = store →
      wp (execReply c u' ⟨.command cmd.id cmd.cmd, reply⟩) Q w₂) :
    wp (execSend H cmd c u) Q w₁ := by
  unfold execSend
  rw [wp_bind]
  refine wp_mono (wp_and (redisAppendCommand_healthy hH.toHealthy c _ w₁)
    (calmly (within_redisAppendCommand H c _) w₁)) ?_
  rintro _ w₂ ⟨⟨rfl, hstore₂, hconns₂, hnext₂, hheap₂, hcc₂⟩, hcalm₂⟩
  obtain ⟨herr₂, hqueue₂⟩ := pushed_ready hready (.command cmd.id cmd.cmd)
  rw [← hconns₂] at herr₂ hqueue₂
  dsimp only
  rw [wp_bind]
  refine wp_mono (wp_and (pipelineUpdate_along hH herr₂)
    (calmly (within_pipelineUpdate H c u) w₂)) ?_
  rintro u' w₃ ⟨⟨rest, halong, hstore₃, hconns₃, hnext₃, hheap₃, hcc₃⟩, hcalm₃⟩
  have hself₃ : w₃.conns c = { w₁.conns c with queue := .command cmd.id cmd.cmd :: rest } := by
    rw [hconns₃, Function.update_self, hqueue₂, hconns₂, World.pushed, Function.update_self]
    rfl
  have hends₃ : (w₃.peer c).addr = w₁.endOf c := by
    show ((w₃.conns c).host, (w₃.conns c).port) = _
    rw [hself₃]
    rfl
  obtain ⟨hok, hkeep⟩ := hreply w₃.env (w₃.peer c) (hstore₃.trans hstore₂) hends₃
  have herr₃ : (w₃.conns c).err = none := by
    rw [hself₃]
    exact hready.1
  have hqueue₃ : (w₃.conns c).queue = .command cmd.id cmd.cmd :: rest := by rw [hself₃]
  rw [wp_bind]
  refine wp_mono (wp_and (redisGetReply_next herr₃ hqueue₃ hok)
    (calmly (within_redisGetReply H c _) w₃)) ?_
  rintro _ w₄ ⟨⟨rfl, henv₄, hconns₄, hnext₄, hheap₄, hcc₄⟩, hcalm₄⟩
  have hconns : w₄.conns = Function.update w₁.conns c { w₁.conns c with queue := rest } := by
    rw [hconns₄, hself₃, hconns₃, hconns₂, World.pushed]
    simp only [Function.update_idem]
  have hnext : w₄.nextConn = w₁.nextConn := (hnext₄.trans hnext₃).trans hnext₂
  have hcc : w₄.cc = w₁.cc := (hcc₄.trans hcc₃).trans hcc₂
  have hends : w₄.endOf c = w₁.endOf c := by
    unfold World.endOf
    rw [hconns, Function.update_self]
  rw [Along, hcc₂] at halong
  refine hQ u' w₄ ⟨?_, hends, hcc, ?_, hnext ▸ hlt, ?_⟩ (by rw [henv₄, hkeep])
  · refine hw.along hready hlt hu ?_ ((hcalm₂.trans hcalm₃).trans hcalm₄) hconns hnext
      ((hheap₄.trans hheap₃).trans hheap₂)
    exact halong.imp_left fun h => ⟨h.1, h.2.1⟩
  · rintro rfl
    rcases halong with ⟨-, rfl, -⟩ | ⟨-, h, -⟩
    · unfold Ready
      rw [hconns, Function.update_self]
      exact ⟨hready.1, rfl⟩
    · cases h
  · rcases halong with ⟨h, -, hneed⟩ | ⟨h, h', -⟩
    · exact Or.inl ⟨h, hneed⟩
    · exact Or.inr ⟨h, h'⟩

include hH hslot in
/-- A redirect is followed while there are retries left. -/
theorem execReply_moved {c : ConnId} {u' : Option ConnId} {q : Sent} (hw : Acquainted u' w₁)
    (hstore : C.store w₁.env = C.store w.env) (hend : w₁.endOf c ≠ C.owner slot)
    (hbudget : w₁.cc.retryCount < w₁.cc.maxRetryCount)
    (hu : u' = some c ∨ u' = none ∧ Ready c w₁ ∧ c < w₁.nextConn) :
    wp (execReply c u' ⟨q, .error (movedText slot (C.owner slot))⟩)
      (fun e w' => Heals C slot argv w (e, w')) w₁ := by
  have hmax : ¬ w₁.cc.maxRetryCount < w₁.cc.retryCount + 1 := by omega
  unfold execReply
  dsimp only
  rw [errorType_movedText]
  show wp (execRedirect c u' .moved (movedText slot (C.owner slot))) _ w₁
  unfold execRedirect
  rw [wp_bind, wp_modifyCc, wp_bind, wp_get, if_neg hmax]
  dsimp only
  rw [wp_bind]
  have hadvance := (advance_handleMoved (movedText slot (C.owner slot))).wp
    { w₁ with cc := { w₁.cc with retryCount := w₁.cc.retryCount + 1 } }
  refine wp_mono (wp_and (handleMoved_named (hw.of_cc rfl rfl rfl rfl) hslot
    (hH.nameable slot hslot)) hadvance) ?_
  rintro _ w₂ ⟨⟨n, rfl, hw₂, hn, hplace, henv, hconns, -⟩, hadv⟩
  have hends : w₂.endOf c = w₁.endOf c := by
    unfold World.endOf
    rw [hconns]
  have hstore₂ : C.store w₂.env = C.store w.env := by
    rw [henv]
    exact hstore
  refine ⟨hw₂, hstore₂, hn, hplace, hends ▸ hend, hu.imp_right fun h => ?_⟩
  obtain ⟨rfl, hready, hlt⟩ := h
  refine ⟨rfl, ?_, lt_of_lt_of_le hlt hadv.nextConn⟩
  show Ready c w₂
  unfold Ready
  rw [hconns]
  exact hready

include hH hslot hdec habout in
/-- The command is served where it belongs, and redirected elsewhere. -/
theorem execSend_heals {c : ConnId} {u : Option ConnId} (hw : Acquainted u w₁)
    (hstore : C.store w₁.env = C.store w.env) (hready : Ready c w₁) (hlt : c < w₁.nextConn)
    (hbudget : w.cc.retryCount < w.cc.maxRetryCount)
    (hu : u = none ∧ SameContext w w₁ ∧ (w₁.endOf c = C.owner slot → w.Knows C slot) ∨
      u ≠ none ∧ u ≠ some c ∧ w₁.endOf c = C.owner slot) :
    Heals C slot argv w (execSend H cmd c u w₁) := by
  have huc : u ≠ some c := by
    rcases hu with ⟨rfl, -⟩ | ⟨-, huc, -⟩
    · exact (Option.some_ne_none c).symm
    · exact huc
  show wp (execSend H cmd c u) (fun e w' => Heals C slot argv w (e, w')) w₁
  by_cases hend : w₁.endOf c = C.owner slot
  · -- the node serves the slot
    have hserved : ∀ env p, C.store env = C.store w₁.env → p.addr = w₁.endOf c →
        (H.reply env p (.command cmd.id cmd.cmd)).1 =
            .ok (serve argv (C.store w.env (C.owner slot))).1 ∧
          C.store (H.reply env p (.command cmd.id cmd.cmd)).2 =
            Function.update (C.store w.env) (C.owner slot)
              (serve argv (C.store w.env (C.owner slot))).2 := by
      intro env p hst haddr
      have hp : p.addr = C.owner slot := haddr.trans hend
      have hserved := hH.command env p cmd.id cmd.cmd argv hdec habout.proper
        (hp ▸ habout.owns)
      rwa [hp, hst, hstore] at hserved
    apply execSend_exchanged hH hw hready hlt huc hserved
    · intro u' w₂ hex hst
      have hdone : ∀ q, Heals C slot argv w (⟨.done (some ⟨q,
          (serve argv (C.store w.env (C.owner slot))).1⟩), u'⟩, w₂) := by
        refine fun q => ⟨hex.acquainted, ⟨_, rfl, rfl, hst⟩, ?_⟩
        rintro rfl
        rcases hex.along with ⟨rfl, hneed⟩ | ⟨-, h⟩
        · rcases hu with ⟨-, ⟨e, str, hcc⟩, hknows⟩ | ⟨hne, -⟩
          · refine ⟨hknows hend, ?_, ?_⟩
            · have hneed := hneed rfl
              rwa [hcc] at hneed
            · show w₂.cc.settings = w.cc.settings
              rw [hex.cc, hcc]
              rfl
          · exact absurd rfl hne
        · cases h
      unfold execReply
      dsimp only
      rcases serve_not_redirect argv (C.store w.env (C.owner slot)) with h | h
      · rw [h]
        exact hdone _
      · rw [h]
        exact hdone _
  · -- the node redirects
    rcases hu with ⟨rfl, ⟨e, str, hcc⟩, -⟩ | ⟨-, -, h⟩
    · have hmoved : ∀ env p, C.store env = C.store w₁.env → p.addr = w₁.endOf c →
          (H.reply env p (.command cmd.id cmd.cmd)).1 =
              .ok (.error (movedText slot (C.owner slot))) ∧
            C.store (H.reply env p (.command cmd.id cmd.cmd)).2 = C.store w.env := by
        intro env p hst haddr
        obtain ⟨hreply, hkeep⟩ := hH.moved env p cmd.id cmd.cmd argv slot hdec habout
          fun h => hend (haddr.symm.trans h.symm)
        exact ⟨hreply, hkeep.trans (hst.trans hstore)⟩
      apply execSend_exchanged hH hw hready hlt huc hmoved
      · intro u' w₂ hex hst
        refine execReply_moved hH hslot hex.acquainted hst (hex.ends ▸ hend) ?_ ?_
        · rw [hex.cc, hcc]
          exact hbudget
        · rcases hex.along with ⟨rfl, -⟩ | ⟨-, rfl⟩
          · exact Or.inr ⟨rfl, hex.ready rfl, hex.lt⟩
          · exact Or.inl rfl
    · exact absurd h hend

include hH hslot hcmd hdec habout in
/-- **The first redirect heals the slot map.**  A single-slot command from a client with a stale
slot map is answered once, by the node that serves the slot; if the slot led elsewhere, or an
update was scheduled, the client has exchanged its node set afterwards, all connections lead
to their nodes, and every slot to the node that serves it. -/
theorem redisClusterCommandExecute_recovers (hw : Acquainted none w)
    (hbudget : w.cc.retryCount < w.cc.maxRetryCount) :
    wp (redisClusterCommandExecute H cmd) (fun r w' =>
      Answered C slot argv w r w' ∧ Recovered C slot w w') w := by
  have hstep : ∀ s, Heals C slot argv w s ∧ w.nextNode ≤ s.2.nextNode →
      Heals C slot argv w (execNext H cmd s) ∧ w.nextNode ≤ (execNext H cmd s).2.nextNode := by
    rintro ⟨⟨pc, u⟩, w₁⟩ ⟨hs, hle⟩
    have hlaw : Lawful w₁ (execNext H cmd (⟨pc, u⟩, w₁)).2 := within_execStep H cmd _ w₁
    refine ⟨?_, hle.trans hlaw.nextNode⟩
    cases pc with
    | retry =>
      obtain ⟨rfl, rfl⟩ := hs
      exact execRetry_heals hH hslot hcmd hw
    | send c =>
      obtain ⟨hw₁, hstore, hready, hlt, hu⟩ := hs
      exact execSend_heals hH hslot hdec habout hw₁ hstore hready hlt hbudget hu
    | moved n c =>
      obtain ⟨hw₁, hstore, hn, hplace, hend, hu⟩ := hs
      exact execMoved_heals hH hw₁ hstore hn hplace hend hu
    | follow n ask =>
      obtain ⟨rfl, c, rfl, hw₁, hstore, hn, hplace, hend⟩ := hs
      exact execFollow_heals hH hw₁ hstore hn hplace hend
    | asking c => exact hs.elim
    | done r =>
      obtain ⟨hw₁, hans, hnone⟩ := hs
      exact execDone_heals hH hw₁ hle hans hnone
    | ret r => exact hs
  obtain ⟨hrun, -⟩ : Heals C slot argv w (execAt H cmd w (execFuel w)) ∧ _ :=
    Machine.iterate_guarded (G := fun _ => True)
      (I := fun s => Heals C slot argv w s ∧ w.nextNode ≤ s.2.nextNode) (fun s _ => hstep s)
      (fun _ => trivial) (show Heals C slot argv w (execStart, w) ∧ _ from ⟨⟨rfl, rfl⟩, le_rfl⟩)
      (execFuel w)
  obtain ⟨r, hr⟩ := execAt_returned H cmd w
  show Answered C slot argv w (execAt H cmd w (execFuel w)).1.result _ ∧ _
  unfold Heals at hrun
  rw [hr] at hrun
  rw [Exec.result, hr]
  exact hrun

end Loop

/-! ## Two nodes -/

section Two

/-- The slot that a server finds a command to be about: that of its first key. -/
def slotFor (argv : List Bytes) : Option ℕ :=
  match argv with
  | [] => none
  | name :: args =>
    (namedType name).bind fun type => (items type args).head?.map fun i => keyHashSlot i.1

theorem AboutSlot.slotFor_eq {argv : List Bytes} {slot : ℕ} (h : AboutSlot argv slot) :
    slotFor argv = some slot := by
  obtain ⟨name, args, type, rfl, hname, hwf, hslots⟩ := h
  obtain ⟨i, is, his⟩ := List.exists_cons_of_ne_nil (items_ne_nil hwf)
  rw [slotFor, hname, Option.bind_some, his]
  exact congrArg some (hslots i (his ▸ List.mem_cons_self))

theorem Cluster.Owns.owner_eq {C : Cluster ω} {node : Bytes × ℕ} {argv : List Bytes} {slot : ℕ}
    (h : C.Owns node argv) (hslot : slotFor argv = some slot) : C.owner slot = node := by
  unfold slotFor at hslot
  split at hslot
  · cases hslot
  · rename_i name args
    obtain ⟨type, hname, hhead⟩ := Option.bind_eq_some_iff.mp hslot
    obtain ⟨i, hi, rfl⟩ := Option.map_eq_some_iff.mp hhead
    exact h name args type rfl hname i (List.mem_of_mem_head? hi)

/-- The node that serves the slots below 8192. -/
def lowerMaster : Master where
  host := ascii "a"
  port := 1
  plain := by decide +kernel
  port_pos := by decide +kernel
  port_le := by decide +kernel
  id := ascii "low"
  ranges := [⟨0, 8191⟩]
  named := by decide +kernel
  shown := by decide +kernel
  bounded := by decide +kernel

/-- The node that serves the others. -/
def upperMaster : Master where
  host := ascii "b"
  port := 2
  plain := by decide +kernel
  port_pos := by decide +kernel
  port_le := by decide +kernel
  id := ascii "high"
  ranges := [⟨8192, 16383⟩]
  named := by decide +kernel
  shown := by decide +kernel
  bounded := by decide +kernel

def halves (tcpHost : Bytes) : Topology tcpHost where
  masters := [lowerMaster, upperMaster]
  ids := List.pairwise_pair.mpr (by decide +kernel)
  addrs := by
    rw [List.pairwise_pair]
    show hostPort (ascii "a") 1 ≠ hostPort (ascii "b") 2
    intro h
    exact absurd (hostPort_inj h).2 (Nat.ne_of_lt Nat.one_lt_two)
  disjoint := List.pairwise_pair.mpr (SlotRange.slots_disjoint (Nat.lt_succ_self 8191))
  covered := ⟨lowerMaster, List.mem_cons_self, List.cons_ne_nil _ _⟩

theorem halves_shows (tcpHost : Bytes) : (halves tcpHost).Shows twoServers := by
  intro slot hslot
  have hlt : slot < 16384 := hslot
  have hlower : slot ∈ lowerMaster.slots ↔ slot < 8192 := by
    simp only [Master.slots, lowerMaster, List.flatMap_cons, List.flatMap_nil, List.append_nil,
      SlotRange.mem_slots]
    omega
  have hupper : slot ∈ upperMaster.slots ↔ 8192 ≤ slot := by
    simp only [Master.slots, upperMaster, List.flatMap_cons, List.flatMap_nil, List.append_nil,
      SlotRange.mem_slots]
    omega
  unfold Topology.route
  show ([lowerMaster, upperMaster].find? _).map _ = some (hostPort (twoOwners slot).1
    (twoOwners slot).2, twoOwners slot)
  by_cases h : slot < 8192
  · rw [List.find?_cons_of_pos (by simpa using hlower.mpr h), twoOwners, if_pos h]
    rfl
  · rw [List.find?_cons_of_neg (by simpa using fun hmem => h (hlower.mp hmem)),
      List.find?_cons_of_pos (by simpa using hupper.mpr (Nat.le_of_not_lt h)), twoOwners, if_neg h]
    rfl

/-- The answer to CLUSTER SLOTS. -/
def halvesEntries : List Reply :=
  [.array [.integer 0, .integer 8191,
      .array [.string (ascii "a"), .integer 1, .string (ascii "low")]],
    .array [.integer 8192, .integer 16383,
      .array [.string (ascii "b"), .integer 2, .string (ascii "high")]]]

def lowerLine : ServerLine where
  id := ascii "low"
  endpoint := lowerMaster.toEndpoint
  suffix := []
  flags := ascii "master"
  middle := [ascii "-", ascii "0", ascii "0", ascii "2", ascii "connected"]
  slots := [ascii "0-8191"]
  suffix_eq := noSuffix
  middle_length := rfl
  plain := by decide +kernel

def upperLine : ServerLine where
  id := ascii "high"
  endpoint := upperMaster.toEndpoint
  suffix := []
  flags := ascii "master"
  middle := [ascii "-", ascii "0", ascii "0", ascii "3", ascii "connected"]
  slots := [ascii "8192-16383"]
  suffix_eq := noSuffix
  middle_length := rfl
  plain := by decide +kernel

theorem halvesEntries_describe (tcpHost : Bytes) : (halves tcpHost).SlotsEntries halvesEntries := by
  refine ⟨halvesEntries, .cons ?_ (.cons ?_ .nil), List.Perm.refl _⟩
  · exact .mk (.named _) fun x hx => by cases hx
  · exact .mk (.named _) fun x hx => by cases hx

theorem halvesLines_describe (tcpHost : Bytes) :
    (halves tcpHost).NodesLines [lowerLine, upperLine] := by
  refine ⟨[lowerLine, upperLine], [], .cons ?_ (.cons ?_ .nil), ?_, List.Perm.refl _⟩
  · refine ⟨rfl, rfl, ⟨[], Or.inl (by decide +kernel)⟩, ?_⟩
    exact .range (.range (ascii "0") (ascii "8191") (by decide +kernel) (by decide +kernel)
      (by decide +kernel) (by decide +kernel) (by decide +kernel) (by decide +kernel)) .nil
  · refine ⟨rfl, rfl, ⟨[], Or.inl (by decide +kernel)⟩, ?_⟩
    exact .range (.range (ascii "8192") (ascii "16383") (by decide +kernel) (by decide +kernel)
      (by decide +kernel) (by decide +kernel) (by decide +kernel) (by decide +kernel)) .nil
  · intro l hl
    cases hl

/-- The environment in which nodes redirect what is not theirs. -/
def Hiredis.redirecting : Hiredis (Bytes × ℕ → Store) :=
  { Hiredis.serving with
    reply := fun env p q =>
      match q with
      | .command id bytes =>
        match (decodeCommand bytes).bind slotFor with
        | some slot =>
          if twoOwners slot = p.addr then Hiredis.serving.reply env p (.command id bytes)
          else (.ok (.error (movedText slot (twoOwners slot))), env)
        | none => Hiredis.serving.reply env p (.command id bytes)
      | .clusterSlots => (.ok (.array halvesEntries), env)
      | .clusterNodes => (.ok (nodesText [lowerLine, upperLine]), env)
      | _ => (.ok (.status (ascii "OK")), env) }

theorem redirecting_healthy : Hiredis.redirecting.Healthy twoServers where
  connect _ _ _ := ⟨rfl, rfl⟩
  reconnect _ _ := ⟨rfl, rfl⟩
  initSsl _ _ := ⟨rfl, rfl⟩
  append _ _ _ := ⟨rfl, rfl⟩
  auth _ _ _ _ := ⟨_, rfl, rfl, rfl⟩
  command env p id bytes argv hdec hproper howns := by
    have hserved : Hiredis.redirecting.reply env p (.command id bytes) =
        Hiredis.serving.reply env p (.command id bytes) := by
      unfold Hiredis.redirecting
      dsimp only
      rw [hdec, Option.bind_some]
      split
      · rename_i slot hslot
        exact if_pos (howns.owner_eq hslot)
      · rfl
    rw [hserved]
    exact serving_healthy.command env p id bytes argv hdec hproper howns

theorem redirecting_redirects : Hiredis.redirecting.Redirects twoServers where
  toHealthy := redirecting_healthy
  flush _ _ := ⟨rfl, rfl⟩
  moved env p id bytes argv slot hdec habout howner := by
    have hmoved : Hiredis.redirecting.reply env p (.command id bytes) =
        (.ok (.error (movedText slot (twoOwners slot))), env) := by
      unfold Hiredis.redirecting
      dsimp only
      rw [hdec, Option.bind_some, habout.slotFor_eq]
      exact if_neg howner
    rw [hmoved]
    exact ⟨rfl, rfl⟩
  topology env p q hq := by
    rcases hq with rfl | rfl
    · exact ⟨_, rfl, ⟨_, halves_shows p.host, _, rfl, halvesEntries_describe p.host⟩, rfl⟩
    · exact ⟨_, rfl, ⟨_, halves_shows p.host, _, rfl, halvesLines_describe p.host⟩, rfl⟩
  nameable slot _ := by
    show Nameable (twoOwners slot)
    unfold twoOwners
    split
    · exact ⟨by decide, by decide, by decide, by decide, by decide⟩
    · exact ⟨by decide, by decide, by decide, by decide, by decide⟩

/-- A client that takes the first node for the only one. -/
def staleClient (env : Bytes × ℕ → Store) : World (Bytes × ℕ → Store) where
  env := env
  cc := { nodes := some (nodeDict [(ascii "a:1", 0)]), table := some fun _ => some 0 }
  heap _ := { addr := ascii "a:1", host := ascii "a", port := 1, role := .master }
  nextNode := 1

theorem staleClient_known (env : Bytes × ℕ → Store) (n : NodeId) :
    (staleClient env).Known n ↔ n = 0 := by
  have hvals : (nodeDict [(ascii "a:1", 0)]).vals = [0] := by decide +kernel
  show n ∈ (nodeDict [(ascii "a:1", 0)]).vals ↔ n = 0
  rw [hvals, List.mem_singleton]

theorem staleClient_acquainted (env : Bytes × ℕ → Store) : Acquainted none (staleClient env) := by
  constructor
  · constructor
    · constructor
      · constructor
        · intro d hd k n hkn
          obtain rfl := Option.some.inj hd
          have hmem : (k, n) ∈ [(ascii "a:1", 0)] := by
            have hentries : (nodeDict [(ascii "a:1", 0)]).entries = [(ascii "a:1", 0)] := by
              decide +kernel
            rwa [← hentries]
          rw [List.mem_singleton] at hmem
          exact (Prod.mk.inj hmem).1.symm
        · intro t ht s n hn
          obtain rfl := Option.some.inj ht
          have hfind : (nodeDict [(ascii "a:1", 0)]).find (ascii "a:1") = some 0 := by
            decide +kernel
          obtain rfl := Option.some.inj hn
          exact ⟨_, rfl, hfind⟩
      · intro n hn
        rw [staleClient_known] at hn
        subst hn
        exact Nat.zero_lt_one
      · intro v hv
        cases hv
    · constructor
      · intro n c hc
        cases hc
      · intro n n' c hc
        cases hc
  · exact ⟨_, rfl, fun _ _ => Option.some_ne_none 0⟩
  · intro n _
    have haddr : ascii "a:1" = hostPort (ascii "a") 1 := by decide +kernel
    exact ⟨haddr, Nat.one_ne_zero⟩
  · intro n c hc
    cases hc
  · intro c hc
    cases hc

/-- The command goes to the wrong node, and afterwards the client knows both. -/
theorem redisClusterCommandExecute_recovers_moved :
    let w := staleClient fun _ _ => none
    let argv := [ascii "DEL", ascii "a"]
    wp (redisClusterCommandExecute Hiredis.redirecting
        { id := 1, slotNum := 15495, cmd := encodeCommand argv })
      (fun r w' => Answered twoServers 15495 argv w r w' ∧ Relearned twoServers w w') w := by
  intro w argv
  have habout : AboutSlot argv 15495 := by
    refine ⟨_, _, .del, rfl, by decide, by decide, fun i hi => ?_⟩
    obtain rfl := List.mem_singleton.mp hi
    decide +kernel
  refine wp_mono (redisClusterCommandExecute_recovers redirecting_redirects (by decide) rfl
    (by decide +kernel) habout (staleClient_acquainted _) (by decide)) ?_
  rintro r w' ⟨hans, hrelearned | ⟨⟨t, n, ht, hn, hplace⟩, -⟩⟩
  · exact ⟨hans, hrelearned⟩
  · -- the slot led to the other node
    exact absurd (show (ascii "a", 1) = twoOwners 15495 from hplace) (by decide)

end Two
