/-
# Learning the slot map anew

A client whose slot map is out of date still has connections that lead to the nodes they belong
to.  When the cluster tells it the topology, the node set is replaced, the connections go to the
new nodes with the same addresses, and the client is in touch with the cluster again:
`clusterUpdateRouteHandleReply_inTouch`.
-/
import HiredisCluster.Agreement
import HiredisCluster.Cluster
import HiredisCluster.Iterator

open Program

variable {ω : Type} {C : Cluster ω}

/-! ## Addresses -/

theorem decimal_inj {m n : ℕ} (h : decimal m = decimal n) : m = n := by
  rw [← numeral_decimal m, h, numeral_decimal]

theorem colon_notMem_decimal (n : ℕ) : (58 : UInt8) ∉ decimal n := by
  intro h
  have hdigit := isDigit_of_mem_decimal h
  exact absurd hdigit (by decide)

/-- Host and port can be read off an address, also when the host has colons. -/
theorem hostPort_inj {host host' : Bytes} {port port' : ℕ}
    (h : hostPort host port = hostPort host' port') : host = host' ∧ port = port' := by
  unfold hostPort at h
  rw [Int.toNat_natCast, Int.toNat_natCast] at h
  have hlen : host.length = host'.length := by
    have hlast := congrArg (lastIdx 58) h
    rw [lastIdx_append (colon_notMem_decimal port), lastIdx_append (colon_notMem_decimal port')]
      at hlast
    exact Option.some.inj hlast
  obtain ⟨hhost, hrest⟩ := List.append_inj h hlen
  exact ⟨hhost, decimal_inj (List.cons_eq_cons.mp hrest).2⟩

/-- The node can be reached at the address it is filed under. -/
structure Node.Plain (n : Node) : Prop where
  addr : n.addr = hostPort n.host n.port
  port : n.port ≠ 0

/-- Two such nodes with one address are at one place. -/
theorem Node.Plain.eq_of_addr {n m : Node} (hn : n.Plain) (hm : m.Plain) (h : n.addr = m.addr) :
    (n.host, n.port) = (m.host, m.port) := by
  rw [hn.addr, hm.addr] at h
  obtain ⟨hhost, hport⟩ := hostPort_inj h
  rw [hhost, hport]

theorem Node.Plain.of_endpoint {n m : Node} (h : m.endpoint = n.endpoint) (hn : n.Plain) :
    m.Plain := by
  obtain ⟨haddr, hrest⟩ := Prod.mk.inj h
  obtain ⟨hhost, hport⟩ := Prod.mk.inj hrest
  constructor
  · rw [haddr, hhost, hport]
    exact hn.addr
  · rw [hport]
    exact hn.port

/-! ## Where connections lead -/

/-- Connection `c` of node `n` leads to it, and owes nothing unless it is `u`. -/
structure AtNode (u : Option ConnId) (n : NodeId) (c : ConnId) (w : World ω) : Prop where
  plain : (w.heap n).Plain
  lt : c < w.nextConn
  host : ((w.conns c).host, (w.conns c).port) = ((w.heap n).host, (w.heap n).port)
  idle : u ≠ some c → Idle c w

/-- Every connection of a node leads to it; on `u` a query is waiting. -/
def Leading (u : Option ConnId) (w : World ω) : Prop :=
  ∀ n c, (w.heap n).con = some c → AtNode u n c w

/-- Where connections lead is a matter of the nodes and the connections. -/
theorem Leading.transfer {u u' : Option ConnId} {w w' : World ω} (h : Leading u w)
    (hnext : w'.nextConn = w.nextConn)
    (hheap : ∀ n c, (w'.heap n).con = some c →
      (w.heap n).con = some c ∧ (w'.heap n).endpoint = (w.heap n).endpoint)
    (hconns : ∀ c, ((w'.conns c).host, (w'.conns c).port) = ((w.conns c).host, (w.conns c).port))
    (hidle : ∀ c, u' ≠ some c → (u ≠ some c → Idle c w) → Idle c w') : Leading u' w' := by
  intro n c hc
  obtain ⟨hcon, hend⟩ := hheap n c hc
  obtain ⟨hplain, hlt, hhost, hi⟩ := h n c hcon
  constructor
  · exact hplain.of_endpoint hend
  · rw [hnext]
    exact hlt
  · obtain ⟨-, hrest⟩ := Prod.mk.inj hend
    obtain ⟨hh, hp⟩ := Prod.mk.inj hrest
    rw [hconns c, hhost, hh, hp]
  · intro hu
    exact hidle c hu hi

theorem Leading.same {u : Option ConnId} {w w' : World ω} (h : Leading u w)
    (hheap : w'.heap = w.heap) (hconns : w'.conns = w.conns) (hnext : w'.nextConn = w.nextConn) :
    Leading u w' := by
  apply h.transfer hnext
  · intro n c hc
    rw [hheap] at hc ⊢
    exact ⟨hc, rfl⟩
  · intro c
    rw [hconns]
  · intro c hu hi
    exact (hi hu).of_conns (by rw [hconns])

/-- The connections still lead to their nodes, and the environment is not asked. -/
structure Anchored (w w' : World ω) : Prop where
  env : w'.env = w.env
  leading : Leading none w → Leading none w'

theorem Anchored.trans {w w' w'' : World ω} (h : Anchored w w') (h' : Anchored w' w'') : Anchored w w'' :=
  ⟨h'.env.trans h.env, fun hl => h'.leading (h.leading hl)⟩

instance : Std.Refl (@Anchored ω) := ⟨fun _ => ⟨rfl, id⟩⟩

instance : IsTrans (World ω) Anchored := ⟨fun _ _ _ => Anchored.trans⟩

theorem anchored_of_same {w w' : World ω} (henv : w'.env = w.env) (hheap : w'.heap = w.heap)
    (hconns : w'.conns = w.conns) (hnext : w'.nextConn = w.nextConn) : Anchored w w' :=
  ⟨henv, fun h => h.same hheap hconns hnext⟩

theorem anchored_redisFree (c : Option ConnId) : Within Anchored (redisFree c : Prog ω Unit) := by
  cases c with
  | none => exact within_pure _
  | some c =>
    refine fun w => ⟨rfl, fun h => ?_⟩
    show Leading none _
    have hconns : ∀ c', ∃ q b, Function.update w.conns c
        { w.conns c with queue := [], alive := false } c' =
          { w.conns c' with queue := q, alive := b } ∧ (q = (w.conns c').queue ∨ q = []) := by
      intro c'
      rcases eq_or_ne c' c with rfl | hc
      · exact ⟨[], false, Function.update_self _ _ _, Or.inr rfl⟩
      · exact ⟨_, _, Function.update_of_ne hc _ _, Or.inl rfl⟩
    apply @Leading.transfer _ none none _ (redisFree (some c) w).2 h
    · rfl
    · exact fun n c' hc => ⟨hc, rfl⟩
    · intro c'
      obtain ⟨q, b, heq, -⟩ := hconns c'
      show ((Function.update w.conns c _ c').host, (Function.update w.conns c _ c').port) = _
      rw [heq]
    · intro c' hu hi herr
      obtain ⟨q, b, heq, hq⟩ := hconns c'
      change (Function.update w.conns c _ c').err = none at herr
      show (Function.update w.conns c _ c').queue = []
      rw [heq] at herr ⊢
      rcases hq with rfl | rfl
      · exact hi hu herr
      · rfl

/-- A new node without a connection. -/
theorem Leading.newNode {u : Option ConnId} {w w' : World ω} (h : Leading u w) {node : Node}
    (hcon : node.con = none) (hheap : w'.heap = Function.update w.heap w.nextNode node)
    (hconns : w'.conns = w.conns) (hnext : w'.nextConn = w.nextConn) : Leading u w' := by
  apply h.transfer hnext
  · intro n c hc
    rw [hheap] at hc ⊢
    rcases eq_or_ne n w.nextNode with rfl | hn
    · rw [Function.update_self, hcon] at hc
      cases hc
    · rw [Function.update_of_ne hn] at hc ⊢
      exact ⟨hc, rfl⟩
  · intro c
    rw [hconns]
  · intro c hu hi
    exact (hi hu).of_conns (by rw [hconns])

theorem anchored_newNode {node : Node} (hcon : node.con = none) :
    Within Anchored (newNode node : Prog ω NodeId) :=
  fun _ => ⟨rfl, fun h => h.newNode hcon rfl rfl rfl⟩

theorem anchored_editNode (n : NodeId) {f : Node → Node}
    (hf : ∀ node, (f node).endpoint = node.endpoint ∧ (f node).con = node.con) :
    Within Anchored (modifyNode n f : Prog ω Unit) := by
  refine fun w => ⟨rfl, fun h => ?_⟩
  apply @Leading.transfer _ none none _ (modifyNode n f w).2 h
  · rfl
  · intro m c hc
    change (Function.update w.heap n (f (w.heap n)) m).con = some c at hc
    show _ ∧ (Function.update w.heap n (f (w.heap n)) m).endpoint = _
    rcases eq_or_ne m n with rfl | hm
    · rw [Function.update_self] at hc ⊢
      exact ⟨(hf _).2 ▸ hc, (hf _).1⟩
    · rw [Function.update_of_ne hm] at hc ⊢
      exact ⟨hc, rfl⟩
  · exact fun c => rfl
  · exact fun c hu hi => hi hu

instance : ParseClosed (@Anchored ω) where
  setError _ _ _ := anchored_of_same rfl rfl rfl rfl
  redisFree := anchored_redisFree
  detachAsync a := by
    cases a with
    | none => exact within_pure _
    | some a => exact fun _ => anchored_of_same rfl rfl rfl rfl
  released _ _ := anchored_of_same rfl rfl rfl rfl
  newNode := anchored_newNode
  editNode n _ hf := anchored_editNode n hf

/-! ## Handing over -/

/-- What connections the nodes have when `f` and `t` exchange theirs. -/
theorem exchange_con {heap : NodeId → Node} {f t n : NodeId} {nf nt : Node} {c : ConnId}
    (hf : nf.con = if (heap f).con.isSome then (heap t).con else (heap f).con)
    (ht : nt.con = if (heap f).con.isSome then (heap f).con
      else (Function.update heap f nf t).con)
    (h : (Function.update (Function.update heap f nf) t nt n).con = some c) :
    (heap n).con = some c ∨ (n = t ∧ (heap f).con = some c) ∨
      (n = f ∧ (heap t).con = some c ∧ (heap f).con ≠ none) := by
  cases hcon : (heap f).con with
  | none =>
    -- nothing is exchanged
    rw [hcon] at hf ht
    simp only [Option.isSome_none, Bool.false_eq_true, if_false] at hf ht
    refine Or.inl ?_
    have hsame : ∀ m, (Function.update heap f nf m).con = (heap m).con := by
      intro m
      rcases eq_or_ne m f with rfl | hm
      · rw [Function.update_self, hf, hcon]
      · rw [Function.update_of_ne hm]
    rcases eq_or_ne n t with rfl | hn
    · rw [Function.update_self, ht, hsame] at h
      exact h
    · rw [Function.update_of_ne hn, hsame] at h
      exact h
  | some c' =>
    rw [hcon] at hf ht
    simp only [Option.isSome_some, if_true] at hf ht
    rcases eq_or_ne n t with rfl | hn
    · rw [Function.update_self, ht] at h
      exact Or.inr (Or.inl ⟨rfl, h⟩)
    · rw [Function.update_of_ne hn] at h
      rcases eq_or_ne n f with rfl | hnf
      · rw [Function.update_self, hf] at h
        exact Or.inr (Or.inr ⟨rfl, h, Option.some_ne_none c'⟩)
      · rw [Function.update_of_ne hnf] at h
        exact Or.inl h

theorem relinkAsync_same (a : Option AConnId) (n : NodeId) (w : World ω) :
    wp (relinkAsync a n) (fun _ w' => w'.env = w.env ∧ w'.heap = w.heap ∧ w'.conns = w.conns) w := by
  cases a with
  | none => exact ⟨rfl, rfl, rfl⟩
  | some a => exact ⟨rfl, rfl, rfl⟩

theorem swapNodeCtx_con (f t : NodeId) (w : World ω) :
    wp (swapNodeCtx f t) (fun _ w' => w'.env = w.env ∧ w'.conns = w.conns ∧
      ∀ n c, (w'.heap n).con = some c → (w.heap n).con = some c ∨
        (n = t ∧ (w.heap f).con = some c) ∨
        (n = f ∧ (w.heap t).con = some c ∧ (w.heap f).con ≠ none)) w := by
  unfold swapNodeCtx modifyNode
  rw [wp_bind, wp_get, wp_bind, wp_modify, wp_bind, wp_modify]
  dsimp only
  split
  · rw [wp_bind]
    refine wp_mono (relinkAsync_same _ _ _) ?_
    rintro _ w₁ ⟨henv₁, hheap₁, hconns₁⟩
    refine wp_mono (relinkAsync_same _ _ w₁) ?_
    rintro _ w₂ ⟨henv₂, hheap₂, hconns₂⟩
    refine ⟨henv₂.trans henv₁, hconns₂.trans hconns₁, fun n c h => ?_⟩
    rw [hheap₂, hheap₁] at h
    exact exchange_con rfl rfl h
  · exact ⟨rfl, rfl, fun n c h => exchange_con rfl rfl h⟩

/-- Two nodes with one address exchange connections that lead to both. -/
theorem anchored_swapNodeCtx {f t : NodeId} {w : World ω} (ht : (w.heap t).Plain)
    (haddr : (w.heap f).addr = (w.heap t).addr) : Anchored w (swapNodeCtx f t w).2 := by
  obtain ⟨henv, hconns, hcon⟩ := swapNodeCtx_con f t w
  have hs := swapped_swapNodeCtx f t w
  refine ⟨henv, fun h n c hc => ?_⟩
  -- the node the connection comes from is at the same place
  obtain ⟨m, hm, hplain, hplace⟩ : ∃ m, (w.heap m).con = some c ∧ (w.heap n).Plain ∧
      ((w.heap m).host, (w.heap m).port) = ((w.heap n).host, (w.heap n).port) := by
    rcases hcon n c hc with hn | ⟨rfl, hf⟩ | ⟨rfl, htc, hf⟩
    · exact ⟨n, hn, (h n c hn).plain, rfl⟩
    · exact ⟨f, hf, ht, (h f c hf).plain.eq_of_addr ht haddr⟩
    · obtain ⟨c', hc'⟩ := Option.ne_none_iff_exists'.mp hf
      have hplain := (h n c' hc').plain
      exact ⟨t, htc, hplain, ht.eq_of_addr hplain haddr.symm⟩
  obtain ⟨-, hlt, hhost, hidle⟩ := h m c hm
  have hend := hs.endpoint n
  obtain ⟨-, hrest⟩ := Prod.mk.inj hend
  obtain ⟨hh, hp⟩ := Prod.mk.inj hrest
  constructor
  · exact hplain.of_endpoint hend
  · rw [hs.nextConn]
    exact hlt
  · rw [hconns, hhost, hplace, hh, hp]
  · exact fun hu => (hidle hu).of_conns (by rw [hconns])

/-- All connections that are handed over lead to the nodes that get them. -/
theorem anchored_clusterNodesSwapCtx {old : NodeDict} (ns : List NodeId) : ∀ {w : World ω},
    (∀ k f, old.find k = some f → (w.heap f).addr = k) → (∀ t ∈ ns, (w.heap t).Plain) →
      Anchored w (clusterNodesSwapCtx old ns w).2 := by
  induction ns with
  | nil =>
    intro w _ _
    exact Std.Refl.refl w
  | cons t ts ih =>
    intro w hold hns
    obtain ⟨ht, hts⟩ := List.forall_mem_cons.mp hns
    show wp (clusterNodesSwapCtx old (t :: ts)) (fun _ w' => Anchored w w') w
    unfold clusterNodesSwapCtx
    rw [wp_bind, wp_get]
    split
    · exact ih hold hts
    · rename_i f hf
      rw [wp_bind]
      have hs := swapped_swapNodeCtx f t w
      refine (anchored_swapNodeCtx ht (hold _ f hf)).trans (ih ?_ ?_)
      · intro k f' hf'
        rw [Node.addr_of_endpoint (hs.endpoint f')]
        exact hold k f' hf'
      · intro t' ht'
        exact (hts t' ht').of_endpoint (hs.endpoint t')

/-! ## Installing -/

/-- The addresses under which nodes are filed. -/
theorem Routed.filed {w : World ω} (h : Routed w) {d : NodeDict} (hd : w.cc.nodes = some d)
    {k : Bytes} {n : NodeId} (hn : d.find k = some n) : (w.heap n).addr = k :=
  h.view.filed d hd k n ((d.find_eq_some_iff k n).mp hn)

theorem anchored_installNodes {d : NodeDict} {w : World ω} (hw : Routed w)
    (hd : ∀ n ∈ d.vals, (w.heap n).Plain) :
    wp (installNodes d) (fun _ w' => Anchored w w') w := by
  have hrelease : ∀ {w₁ : World ω} (old : NodeDict), Anchored w w₁ →
      wp (dictRelease old) (fun _ w' => Anchored w w') w₁ :=
    fun old h => h.trans (within_dictRelease (R := Anchored) old _)
  unfold installNodes
  rw [wp_bind, wp_get]
  split
  · rw [wp_bind]
    refine wp_mono (P := fun _ w₁ => Anchored w w₁) (anchored_of_same rfl rfl rfl rfl) fun _ w₁ h₁ => ?_
    rw [wp_bind]
    exact hrelease d h₁
  · rw [wp_bind, wp_modifyCc]
    cases hold : w.cc.nodes with
    | none => exact anchored_of_same rfl rfl rfl rfl
    | some old =>
      dsimp only
      rw [wp_bind]
      refine wp_mono (P := fun _ w₁ => Anchored w w₁) ?_ fun _ w₁ h₁ => ?_
      · refine Anchored.trans ?_ (anchored_clusterNodesSwapCtx d.vals (fun k f => hw.filed hold) hd)
        exact anchored_of_same rfl rfl rfl rfl
      · rw [wp_bind, wp_modifyCc, wp_bind]
        exact hrelease old (h₁.trans (anchored_of_same rfl rfl rfl rfl))

/-! ## In touch again -/

/-- Every slot has a node that can be reached. -/
def Cluster.Placed (C : Cluster ω) : Prop :=
  ∀ slot < redisClusterSlots, (C.owner slot).2 ≠ 0

/-- The topology is that of the cluster. -/
def Topology.Shows {tcpHost : Bytes} (t : Topology tcpHost) (C : Cluster ω) : Prop :=
  ∀ slot < redisClusterSlots, t.route slot =
    some (hostPort (C.owner slot).1 (C.owner slot).2, C.owner slot)

theorem Represents.plain {tcpHost : Bytes} {t : Topology tcpHost} {heap : NodeId → Node}
    {d : NodeDict} (h : Represents t heap d) : ∀ n ∈ d.vals, (heap n).Plain := by
  intro n hn
  obtain ⟨a, ha⟩ := (d.mem_vals_iff n).mp hn
  obtain ⟨m, -, -, -, hend, -⟩ := h.master a n ha
  obtain ⟨haddr, hrest⟩ := Prod.mk.inj hend
  obtain ⟨hhost, hport⟩ := Prod.mk.inj hrest
  constructor
  · rw [haddr, hhost, hport]
    rfl
  · rw [hport]
    exact Nat.ne_of_gt m.port_pos

theorem anchored_updateNodesAndSlotmap {d : NodeDict} {w : World ω} (hw : Routed w)
    (hd : ∀ n ∈ d.vals, (w.heap n).Plain) :
    wp (updateNodesAndSlotmap (some d)) (fun s w' => Anchored w w' ∧
      (s = .ok → w'.cc.needUpdateRoute = false)) w := by
  unfold updateNodesAndSlotmap
  rw [wp_bind]
  refine wp_mono (anchored_installNodes hw hd) fun s w₁ h₁ => ?_
  cases s with
  | err => exact ⟨h₁, fun h => by cases h⟩
  | ok => exact ⟨h₁.trans (anchored_of_same rfl rfl rfl rfl), fun _ => rfl⟩

/-- The right table, and connections that lead to their nodes. -/
theorem InTouch.of_leading {tcpHost : Bytes} {t : Topology tcpHost} {w : World ω}
    (hl : Leading none w) (hneed : w.cc.needUpdateRoute = false) (hby : w.RoutesBy t)
    (hroute : t.Shows C) (hplaced : C.Placed) : InTouch C w := by
  refine ⟨hneed, fun slot hslot => ?_⟩
  have hslotRoute := (hby.2 slot).trans (hroute slot hslot)
  obtain ⟨table, htable⟩ := Option.isSome_iff_exists.mp hby.1
  rw [World.routeOf, htable] at hslotRoute
  obtain ⟨n, hn, hend⟩ := Option.map_eq_some_iff.mp hslotRoute
  have hnode : ((w.heap n).host, (w.heap n).port) = C.owner slot := (Prod.mk.inj hend).2
  refine ⟨table, n, htable, hn, hnode, fun _ => ?_, fun c hc => ?_⟩
  · rw [show (w.heap n).port = (C.owner slot).2 by rw [← hnode]]
    exact hplaced slot hslot
  · obtain ⟨-, hlt, hhost, hidle⟩ := hl n c hc
    exact ⟨hlt, hhost.trans hnode, hidle (Option.some_ne_none c).symm⟩

/-- The topology has been learnt anew since `w`: the node set was exchanged for one of new
nodes, all connections lead to their nodes, and the slot map is that of the cluster. -/
structure Relearned (C : Cluster ω) (w w' : World ω) : Prop extends InTouch C w' where
  exchanged : ∃ d, w'.cc.nodes = some d ∧ ∀ n ∈ d.vals, w.nextNode ≤ n
  leading : Leading none w'

theorem Relearned.since {w w₁ w' : World ω} (h : Relearned C w₁ w') (hle : w.nextNode ≤ w₁.nextNode) :
    Relearned C w w' := by
  obtain ⟨d, hd, hnew⟩ := h.exchanged
  exact ⟨h.toInTouch, ⟨d, hd, fun n hn => hle.trans (hnew n hn)⟩, h.leading⟩

/-- **A set that stands for the topology is installed**, and the client is in touch. -/
theorem updateNodesAndSlotmap_relearns {tcpHost : Bytes} {t : Topology tcpHost} {d : NodeDict}
    {w₀ w : World ω} (hw : Routed w) (hl : Leading none w) (hd : Represents t w.heap d)
    (hfresh : AllFresh w₀.nextNode w d) (hroute : t.Shows C) (hplaced : C.Placed) :
    wp (updateNodesAndSlotmap (some d)) (fun s w' => s = .ok ∧ w'.env = w.env ∧
      Relearned C w₀ w') w := by
  refine wp_mono (wp_and (updateNodesAndSlotmap_represents hd)
    (wp_and (anchored_updateNodesAndSlotmap hw hd.plain) (updateNodesAndSlotmap_version d w))) ?_
  rintro s w' ⟨⟨rfl, hby⟩, ⟨hanchored, hneed⟩, hversion⟩
  have hl' := hanchored.leading hl
  refine ⟨rfl, hanchored.env, .of_leading hl' (hneed rfl) hby hroute hplaced,
    ⟨d, (hversion rfl).1, fun n hn => ?_⟩, hl'⟩
  obtain ⟨k, hk⟩ := (d.mem_vals_iff n).mp hn
  exact (hfresh k n ((d.find_eq_some_iff k n).mp hk)).lo_le

/-- What a node tells about the slots, in the format of the query. -/
def Cluster.Tells (C : Cluster ω) (tcpHost : Bytes) (q : Sent) (r : Reply) : Prop :=
  ∃ t : Topology tcpHost, t.Shows C ∧
    match q with
    | .clusterSlots => ∃ entries, r = .array entries ∧ t.SlotsEntries entries
    | .clusterNodes => ∃ lines, r = nodesText lines ∧ t.NodesLines lines
    | _ => False

/-- A parsed set is installed. -/
theorem parsed_relearns {tcpHost : Bytes} {t : Topology tcpHost} {m : Prog ω (Option NodeDict)}
    {w : World ω} (hw : Routed w) (hl : Leading none w)
    (hm : wp m (fun r w' => ∃ d, r = some d ∧ Represents t w'.heap d) w)
    (hfresh : wp m (fun r w' => ∀ d, r = some d → AllFresh w.nextNode w' d) w)
    (hcalm : Within Calm m) (hanchored : Within Anchored m) (hroute : t.Shows C)
    (hplaced : C.Placed) :
    wp (m >>= updateNodesAndSlotmap) (fun s w' => s = .ok ∧ w'.env = w.env ∧ Relearned C w w') w := by
  rw [wp_bind]
  refine wp_mono (wp_and (wp_and hm hfresh) (wp_and (hcalm.wp w) (hanchored.wp w))) ?_
  rintro _ w₁ ⟨⟨⟨d, rfl, hd⟩, hnew⟩, hc, hs⟩
  refine wp_mono (updateNodesAndSlotmap_relearns (hw.linking hc.toLinking) (hs.leading hl) hd
    (hnew d rfl) hroute hplaced) ?_
  rintro s w₂ ⟨rfl, henv, hrelearned⟩
  exact ⟨rfl, henv.trans hs.env, hrelearned⟩

section Collecting

variable {H : Hiredis ω} {c : ConnId} {w : World ω}

/-- The query has been answered, and its connection owes nothing any more. -/
theorem Leading.collected (hl : Leading (some c) w) {w' : World ω}
    (hconns : w'.conns = Function.update w.conns c { w.conns c with queue := [] })
    (hnext : w'.nextConn = w.nextConn) (hheap : w'.heap = w.heap) : Leading none w' := by
  apply hl.transfer hnext
  · intro n c' hc
    rw [hheap] at hc ⊢
    exact ⟨hc, rfl⟩
  · intro c'
    rw [hconns]
    rcases eq_or_ne c' c with rfl | hne
    · rw [Function.update_self]
    · rw [Function.update_of_ne hne]
  · intro c' _ hi
    rcases eq_or_ne c' c with rfl | hne
    · intro _
      rw [hconns, Function.update_self]
    · exact (hi fun h => hne (Option.some.inj h).symm).of_conns
        (by rw [hconns, Function.update_of_ne hne])

/-- **The deferred query is collected**, and the client is in touch. -/
theorem clusterUpdateRouteHandleReply_relearns (hw : Routed w) (hl : Leading (some c) w)
    (herr : (w.conns c).err = none) (hqueue : (w.conns c).queue = [w.cc.topologyQuery])
    {r : Reply} (hr : (H.reply w.env (w.peer c) w.cc.topologyQuery).1 = .ok r)
    (htells : C.Tells (w.conns c).host w.cc.topologyQuery r) (hplaced : C.Placed) :
    wp (clusterUpdateRouteHandleReply H c) (fun s w' => s = .ok ∧
      w'.env = (H.reply w.env (w.peer c) w.cc.topologyQuery).2 ∧ Relearned C w w') w := by
  obtain ⟨t, hroute, htells⟩ := htells
  -- the reply is read, and nothing else has changed
  have hread : ∀ q, w.cc.topologyQuery = q → wp (redisGetReply H c q) (fun a w₁ => a = some ⟨q, r⟩ ∧
      w₁.env = (H.reply w.env (w.peer c) q).2 ∧ (w₁.conns c).host = (w.conns c).host ∧
      Routed w₁ ∧ Leading none w₁ ∧ w.nextNode ≤ w₁.nextNode) w := by
    rintro q rfl
    refine wp_mono (wp_and (redisGetReply_due herr hqueue hr)
      (calmly (within_redisGetReply H c _) w)) ?_
    rintro a w₁ ⟨⟨ha, henv, hconns, hnext, hheap, -⟩, hc⟩
    refine ⟨ha, henv, ?_, hw.linking hc.toLinking, hl.collected hconns hnext hheap, hc.nextNode⟩
    rw [hconns, Function.update_self]
  unfold clusterUpdateRouteHandleReply
  rw [wp_bind, wp_get]
  split
  · rename_i hslots
    have hq : w.cc.topologyQuery = .clusterSlots := if_pos hslots
    rw [hq] at htells ⊢
    obtain ⟨entries, rfl, hentries⟩ := htells
    unfold handleClusterSlotsReply
    rw [wp_bind]
    refine wp_mono (hread _ hq) ?_
    rintro _ w₁ ⟨rfl, henv, hhost, hw₁, hl₁, hle⟩
    dsimp only
    rw [wp_bind, wp_get, hhost]
    refine wp_mono (parsed_relearns hw₁ hl₁ (parseClusterSlots_represents t hentries w₁)
      (parseClusterSlots_fresh _ _ w₁) (within_parseClusterSlots _ _)
      (within_parseClusterSlots _ _) hroute hplaced) ?_
    rintro s w₂ ⟨rfl, henv₂, hrelearned⟩
    exact ⟨rfl, henv₂.trans henv, hrelearned.since hle⟩
  · rename_i hslots
    have hq : w.cc.topologyQuery = .clusterNodes := if_neg hslots
    rw [hq] at htells ⊢
    obtain ⟨lines, rfl, hlines⟩ := htells
    unfold handleClusterNodesReply
    rw [wp_bind]
    refine wp_mono (hread _ hq) ?_
    rintro _ w₁ ⟨rfl, henv, hhost, hw₁, hl₁, hle⟩
    dsimp only [nodesText]
    rw [wp_bind, wp_get, hhost]
    refine wp_mono (parsed_relearns hw₁ hl₁ (parseClusterNodes_represents hlines w₁)
      (parseClusterNodes_fresh _ _ w₁) (within_parseClusterNodes _ _)
      (within_parseClusterNodes _ _) hroute hplaced) ?_
    rintro s w₂ ⟨rfl, henv₂, hrelearned⟩
    exact ⟨rfl, henv₂.trans henv, hrelearned.since hle⟩

end Collecting
