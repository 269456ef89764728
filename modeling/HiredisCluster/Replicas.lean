/-
# Node sets are tidy

The replicas in the list of a node are not in use themselves: no call reaches one of them, and so
they never get a connection (`Spared`).  Together with the order of the routing state and the
links of the asynchronous connections this makes the node set of every reachable client tidy,
`Reaches.tidy`; and a topology that is parsed then is a fresh set, so that what is assumed by
`updateNodesAndSlotmap_allOrNothing` holds whenever a client replaces its nodes,
`Reaches.tidy_parsed`.
-/
import HiredisCluster.Ledger
import Mathlib.Data.List.Pairwise

open Creation Program

variable {ω : Type}

/-- Node `r` is in the list of replicas of a node in use. -/
def World.Reserve (w : World ω) (r : NodeId) : Prop := ∃ m, w.Known m ∧ r ∈ w.slavesOf m

/-- **A replica is not in use, and has no connection.**  The node that may be `visited` is none. -/
structure Spared (visited : Option NodeId) (w : World ω) : Prop where
  replica : ∀ r, w.Reserve r → r < w.nextNode ∧ ¬ w.Known r ∧ w.Bare r
  visited : ∀ n, visited = some n → n < w.nextNode ∧ ¬ w.Reserve n

/-! ## What leaves the replicas alone -/

/-- No node becomes a replica, and no old node is put to use or gets a connection. -/
structure Spares (w w' : World ω) : Prop where
  nextNode : w.nextNode ≤ w'.nextNode
  reserve : ∀ r, w'.Reserve r → w.Reserve r
  known : ∀ n < w.nextNode, w'.Known n → w.Known n
  bare : ∀ n < w.nextNode, w.Bare n → w'.Bare n

instance : Std.Refl (@Spares ω) := ⟨fun _ => ⟨le_rfl, fun _ h => h, fun _ _ h => h, fun _ _ h => h⟩⟩

instance : IsTrans (World ω) Spares :=
  ⟨fun _ _ _ h h' => ⟨h.nextNode.trans h'.nextNode, fun r hr => h.reserve r (h'.reserve r hr),
    fun n hn hk => h.known n hn (h'.known n (lt_of_lt_of_le hn h.nextNode) hk),
    fun n hn hb => h'.bare n (lt_of_lt_of_le hn h.nextNode) (h.bare n hn hb)⟩⟩

theorem Spared.spares {v : Option NodeId} {w w' : World ω} (h : Spared v w) (hs : Spares w w') :
    Spared v w' where
  replica r hr := by
    obtain ⟨hlt, hk, hb⟩ := h.replica r (hs.reserve r hr)
    exact ⟨lt_of_lt_of_le hlt hs.nextNode, fun hk' => hk (hs.known r hlt hk'), hs.bare r hlt hb⟩
  visited n hn := by
    obtain ⟨hlt, hno⟩ := h.visited n hn
    exact ⟨lt_of_lt_of_le hlt hs.nextNode, fun hr => hno (hs.reserve n hr)⟩

theorem spares_of_eq {w w' : World ω} (hnext : w'.nextNode = w.nextNode)
    (hnodes : w'.cc.nodes = w.cc.nodes) (hheap : w'.heap = w.heap) : Spares w w' := by
  have hknown : ∀ n, w'.Known n ↔ w.Known n := fun n => by
    rw [World.Known, World.Known, World.nodeList, hnodes]
    rfl
  refine ⟨hnext.ge, fun r => ?_, fun n _ => (hknown n).mp, fun n _ hb => ?_⟩
  · rintro ⟨m, hm, hr⟩
    rw [World.slavesOf, hheap] at hr
    exact ⟨m, (hknown m).mp hm, hr⟩
  · rw [World.Bare, hheap]
    exact hb

theorem reserve_modifyNode {w : World ω} {n r : NodeId} {f : Node → Node}
    (hslaves : ∀ node, (f node).slaves = node.slaves) (hr : (modifyNode n f w).2.Reserve r) :
    w.Reserve r := by
  obtain ⟨m, hm, hr⟩ := hr
  refine ⟨m, hm, ?_⟩
  rcases eq_or_ne m n with rfl | hne
  · have hself : ((modifyNode m f w).2.heap m).slaves = (w.heap m).slaves :=
      (congrArg Node.slaves (Function.update_self m _ w.heap)).trans (hslaves _)
    rwa [World.slavesOf, hself] at hr
  · have hother : (modifyNode n f w).2.heap m = w.heap m := Function.update_of_ne hne _ _
    rwa [World.slavesOf, hother] at hr

/-- A node gets no connection, and keeps its replicas. -/
theorem spares_modifyNode (n : NodeId) {f : Node → Node}
    (hslaves : ∀ node, (f node).slaves = node.slaves)
    (hcon : ∀ node, node.con = none → (f node).con = none)
    (hacon : ∀ node, node.acon = none → (f node).acon = none) :
    Within Spares (modifyNode n f : Prog ω Unit) := by
  intro w
  refine ⟨le_rfl, fun r hr => reserve_modifyNode hslaves hr, fun _ _ h => h, fun m _ hb => ?_⟩
  rcases eq_or_ne m n with rfl | hne
  · have hself : (modifyNode m f w).2.heap m = f (w.heap m) := Function.update_self _ _ _
    rw [World.Bare, hself]
    exact ⟨hcon _ hb.1, hacon _ hb.2⟩
  · have hother : (modifyNode n f w).2.heap m = w.heap m := Function.update_of_ne hne _ _
    rwa [World.Bare, hother]

theorem spares_modifyAConn (a : AConnId) (f : AConn → AConn) :
    Within Spares (modifyAConn a f : Prog ω Unit) :=
  fun _ => spares_of_eq rfl rfl rfl

theorem spares_modifyAcc (f : AsyncContext → AsyncContext) :
    Within Spares (modifyAcc f : Prog ω Unit) :=
  fun _ => spares_of_eq rfl rfl rfl

theorem spares_modifyCc {f : Context → Context} (hf : ∀ cc, (f cc).nodes = cc.nodes) :
    Within Spares (modifyCc f : Prog ω Unit) :=
  fun _ => spares_of_eq rfl (hf _) rfl

instance : CommandClosed (@Spares ω) where
  ask _ _ := spares_of_eq rfl rfl rfl
  modifyConn _ _ _ := spares_of_eq rfl rfl rfl
  newConn _ _ _ _ := spares_of_eq rfl rfl rfl
  setError _ _ _ := spares_of_eq rfl rfl rfl
  wroteOwn _ _ _ _ := spares_of_eq rfl rfl rfl
  wrote _ _ _ := spares_of_eq rfl rfl rfl
  read _ _ _ _ _ := spares_of_eq rfl rfl rfl
  closed _ _ := spares_of_eq rfl rfl rfl
  userHook _ := spares_of_eq rfl rfl rfl

/-! ### Nodes that are learnt -/

/-- The dictionary is created. -/
theorem spares_dictionary (w : World ω) : Spares w
    { w with cc := { w.cc with nodes := some (w.cc.nodes.getD HashTable.empty) } } := by
  have hknown : ∀ n, ({ w with cc := { w.cc with
      nodes := some (w.cc.nodes.getD HashTable.empty) } } : World ω).Known n → w.Known n := by
    intro n hn
    rw [World.Known, World.nodeList] at hn ⊢
    cases hd : w.cc.nodes with
    | none => simp [hd, HashTable.vals, HashTable.entries, HashTable.empty] at hn
    | some d => rwa [hd] at hn
  refine ⟨le_rfl, ?_, fun n _ => hknown n, fun _ _ h => h⟩
  rintro r ⟨m, hm, hr⟩
  exact ⟨m, hknown m hm, hr⟩

/-- A new node has no replicas. -/
theorem spares_add (w : World ω) {node : Node} (hslaves : node.slaves = none) {k : Bytes}
    {d : NodeDict} (hadd : (w.cc.nodes.getD HashTable.empty).add k w.nextNode = some d) :
    Spares w { w.creating node with cc := { w.cc with nodes := some d } } := by
  set w' : World ω := { w.creating node with cc := { w.cc with nodes := some d } }
  have hknown : ∀ n, w'.Known n → n = w.nextNode ∨ w.Known n := by
    intro n hn
    obtain ⟨k', hk'⟩ := (World.known_iff (w := w') rfl).mp hn
    rcases (HashTable.mem_entries_add hadd _).mp hk' with heq | hmem
    · exact Or.inl (Prod.mk.inj heq).2
    · right
      cases hd : w.cc.nodes with
      | none => simp [hd, HashTable.entries, HashTable.empty] at hmem
      | some d₀ =>
        rw [hd] at hmem
        exact (World.known_iff hd).mpr ⟨k', hmem⟩
  have hheap : ∀ n, n ≠ w.nextNode → w'.heap n = w.heap n := fun n hn => Function.update_of_ne hn _ _
  refine ⟨Nat.le_succ _, ?_, fun n hn hk => ?_, fun n hn hb => ?_⟩
  · rintro r ⟨m, hm, hr⟩
    rcases eq_or_ne m w.nextNode with rfl | hne
    · have hself : w'.heap w.nextNode = node := w.creating_heap_self node
      rw [World.slavesOf, hself, hslaves] at hr
      cases hr
    · rw [World.slavesOf, hheap m hne] at hr
      exact ⟨m, (hknown m hm).resolve_left hne, hr⟩
  · exact (hknown n hk).resolve_left (Nat.ne_of_lt hn)
  · rw [World.Bare, hheap n (Nat.ne_of_lt hn)]
    exact hb

theorem spares_getNodeFromRedirectReply (str : Bytes) :
    Within Spares (getNodeFromRedirectReply str : Prog ω _) :=
  fun w => getNodeFromRedirectReply_cases (P := Spares w) (Std.Refl.refl w)
    (fun _ _ => spares_of_eq rfl rfl rfl) (fun _ _ hslaves hadd => spares_add w hslaves hadd) str

theorem spares_handleMoved (str : Bytes) : Within Spares (handleMoved str : Prog ω _) := by
  have hstored : ∀ slot n, Within Spares (storeSlot slot n : Prog ω Unit) := fun slot n =>
    within_ite (within_pure _) (within_bind (fun _ => spares_of_eq rfl rfl rfl) fun _ =>
      within_ite (spares_modifyCc fun _ => rfl) (within_pure _))
  refine within_bind (spares_getNodeFromRedirectReply str) fun r => ?_
  split
  · exact within_pure _
  · exact within_bind (hstored _ _) fun _ => within_pure _

instance : LibClosed (@Spares ω) where
  looked _ _ _ := spares_of_eq rfl rfl rfl
  deferred _ _ _ := spares_of_eq rfl rfl rfl
  modifyCc hf := spares_modifyCc fun cc => by
    obtain ⟨r, q, n, heq⟩ := hf.same cc
    rw [heq]
  cmdId _ _ := spares_of_eq rfl rfl rfl
  disconnect n := spares_modifyNode n (fun _ => rfl) (fun _ _ => rfl) fun _ h => h
  handleMoved := spares_handleMoved
  handleAsk str := within_bind (spares_getNodeFromRedirectReply str) fun _ => within_pure _
  addNode addr w := redisClusterSetOptionAddNode_cases (P := Spares w) (spares_dictionary w)
    (fun _ _ => IsTrans.trans _ _ _ (spares_dictionary w) (spares_of_eq rfl rfl rfl))
    (fun _ _ hslaves hadd => spares_add w hslaves hadd) addr

/-! ## Reaching a node -/

section Reaching

variable (H : Hiredis ω) {v : Option NodeId}

theorem spares_redisAsyncCommand (a : AConnId) (cb : ACallback) (q : Sent) :
    Within Spares (redisAsyncCommand H a cb q) := by
  intro w
  have h := redisAsyncCommand_cases H a cb q w
  unfold wp at h
  rcases h with ⟨-, e, f, hw⟩ | ⟨-, e, hw⟩
  · rw [hw]
    exact spares_of_eq rfl rfl rfl
  · rw [hw]
    exact spares_of_eq rfl rfl rfl

theorem spared_of_spares {α : Type} {m : Prog ω α} (h : Within Spares m) : Keeps (Spared v) m :=
  h.mono fun _ _ hs h => h.spares hs

instance : CommandClosed (Keeping (@Spared ω v)) where
  ask f := spared_of_spares (TalkClosed.ask f)
  modifyConn c f := spared_of_spares (TalkClosed.modifyConn c f)
  newConn host port err := spared_of_spares (TalkClosed.newConn host port err)
  setError type str := spared_of_spares (TalkClosed.setError type str)
  wroteOwn c _ hq := spared_of_spares (TalkClosed.wroteOwn c hq)
  wrote c q := spared_of_spares (CommandClosed.wrote c q)
  read c q q' r := spared_of_spares (TalkClosed.read c q q' r)
  closed c := spared_of_spares (TalkClosed.closed c)
  userHook := spared_of_spares TalkClosed.userHook

instance : ConnectClosed H (Keeping (@Spared ω v)) where
  ask f := spared_of_spares (TalkClosed.ask f)
  failed a _ := spared_of_spares (spares_modifyAConn a _)
  asyncSetError _ _ := spared_of_spares (spares_modifyAcc _)
  sendNull a q := spared_of_spares (spares_redisAsyncCommand H a _ q)
  attempted n _ := spared_of_spares (spares_modifyNode n (fun _ => rfl) (fun _ h => h) fun _ h => h)
  newAConn _ _ _ := spared_of_spares fun _ => spares_of_eq rfl rfl rfl
  redisAsyncFree _ := spared_of_spares fun _ => spares_of_eq rfl rfl rfl

/-- A node that may be visited gets a connection. -/
theorem spared_connect (n : NodeId) {f : Node → Node}
    (hslaves : ∀ node, (f node).slaves = node.slaves) :
    Keeps (Spared (some n)) (modifyNode n f : Prog ω Unit) := by
  intro w h
  have hreserve : ∀ r, (modifyNode n f w).2.Reserve r → w.Reserve r :=
    fun r hr => reserve_modifyNode hslaves hr
  obtain ⟨hlt, hno⟩ := h.visited n rfl
  refine ⟨fun r hr => ?_, fun m hm => ?_⟩
  · obtain ⟨hlt, hk, hb⟩ := h.replica r (hreserve r hr)
    have hne : r ≠ n := by
      rintro rfl
      exact hno (hreserve r hr)
    have hother : (modifyNode n f w).2.heap r = w.heap r := Function.update_of_ne hne _ _
    rw [World.Bare, hother]
    exact ⟨hlt, hk, hb⟩
  · obtain rfl := Option.some.inj hm
    exact ⟨hlt, fun hr => hno (hreserve n hr)⟩

theorem Spared.leave {w : World ω} (h : Spared v w) : Spared none w :=
  ⟨h.replica, fun n hn => by cases hn⟩

/-- Nodes in use are no replicas. -/
theorem Spared.visit {w : World ω} (h : Spared none w) {n : NodeId} (hlt : n < w.nextNode)
    (hn : w.Known n) : Spared (some n) w := by
  refine ⟨h.replica, fun m hm => ?_⟩
  obtain rfl := Option.some.inj hm
  exact ⟨hlt, fun hr => (h.replica n hr).2.1 hn⟩

theorem spared_ctxGetByNode (n : NodeId) : Keeps (Spared (some n)) (ctxGetByNode H n) :=
  ctxGetByNode_within H fun _ => spared_connect n fun _ => rfl

theorem spared_actxGetByNode (n : NodeId) : Keeps (Spared (some n)) (actxGetByNode H n) :=
  actxGetByNode_within H fun _ =>
    within_bind (spared_of_spares (spares_modifyAConn _ _)) fun _ => spared_connect n fun _ => rfl

end Reaching

/-! ## Replicas that are parsed -/

/-- The replicas of a parsed node set are not in the dictionary, and have no connection. -/
def Broods (w : World ω) (d : NodeDict) : Prop :=
  ∀ m ∈ d.vals, ∀ r ∈ w.slavesOf m, r ∉ d.vals ∧ w.Bare r

/-- What is held in one place only is in the dictionary or in a list. -/
theorem notMem_vals_of_nodup {w : World ω} {d : NodeDict} (h : (w.holdings d).Nodup) {m r : NodeId}
    (hm : m ∈ d.vals) (hr : r ∈ w.slavesOf m) : r ∉ d.vals := by
  intro hmem
  rw [World.holdings, List.nodup_flatMap] at h
  obtain ⟨hself, hpairs⟩ := h
  rcases eq_or_ne m r with rfl | hne
  · exact (List.nodup_cons.mp (hself m hm)).1 hr
  · have hsymm : Std.Symm (Function.onFun List.Disjoint fun n => n :: w.slavesOf n) :=
      ⟨fun _ _ h _ hn hn' => h hn' hn⟩
    have hdisjoint := hpairs.forall hm hmem hne
    exact hdisjoint (List.mem_cons_of_mem m hr) List.mem_cons_self

theorem parseClusterNodes_broods (tcpHost : Bytes) (reply : Reply) (w : World ω) :
    wp (parseClusterNodes tcpHost reply) (fun nodes w' => ∀ d, nodes = some d → Broods w' d) w := by
  refine wp_mono (parseClusterNodes_ended tcpHost reply w) fun nodes w' h d hd => ?_
  obtain ⟨scan, w₁, hend, hres⟩ := h
  split at hres
  · rename_i hstop
    obtain ⟨hr, rfl⟩ := hres
    obtain rfl := Option.some.inj (hd.symm.trans hr)
    rw [Option.isNone_iff_eq_none.mp hstop.1] at hend
    have hs : Scanned w w' _ scan := hend
    intro m hm r hr
    exact ⟨notMem_vals_of_nodup hs.nodup_holdings hm hr,
      hs.bare_holdings r (mem_holdings.mpr ⟨m, hm, Or.inr hr⟩)⟩
  · cases hd.symm.trans hres.1

theorem parseClusterSlots_broods (tcpHost : Bytes) (reply : Reply) (w : World ω) :
    wp (parseClusterSlots tcpHost reply) (fun nodes w' => ∀ d, nodes = some d → Broods w' d) w := by
  have hnew : wp (parseClusterSlots tcpHost reply) (fun _ w' => Newcomers w w') w :=
    parseClusterSlots_newcomers tcpHost reply w
  cases hregions : slotsRegions reply with
  | none =>
    intro d hd
    cases hd.symm.trans (parseClusterSlots_refused tcpHost hregions w)
  | some regions =>
    refine wp_mono (wp_and hnew (wp_and (parseClusterSlots_count tcpHost reply w)
      (parseClusterSlots_scanned tcpHost hregions w))) fun nodes w' h d hd => ?_
    obtain ⟨hnew, hcount, nodes', w₁, hs, hres⟩ := h
    split at hres
    · obtain ⟨-, rfl⟩ := hres
      obtain ⟨new, htrace⟩ := hnew.trace
      -- a node is held once at most, and is a new one then
      have hheld : ∀ n, (w'.holdings d).count n ≤ born w.nextNode w'.nextNode n := by
        intro n
        have hn := hcount n
        have hreleases : w.releases n ≤ w'.releases n := by
          rw [World.releases, World.releases, htrace, List.countP_append]
          exact Nat.le_add_right _ _
        rw [hd, Option.map_some, Option.getD_some] at hn
        omega
      have hnodup : (w'.holdings d).Nodup :=
        List.nodup_iff_count_le_one.mpr fun n => (hheld n).trans (born_le_one _ _ _)
      intro m hm r hr
      refine ⟨notMem_vals_of_nodup hnodup hm hr, ?_⟩
      have hpos : 0 < born w.nextNode w'.nextNode r :=
        (List.count_pos_iff.mpr (mem_holdings.mpr ⟨m, hm, Or.inr hr⟩)).trans_le (hheld r)
      have hborn : w.nextNode ≤ r ∧ r < w'.nextNode := by
        by_contra hno
        rw [born, if_neg hno] at hpos
        exact Nat.lt_irrefl 0 hpos
      obtain ⟨x, hx⟩ := exists_madeFor hborn.1 (hs.nextNode ▸ hborn.2)
      obtain ⟨kids, hnode⟩ := hs.node hx
      rw [World.Bare, hnode]
      exact ⟨rfl, rfl⟩
    · cases hd.symm.trans hres.1

theorem parseTopology_broods (useSlots : Bool) (host : Bytes) (r : Reply) (w : World ω) :
    wp (parseTopology useSlots host r) (fun nodes w' => ∀ d, nodes = some d → Broods w' d) w := by
  cases useSlots with
  | true => exact parseClusterSlots_broods host r w
  | false => exact parseClusterNodes_broods host r w

theorem spares_parsed {w w' : World ω} (ho : Ordered w) (hc : Calm w w') (hn : SameLinks w w') :
    Spares w w' := by
  have hknown : ∀ n, w'.Known n → w.Known n := fun n hk => by
    rwa [World.Known, World.nodeList, hc.nodes] at hk
  refine ⟨hn.nextNode, ?_, fun n _ => hknown n, fun n hlt hb => ?_⟩
  · rintro r ⟨m, hm, hr⟩
    rw [hn.slaves m (ho.routed.lt m (hknown m hm))] at hr
    exact ⟨m, hknown m hm, hr⟩
  · rw [World.Bare, hc.conEq n hlt, hn.acon n hlt]
    exact hb

/-! ## Replicas that are installed -/

section Installing

variable {v : Option NodeId} {w₀ w : World ω} {d : NodeDict} (h : ParsedSet w₀ w d)
  (hb : Broods w d) (hs : Spared v w₀)

include h hb hs

/-- Nodes that were parsed and are not in the dictionary stay as they are. -/
theorem ParsedSet.spared {w' : World ω} (hnext : w'.nextNode = w.nextNode)
    (hnodes : w'.cc.nodes = some d) (hslaves : ∀ n, w'.slavesOf n = w.slavesOf n)
    (hheap : ∀ n, w₀.nextNode ≤ n → n ∉ d.vals → w'.heap n = w.heap n) : Spared v w' := by
  have hknown : ∀ n, w'.Known n ↔ n ∈ d.vals := fun n => by
    rw [World.Known, World.nodeList_of_some hnodes]
  have hnew : ∀ r, w'.Reserve r → w₀.nextNode ≤ r ∧ r < w.nextNode ∧ r ∉ d.vals ∧ w.Bare r := by
    rintro r ⟨m, hm, hr⟩
    rw [hslaves] at hr
    have hmem := (hknown m).mp hm
    obtain ⟨hlo, hhi⟩ := h.recent m hmem
    exact ⟨h.newcomers.brood m hlo hhi r hr, (h.newcomers.new m hlo hhi).2 r hr, hb m hmem r hr⟩
  refine ⟨fun r hr => ?_, fun n hn => ?_⟩
  · obtain ⟨hlo, hhi, hno, hbare⟩ := hnew r hr
    refine ⟨hnext ▸ hhi, fun hk => hno ((hknown r).mp hk), ?_⟩
    rw [World.Bare, hheap r hlo hno]
    exact hbare
  · obtain ⟨hlt, -⟩ := hs.visited n hn
    exact ⟨hnext ▸ lt_of_lt_of_le hlt h.newcomers.nextNode,
      fun hr => absurd hlt (not_lt.mpr (hnew n hr).1)⟩

theorem spared_installNodes (hc : Calm w₀ w) :
    wp (installNodes d) (fun _ w' => Spared v w') w := by
  have ho : Ordered w := h.before.linking hc.toLinking
  unfold installNodes
  rw [wp_bind, wp_get]
  split
  · rename_i e _
    have hparsed := hs.spares (spares_parsed h.before hc h.newcomers.toSameLinks)
    rw [wp_bind, wp_setError, wp_bind, wp_dictRelease, wp_pure]
    exact hparsed.spares (spares_of_eq rfl rfl rfl)
  · rw [wp_bind, wp_modifyCc]
    split
    · rw [wp_bind, wp_modifyCc, wp_pure]
      exact h.spared hb hs rfl rfl (fun _ => rfl) fun _ _ _ => rfl
    · rename_i t _ _ old hold
      rw [wp_bind]
      refine wp_mono ((h.tabled t).handedOver hold (ho.routed.view.filed old hold)) fun _ w₂ hover => ?_
      rw [wp_bind, wp_modifyCc, wp_bind, wp_dictRelease, wp_pure]
      have hnext : w₂.nextNode = w.nextNode := by rw [hover.rest]
      refine h.spared hb hs hnext rfl hover.slavesOf_eq fun n hlo hno => ?_
      -- the nodes that hand over are in use, and older
      refine hover.other n (fun hmem => absurd hmem hno) fun t _ hmate => ?_
      have hk := (World.mem_vals_iff_known hold n).mp (World.mate_mem hmate)
      exact absurd (h.lt_of_known hk) (not_lt.mpr hlo)

end Installing

/-! ## The invariant -/

/-- The links are one to one, and replicas are left alone. -/
structure Arranged (visited : Option NodeId) (w : World ω) : Prop where
  tied : Tied w
  spared : Spared visited w

theorem keeps_arranged {α : Type} {v : Option NodeId} {m : Prog ω α} (ht : Keeps Tied m)
    (hs : Within Spares m) : Keeps (Arranged v) m :=
  fun w h => ⟨ht w h.tied, h.spared.spares (hs w)⟩

instance {v : Option NodeId} : CommandClosed (Keeping (@Arranged ω v)) where
  ask f := keeps_arranged (TalkClosed.ask f) (TalkClosed.ask f)
  modifyConn c f := keeps_arranged (TalkClosed.modifyConn c f) (TalkClosed.modifyConn c f)
  newConn host port err := keeps_arranged (TalkClosed.newConn host port err) (TalkClosed.newConn host port err)
  setError type str := keeps_arranged (TalkClosed.setError type str) (TalkClosed.setError type str)
  wroteOwn c _ hq := keeps_arranged (TalkClosed.wroteOwn c hq) (TalkClosed.wroteOwn c hq)
  wrote c q := keeps_arranged (CommandClosed.wrote c q) (CommandClosed.wrote c q)
  read c q q' r := keeps_arranged (TalkClosed.read c q q' r) (TalkClosed.read c q q' r)
  closed c := keeps_arranged (TalkClosed.closed c) (TalkClosed.closed c)
  userHook := keeps_arranged TalkClosed.userHook TalkClosed.userHook

instance {v : Option NodeId} : LibClosed (Keeping (@Arranged ω v)) where
  looked n known := keeps_arranged (LoopClosed.looked n known) (LoopClosed.looked n known)
  deferred c held := keeps_arranged (LoopClosed.deferred c held) (LoopClosed.deferred c held)
  modifyCc hf := keeps_arranged (EditClosed.modifyCc hf) (EditClosed.modifyCc hf)
  cmdId w id := fun h => ⟨EditClosed.cmdId (R := Keeping Tied) w id h.tied,
    h.spared.spares (EditClosed.cmdId w id)⟩
  disconnect n := keeps_arranged (EditClosed.disconnect n) (EditClosed.disconnect n)
  handleMoved str := keeps_arranged (EditClosed.handleMoved str) (EditClosed.handleMoved str)
  handleAsk str := keeps_arranged (EditClosed.handleAsk str) (EditClosed.handleAsk str)
  addNode addr := keeps_arranged (LibClosed.addNode addr) (LibClosed.addNode addr)

/-- A client without nodes has no replicas. -/
theorem spares_redisClusterFree : Within Spares (redisClusterFree : Prog ω Unit) := by
  have hgone : ∀ {w w' : World ω}, w'.nextNode = w.nextNode → w'.cc.nodes = none →
      w'.heap = w.heap → Spares w w' := by
    intro w w' hnext hnodes hheap
    have hno : ∀ n, ¬ w'.Known n := fun n hn => by
      rw [World.Known, World.nodeList, hnodes] at hn
      cases hn
    refine ⟨hnext.ge, ?_, fun n _ hn => absurd hn (hno n), fun n _ hb => ?_⟩
    · rintro r ⟨m, hm, -⟩
      exact absurd hm (hno m)
    · rw [World.Bare, hheap]
      exact hb
  refine within_bind TalkClosed.userHook fun _ w => ?_
  show wp _ (fun _ w' => Spares w w') w
  rw [wp_bind, wp_get, wp_bind, wp_modifyCc]
  split
  · exact hgone rfl rfl rfl
  · rw [wp_dictRelease]
    exact hgone rfl rfl rfl

section Runs

variable (H : Hiredis ω)

theorem arranged_replaced {v : Option NodeId} {w : World ω} (h : Arranged v w) (b : Bool)
    (host : Bytes) (r : Reply) :
    wp (parseTopology b host r) (fun nodes w₁ => Arranged v w₁ ∧
      ∀ d, nodes = some d → wp (installNodes d) (fun _ w' => Arranged v w') w₁) w := by
  have hnew : wp (parseTopology b host r) (fun _ w' => Newcomers w w') w :=
    parseTopology_newcomers b host r w
  refine wp_mono (wp_and (tied_replaced h.tied b host r) (wp_and hnew
    (wp_and (parseTopology_fresh b host r w) (parseTopology_broods b host r w))))
    fun nodes w₁ h₁ => ?_
  obtain ⟨⟨ht, hinstall⟩, hn, ⟨hc, hd⟩, hb⟩ := h₁
  refine ⟨⟨ht, h.spared.spares (spares_parsed h.tied.ordered hc hn.toSameLinks)⟩, fun d hsome => ?_⟩
  exact wp_mono (wp_and (hinstall d hsome) (spared_installNodes (h.tied.parsed hc hn (hd d hsome))
    (hb d hsome) h.spared hc)) fun _ _ h' => ⟨h'.1, h'.2⟩

instance : VisitClosed H (@Arranged ω) where
  ordered h := h.tied.ordered
  visit h hn := ⟨h.tied, h.spared.visit (h.tied.ordered.routed.lt _ hn) hn⟩
  leave h := ⟨h.tied, h.spared.leave⟩
  ctxGetByNode {w n} h := ⟨VisitClosed.ctxGetByNode (J := fun _ => Tied) h.tied,
    (spared_ctxGetByNode H n w h.spared).leave⟩
  actxGetByNode {w n} h hn := ⟨VisitClosed.actxGetByNode (J := fun _ => Tied) h.tied hn,
    (spared_actxGetByNode H n w (h.spared.visit (h.tied.ordered.routed.lt n hn) hn)).leave⟩
  replaced b host r _ _ h := arranged_replaced h b host r
  modifyAcc f := keeps_arranged (VisitClosed.modifyAcc (J := fun _ => Tied) H f) (spares_modifyAcc f)
  modifyCad k f := keeps_arranged (VisitClosed.modifyCad (J := fun _ => Tied) H k f)
    fun _ => spares_of_eq rfl rfl rfl
  newCad cad := keeps_arranged (VisitClosed.newCad (J := fun _ => Tied) H cad)
    fun _ => spares_of_eq rfl rfl rfl
  submit a cb q := keeps_arranged (VisitClosed.submit (J := fun _ => Tied) a cb q)
    (spares_redisAsyncCommand H a cb q)
  shutdown b := keeps_arranged (VisitClosed.shutdown (J := fun _ => Tied) H b)
    (spares_modifyCc fun _ => rfl)
  disconnectNode n := by
    refine keeps_arranged (VisitClosed.disconnectNode (J := fun _ => Tied) H n)
      (within_bind within_get fun w => ?_)
    split
    · exact within_pure _
    · exact spares_modifyAConn _ _
  free := keeps_arranged (VisitClosed.free (J := fun _ => Tied) H) spares_redisClusterFree

theorem spares_unlinkAsyncContextAndNode (a : AConnId) :
    Within Spares (unlinkAsyncContextAndNode a : Prog ω Unit) := by
  refine within_bind within_get fun w => ?_
  dsimp only
  split
  · exact spares_modifyAConn a _
  · exact within_bind (spares_modifyNode _ (fun _ => rfl) (fun _ h => h) fun _ _ => rfl) fun _ =>
      spares_modifyAConn a _

theorem act_arranged {c : Client ω} {x : ClientAction} (he : Enabled c x)
    (h : Arranged none c.world) : Arranged none (act H c x).world := by
  have ht := act_tied H he h.tied
  obtain ⟨-, he⟩ := he
  cases x with
  | call op => exact Call.run_visits H op h he.1
  | connected a => exact ⟨ht, h.spared.spares (spares_of_eq rfl rfl rfl)⟩
  | failed a f => exact ⟨ht, h.spared.spares (spares_of_eq rfl rfl rfl)⟩
  | deliver a reply =>
    revert ht
    unfold act
    dsimp only
    split
    · exact fun _ => h
    · have htaken : Arranged none (takeCallback a c.world).2 :=
        ⟨h.tied.takeCallback a, h.spared.spares (spares_of_eq rfl rfl rfl)⟩
      exact fun _ => visits_runCallback H a _ reply _ htaken
  | free a => exact ⟨ht, h.spared.spares (spares_of_eq rfl rfl rfl)⟩
  | closed a => exact ⟨ht, h.spared.spares (spares_unlinkAsyncContextAndNode a c.world)⟩
  | ret =>
    revert ht
    unfold act
    dsimp only
    split
    · exact fun _ => h
    · exact fun _ => visits_resume H _ _ h

theorem World.Fresh.arranged {w : World ω} (h : w.Fresh) : Arranged none w := by
  refine ⟨h.tied, ?_, fun n hn => by cases hn⟩
  rintro r ⟨m, hm, -⟩
  rw [World.Known, World.nodeList, h.nodes] at hm
  cases hm

theorem Reaches.arranged {G : Client ω → ClientAction → Prop} {c : Client ω} (h : Reaches H G c) :
    Arranged none c.world :=
  Reaches.invariant H (I := fun c => Arranged none c.world) (fun _ hw => hw.arranged)
    (fun _ _ he _ ha => act_arranged H he ha) h

theorem Arranged.tidy {w : World ω} (h : Arranged none w) : w.Tidy where
  filed := h.tied.ordered.routed.view.filed
  con n _ m _ c hn hm := h.tied.ordered.wired.inj n m c hn hm
  acon n hn m hm a ha hma := (h.tied.linked.unique (h.tied.ordered.routed.lt n hn)
    (h.tied.ordered.routed.lt m hm) hn ha hma).symm
  replicas n hn r hr := by
    obtain ⟨-, hk, hb⟩ := h.spared.replica r ⟨n, hn, hr⟩
    exact ⟨hb, hk⟩

/-- **The node set of a reachable client is tidy.** -/
theorem Reaches.tidy {G : Client ω → ClientAction → Prop} {c : Client ω} (h : Reaches H G c) :
    c.world.Tidy :=
  (Reaches.arranged H h).tidy

/-- **So is it when a topology has been parsed**, and what was parsed is a fresh set. -/
theorem Reaches.tidy_parsed {G : Client ω → ClientAction → Prop} {c : Client ω} (h : Reaches H G c)
    (b : Bool) (host : Bytes) (r : Reply) : wp (parseTopology b host r)
      (fun nodes w' => w'.Tidy ∧ ∀ d, nodes = some d → w'.FreshSet d) c.world := by
  have ha := Reaches.arranged H h
  have hnew : wp (parseTopology b host r) (fun _ w' => Newcomers c.world w') c.world :=
    parseTopology_newcomers b host r c.world
  refine wp_mono (wp_and (arranged_replaced ha b host r) (wp_and hnew
    (wp_and (parseTopology_fresh b host r c.world) (parseTopology_broods b host r c.world))))
    fun nodes w' h' => ?_
  obtain ⟨⟨ha', -⟩, hn, ⟨hc, hd⟩, hb⟩ := h'
  refine ⟨ha'.tidy, fun d hsome => ?_⟩
  have hp := ha.tied.parsed hc hn (hd d hsome)
  refine ⟨fun k n hmem => (hd d hsome k n hmem).addr, fun n hmem => ?_, fun n hmem => ⟨?_, ?_⟩⟩
  · obtain ⟨m, hm, rfl | hr⟩ := mem_holdings.mp hmem
    · obtain ⟨k, hk⟩ := (d.mem_vals_iff n).mp hm
      exact ⟨(hd d hsome k n ((d.find_eq_some_iff k n).mp hk)).con, hp.acon_eq_none hm⟩
    · exact (hb d hsome m hm n hr).2
  · exact fun hk => hp.notMem (hp.lt_of_known hk) hmem
  · exact fun m hm hr => hp.notMem (hp.oldReplicas (hp.lt_of_known hm) hr) hmem

end Runs
