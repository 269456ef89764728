/-
# The routing invariant

`Routed`: the nodes in `cc->nodes` are filed under their own addresses, and the
slot table refers to filed nodes only.  The invariant rests on what parsing a
topology yields (`AllFresh`), on what installing it does (`Replaced`), and on
everything else being calm.
-/
import HiredisCluster.Filling
import HiredisCluster.Frames
import Mathlib.Logic.Equiv.Basic

open Program

variable {ω : Type}

/-! ## What parsing yields -/

/-- Node `n` was created after the first `lo` ones, has address `k` and a usable
port, and no connection yet. -/
structure Fresh (lo : ℕ) (w : World ω) (k : Bytes) (n : NodeId) : Prop where
  lo_le : lo ≤ n
  lt : n < w.nextNode
  addr : (w.heap n).addr = k
  port : (w.heap n).port ≠ 0
  con : (w.heap n).con = none

/-- A dictionary of fresh nodes, filed under their addresses. -/
def AllFresh (lo : ℕ) (w : World ω) (d : NodeDict) : Prop :=
  ∀ k n, (k, n) ∈ d.entries → Fresh lo w k n

theorem Fresh.calm {lo : ℕ} {w w' : World ω} {k : Bytes} {n : NodeId} (h : Fresh lo w k n)
    (hc : Calm w w') : Fresh lo w' k n where
  lo_le := h.lo_le
  lt := lt_of_lt_of_le h.lt hc.nextNode
  addr := (Node.addr_of_endpoint (hc.endpoint n h.lt)).trans h.addr
  port := by
    rw [Node.port_of_endpoint (hc.endpoint n h.lt)]
    exact h.port
  con := (hc.conEq n h.lt).trans h.con

theorem AllFresh.calm {lo : ℕ} {w w' : World ω} {d : NodeDict} (h : AllFresh lo w d)
    (hc : Calm w w') : AllFresh lo w' d :=
  fun k n hm => (h k n hm).calm hc

theorem allFresh_empty (lo : ℕ) (w : World ω) : AllFresh lo w HashTable.empty := by
  intro k n hm
  simp [HashTable.entries, HashTable.empty] at hm

theorem AllFresh.add {lo : ℕ} {w : World ω} {d d' : NodeDict} {k : Bytes} {n : NodeId}
    (h : AllFresh lo w d) (hn : Fresh lo w k n) (hadd : d.add k n = some d') :
    AllFresh lo w d' := by
  intro k' n' hm
  rcases (HashTable.mem_entries_add hadd _).mp hm with heq | hm
  · obtain ⟨rfl, rfl⟩ := Prod.mk.inj heq
    exact hn
  · exact h k' n' hm

/-- A new node is fresh, and the old nodes do not notice. -/
theorem newNode_fresh {lo : ℕ} {w : World ω} (hlo : lo ≤ w.nextNode) {node : Node}
    (hport : node.port ≠ 0) (hcon : node.con = none) :
    wp (newNode node) (fun n w' => Fresh lo w' node.addr n ∧ Calm w w') w := by
  refine ⟨⟨hlo, Nat.lt_succ_self _, ?_, ?_, ?_⟩, calm_newNode hcon w⟩
  · simp [newNode]
  · simpa [newNode] using hport
  · simpa [newNode] using hcon

theorem toUint16_ne_zero {p : ℤ} (h : 1 ≤ p) (h' : p ≤ 65535) : toUint16 p ≠ 0 := by
  unfold toUint16
  omega

theorem slotsEndpoint_port {tcpHost host : Bytes} {r : Reply} {port : ℤ}
    (h : slotsEndpoint tcpHost r = .ok (host, port)) : toUint16 port ≠ 0 := by
  unfold slotsEndpoint at h
  split at h
  · split at h
    · split at h
      · rename_i hv
        obtain ⟨rfl, rfl⟩ := Prod.mk.inj (Except.ok.inj h)
        simp only [hiValidPort, Bool.and_eq_true, decide_eq_true_eq] at hv
        exact toUint16_ne_zero hv.1 hv.2
      · cases h
    · cases h
  · cases h

theorem nodeOfFields_port {tcpHost : Bytes} {part : List Bytes} {role : Role} {node : Node}
    (h : nodeOfFields tcpHost part role = .ok node) : node.port ≠ 0 := by
  unfold nodeOfFields at h
  dsimp only at h
  split at h
  · cases h
  · split at h
    · cases h
    · rename_i hport
      rw [not_or, Int.not_lt, Int.not_lt] at hport
      have hp := toUint16_ne_zero hport.1 hport.2
      split at h
      · obtain rfl := Except.ok.inj h
        exact hp
      · obtain rfl := Except.ok.inj h
        exact hp

theorem parseSlotsRegion_fresh {lo : ℕ} {w : World ω} {nodes : NodeDict} (hlo : lo ≤ w.nextNode)
    (h : AllFresh lo w nodes) (tcpHost : Bytes) (r : Reply) :
    wp (parseSlotsRegion tcpHost nodes r) (fun res w' => AllFresh lo w' res.1) w := by
  unfold parseSlotsRegion
  split
  · split
    · exact h
    · split
      · exact h
      · rename_i host port hep
        split
        · exact h.calm (within_addSlotRange _ _ w)
        · rw [wp_bind]
          refine wp_mono (newNode_fresh hlo (slotsEndpoint_port hep) rfl) fun n w' hn => ?_
          have h' := h.calm hn.2
          split
          · exact h'
          · rename_i nodes' hadd
            have hall := h'.add hn.1 hadd
            exact (hall.calm (within_addSlotRange _ _ _)).calm (within_parseSlotsReplicas _ _ _ _)
  · exact h

theorem parseSlotsRegions_fresh {lo : ℕ} (tcpHost : Bytes) (l : List Reply) :
    ∀ {w : World ω} {nodes : NodeDict}, lo ≤ w.nextNode → AllFresh lo w nodes →
      wp (parseSlotsRegions tcpHost nodes l) (fun res w' => AllFresh lo w' res.1) w := by
  induction l with
  | nil => exact fun _ h => h
  | cons e es ih =>
    intro w nodes hlo h
    unfold parseSlotsRegions
    rw [wp_bind]
    refine wp_mono (wp_and (parseSlotsRegion_fresh hlo h tcpHost e)
      (Within.wp (R := Calm) (within_parseSlotsRegion tcpHost nodes e) w)) fun r w' hr => ?_
    obtain ⟨nodes', _ | msg⟩ := r
    · exact ih (Nat.le_trans hlo hr.2.nextNode) hr.1
    · exact hr.1

theorem parseClusterSlots_fresh (tcpHost : Bytes) (r : Reply) (w : World ω) :
    wp (parseClusterSlots tcpHost r)
      (fun res w' => ∀ d, res = some d → AllFresh w.nextNode w' d) w := by
  unfold parseClusterSlots
  split
  · rw [wp_bind]
    refine wp_mono (parseSlotsRegions_fresh tcpHost _ le_rfl (allFresh_empty _ w))
      fun res w' hres => ?_
    obtain ⟨nodes, _ | msg⟩ := res
    · intro d hd
      obtain rfl := Option.some.inj hd
      exact hres
    · intro d hd
      cases hd
  · intro d hd
    cases hd

theorem mapWithName_nodes (scan : NodesScan) (n : NodeId) (name : Bytes) (w : World ω) :
    wp (mapWithName scan n name) (fun res _ => res.1.nodes = scan.nodes) w := by
  unfold mapWithName
  rw [wp_bind]
  refine wp_mono (P := fun _ _ => True) trivial fun r w' _ => ?_
  cases r with
  | error msg => rfl
  | ok d => rfl

theorem nodeGetWithNodes_fresh {lo : ℕ} {w : World ω} (hlo : lo ≤ w.nextNode) (tcpHost : Bytes)
    (part : List Bytes) (role : Role) :
    wp (nodeGetWithNodes tcpHost part role) (fun r w' => Calm w w' ∧
      ∀ n node, r = .ok (n, node) → Fresh lo w' node.addr n) w := by
  unfold nodeGetWithNodes
  split
  · have hcalm : Within Calm (do
        let n ← newNode (unaddressed part role)
        freeRedisClusterNode n : Prog ω Unit) :=
      within_bind (ParseClosed.newNode rfl) within_freeRedisClusterNode
    exact ⟨hcalm w, fun n node h => by cases h⟩
  · rename_i node hnode
    rw [wp_bind]
    refine wp_mono (newNode_fresh hlo (nodeOfFields_port hnode) (nodeOfFields_con hnode))
      fun n w' hn => ⟨hn.2, fun n' node' h => ?_⟩
    cases h
    exact hn.1

theorem parseMasterLine_fresh {lo : ℕ} {w : World ω} {scan : NodesScan} (hlo : lo ≤ w.nextNode)
    (h : AllFresh lo w scan.nodes) (tcpHost : Bytes) (part : List Bytes) :
    wp (parseMasterLine tcpHost scan part) (fun res w' => AllFresh lo w' res.1.nodes) w := by
  unfold parseMasterLine
  rw [wp_bind]
  refine wp_mono (nodeGetWithNodes_fresh hlo tcpHost part .master) fun r w' hr => ?_
  have h' := h.calm hr.1
  obtain msg | ⟨n, node⟩ := r
  · exact h'
  · dsimp only
    split
    · exact h'.calm (within_freeRedisClusterNode n w')
    · rename_i nodes hadd
      have hall := h'.add (hr.2 n node rfl) hadd
      rw [wp_bind, wp_get]
      split
      · rw [wp_bind]
        refine wp_mono (wp_and (mapWithName_nodes _ n _ w')
          (Within.wp (R := Calm) (within_mapWithName { scan with nodes } n _) w')) fun r w'' hr => ?_
        obtain ⟨scan', _ | msg⟩ := r
        · have hs : scan'.nodes = nodes := hr.1
          show AllFresh lo _ scan'.nodes
          rw [hs]
          exact (hall.calm hr.2).calm (within_parseSlotFields n _ w'')
        · have hs : scan'.nodes = nodes := hr.1
          show AllFresh lo _ scan'.nodes
          rw [hs]
          exact hall.calm hr.2
      · exact hall.calm (within_parseSlotFields n _ w')

theorem parseSlaveLine_nodes (tcpHost : Bytes) (scan : NodesScan) (part : List Bytes)
    (w : World ω) :
    wp (parseSlaveLine tcpHost scan part) (fun res _ => res.1.nodes = scan.nodes) w := by
  unfold parseSlaveLine
  rw [wp_bind]
  refine wp_mono (P := fun _ _ => True) trivial fun r w' _ => ?_
  obtain msg | ⟨slave, node⟩ := r
  · rfl
  · exact mapWithName_nodes scan _ _ _

theorem parseNodesLine_fresh {lo : ℕ} {w : World ω} {scan : NodesScan} (hlo : lo ≤ w.nextNode)
    (h : AllFresh lo w scan.nodes) (tcpHost : Bytes) (line : Bytes) :
    wp (parseNodesLine tcpHost scan line) (fun res w' => AllFresh lo w' res.1.nodes) w := by
  unfold parseNodesLine
  rw [wp_bind, wp_get]
  dsimp only
  split
  · exact h
  · split
    · exact h
    · split
      · exact parseMasterLine_fresh hlo h tcpHost _
      · split
        · refine wp_mono (wp_and (parseSlaveLine_nodes tcpHost scan _ w)
            (Within.wp (R := Calm) (within_parseSlaveLine tcpHost scan _) w)) fun r w' hr => ?_
          rw [hr.1]
          exact h.calm hr.2
        · exact h

theorem parseNodesLines_fresh {lo : ℕ} (tcpHost : Bytes) (l : List Bytes) :
    ∀ {w : World ω} {scan : NodesScan}, lo ≤ w.nextNode → AllFresh lo w scan.nodes →
      wp (parseNodesLines tcpHost scan l) (fun res w' => AllFresh lo w' res.1.nodes) w := by
  induction l with
  | nil => exact fun _ h => h
  | cons line rest ih =>
    intro w scan hlo h
    unfold parseNodesLines
    rw [wp_bind]
    refine wp_mono (wp_and (parseNodesLine_fresh hlo h tcpHost line)
      (Within.wp (R := Calm) (within_parseNodesLine tcpHost scan line) w)) fun r w' hr => ?_
    obtain ⟨scan', _ | msg⟩ := r
    · exact ih (Nat.le_trans hlo hr.2.nextNode) hr.1
    · exact hr.1

theorem parseClusterNodes_fresh (tcpHost : Bytes) (r : Reply) (w : World ω) :
    wp (parseClusterNodes tcpHost r)
      (fun res w' => ∀ d, res = some d → AllFresh w.nextNode w' d) w := by
  unfold parseClusterNodes
  rw [wp_bind]
  refine wp_mono (parseNodesLines_fresh tcpHost _ le_rfl (allFresh_empty _ w))
    fun res w' hres => ?_
  obtain ⟨scan, _ | msg⟩ := res
  · dsimp only
    split
    · intro d hd
      cases hd
    · intro d hd
      obtain rfl := Option.some.inj hd
      exact hres
  · intro d hd
    cases hd

/-! ## The routing invariant -/

/-- Nodes are filed under their own addresses, and the table refers to filed
nodes only. -/
structure View.Routed (v : View) : Prop where
  filed : ∀ d, v.nodes = some d → ∀ k n, (k, n) ∈ d.entries → v.addrOf n = k
  table : ∀ t, v.table = some t → ∀ s n, t s = some n →
    ∃ d, v.nodes = some d ∧ d.find (v.addrOf n) = some n

/-- The routing invariant of a client, and of every state it has shown to the
user. -/
structure Routed (w : World ω) : Prop where
  view : w.view.Routed
  lt : ∀ n, w.Known n → n < w.nextNode
  shown : ∀ v, Event.callback v ∈ w.trace → v.Routed

/-- A dictionary holds at most one node for each address. -/
theorem View.Routed.unique {v : View} (h : v.Routed) {d : NodeDict} (hd : v.nodes = some d)
    {k k' : Bytes} {n n' : NodeId} (hn : (k, n) ∈ d.entries) (hn' : (k', n') ∈ d.entries)
    (haddr : v.addrOf n = v.addrOf n') : (k, n) = (k', n') := by
  have hk : k = k' := by
    rw [← h.filed d hd k n hn, ← h.filed d hd k' n' hn', haddr]
  subst hk
  rw [d.eq_of_mem_entries hn hn']

theorem World.known_iff {w : World ω} {d : NodeDict} (hd : w.cc.nodes = some d) {n : NodeId} :
    w.Known n ↔ ∃ k, (k, n) ∈ d.entries := by
  simp only [World.Known, World.nodeList, hd, Option.map_some, Option.getD_some, HashTable.vals,
    List.mem_map, Prod.exists, exists_eq_right]

/-- A node in the table is in the node set. -/
theorem Routed.known {w : World ω} (h : Routed w) {t : SlotTable} (ht : w.cc.table = some t)
    {s : ℕ} {n : NodeId} (hn : t s = some n) : w.Known n := by
  obtain ⟨d, hd, hfind⟩ := h.view.table t ht s n hn
  exact (World.known_iff hd).mpr ⟨_, (d.find_eq_some_iff _ _).mp hfind⟩

theorem View.Routed.of_addrOf {v v' : View} (h : v.Routed) (hnodes : v'.nodes = v.nodes)
    (htable : v'.table = v.table)
    (haddr : ∀ d, v.nodes = some d → ∀ k n, (k, n) ∈ d.entries → v'.addrOf n = v.addrOf n) :
    v'.Routed := by
  constructor
  · intro d hd k n hn
    rw [hnodes] at hd
    rw [haddr d hd k n hn]
    exact h.filed d hd k n hn
  · intro t ht s n hn
    rw [htable] at ht
    obtain ⟨d, hd, hfind⟩ := h.table t ht s n hn
    refine ⟨d, hnodes.trans hd, ?_⟩
    rw [haddr d hd _ n ((d.find_eq_some_iff _ _).mp hfind)]
    exact hfind

/-- Events that say nothing about the command loop, and that show the user a
routing state with the invariant. -/
def Sound : Event → Prop
  | .lookup _ _ => False
  | .deferred _ _ => False
  | .stored _ _ => False
  | .callback v => v.Routed
  | _ => True

/-- What user code is shown agrees with the routing state. -/
theorem sound_of_routine {w : World ω} (hview : w.view.Routed)
    (hlt : ∀ n, w.Known n → n < w.nextNode) {e : Event} (he : Routine w e) : Sound e := by
  cases e with
  | callback v =>
    refine hview.of_addrOf he.1 he.2.1 fun d hd k n hn => ?_
    exact he.2.2 n (hlt n ((World.known_iff hd).mpr ⟨k, hn⟩))
  | lookup n k => exact he
  | deferred c k => exact he
  | stored s n => exact he
  | _ => trivial

/-- Routines that leave the routing state alone keep the invariant. -/
theorem Routed.linking {w w' : World ω} (h : Routed w) (hl : Linking w w') : Routed w' where
  view := by
    refine h.view.of_addrOf hl.nodes hl.table fun d hd k n hn => ?_
    exact Node.addr_of_endpoint (hl.endpoint n (h.lt n ((World.known_iff hd).mpr ⟨k, hn⟩)))
  lt n hn := lt_of_lt_of_le (h.lt n (hl.known.mp hn)) hl.nextNode
  shown v hv := by
    obtain ⟨new, hnew, hr⟩ := hl.trace
    rw [hnew, List.mem_append] at hv
    rcases hv with hv | hv
    · exact h.shown v hv
    · exact sound_of_routine h.view h.lt (hr _ hv)

/-! ## Installing a topology -/

/-- Exchanging connections changes nothing else. -/
structure Swapped (w w' : World ω) : Prop where
  cc : w'.cc = w.cc
  trace : w'.trace = w.trace
  nextNode : w'.nextNode = w.nextNode
  nextConn : w'.nextConn = w.nextConn
  endpoint : ∀ n, (w'.heap n).endpoint = (w.heap n).endpoint
  handed : ∃ σ : NodeId → NodeId, Function.Injective σ ∧ ∀ n, (w'.heap n).con = (w.heap (σ n)).con
  async : w'.acc = w.acc ∧ w'.inflight = w.inflight ∧ w'.cads = w.cads ∧ w'.nextCad = w.nextCad
  nextAConn : w'.nextAConn = w.nextAConn

theorem Swapped.refl (w : World ω) : Swapped w w :=
  ⟨rfl, rfl, rfl, rfl, fun _ => rfl, ⟨id, Function.injective_id, fun _ => rfl⟩,
    ⟨rfl, rfl, rfl, rfl⟩, rfl⟩

theorem Swapped.trans {w w' w'' : World ω} (h : Swapped w w') (h' : Swapped w' w'') :
    Swapped w w'' := by
  obtain ⟨σ, hσ, hcon⟩ := h.handed
  obtain ⟨σ', hσ', hcon'⟩ := h'.handed
  exact ⟨h'.cc.trans h.cc, h'.trace.trans h.trace, h'.nextNode.trans h.nextNode,
    h'.nextConn.trans h.nextConn, fun n => (h'.endpoint n).trans (h.endpoint n),
    ⟨σ ∘ σ', hσ.comp hσ', fun n => (hcon' n).trans (hcon (σ' n))⟩,
    ⟨h'.async.1.trans h.async.1, h'.async.2.1.trans h.async.2.1,
      h'.async.2.2.1.trans h.async.2.2.1, h'.async.2.2.2.trans h.async.2.2.2⟩,
    h'.nextAConn.trans h.nextAConn⟩

instance : Std.Refl (@Swapped ω) := ⟨Swapped.refl⟩

instance : IsTrans (World ω) Swapped := ⟨fun _ _ _ => Swapped.trans⟩

theorem swapped_relinkAsync (acon : Option AConnId) (n : NodeId) :
    Within Swapped (relinkAsync acon n : Prog ω Unit) := by
  cases acon with
  | none => exact within_pure _
  | some a =>
    exact fun w => ⟨rfl, rfl, rfl, rfl, fun _ => rfl, ⟨id, Function.injective_id, fun _ => rfl⟩,
      ⟨rfl, rfl, rfl, rfl⟩, rfl⟩

/-- Two nodes have exchanged what connections the first one has. -/
theorem swapped_exchange {w w' : World ω} {f t : NodeId}
    (h : w' = ((do
      modifyNode f fun node =>
        { node with
          con := if (w.heap f).con.isSome then (w.heap t).con else node.con
          acon := if (w.heap f).acon.isSome then (w.heap t).acon else node.acon }
      modifyNode t fun node =>
        { node with
          con := if (w.heap f).con.isSome then (w.heap f).con else node.con
          acon := if (w.heap f).acon.isSome then (w.heap f).acon else node.acon } :
        Prog ω Unit) w).2) : Swapped w w' := by
  subst h
  refine ⟨rfl, rfl, rfl, rfl, fun n => ?_, ?_, ⟨rfl, rfl, rfl, rfl⟩, rfl⟩
  · show (Function.update (Function.update w.heap f _) t _ n).endpoint = _
    rcases eq_or_ne n t with rfl | hn
    · rcases eq_or_ne n f with rfl | hn'
      · simp [Node.endpoint]
      · simp [Node.endpoint, hn']
    · rcases eq_or_ne n f with rfl | hn'
      · simp [hn, Node.endpoint]
      · simp [hn, hn']
  · by_cases hf : (w.heap f).con.isSome
    · refine ⟨Equiv.swap f t, (Equiv.swap f t).injective, fun n => ?_⟩
      show (Function.update (Function.update w.heap f _) t _ n).con = _
      rcases eq_or_ne n t with rfl | hn
      · simp [hf]
      · rcases eq_or_ne n f with rfl | hn'
        · simp [hn, hf]
        · simp [hn, hn', Equiv.swap_apply_of_ne_of_ne hn' hn]
    · refine ⟨id, Function.injective_id, fun n => ?_⟩
      show (Function.update (Function.update w.heap f _) t _ n).con = _
      rcases eq_or_ne n t with rfl | hn
      · rcases eq_or_ne n f with rfl | hn'
        · simp [hf]
        · simp [hf, hn']
      · rcases eq_or_ne n f with rfl | hn'
        · simp [hn, hf]
        · simp [hn, hn']

theorem swapped_swapNodeCtx (f t : NodeId) : Within Swapped (swapNodeCtx f t : Prog ω Unit) := by
  intro w
  refine Swapped.trans (swapped_exchange rfl)
    (within_ite (?_ : Within Swapped _) (within_pure ()) _)
  exact within_bind (swapped_relinkAsync (w.heap f).acon t) fun _ =>
    swapped_relinkAsync (w.heap t).acon f

theorem swapped_clusterNodesSwapCtx (oldnodes : NodeDict) (ns : List NodeId) :
    Within Swapped (clusterNodesSwapCtx oldnodes ns : Prog ω Unit) := by
  induction ns with
  | nil => exact within_pure _
  | cons t ts ih =>
    refine within_bind within_get fun w => ?_
    split
    · exact ih
    · exact within_bind (swapped_swapNodeCtx _ _) fun _ => ih

/-- A parsed topology took the place of the old node set and table. -/
structure Replaced (w w' : World ω) : Prop extends Advance w w' where
  installed : ∃ d t, w'.cc.nodes = some d ∧ w'.cc.table = some t ∧
    (∀ s n, t s = some n → n ∈ d.vals) ∧
    ∀ k n, (k, n) ∈ d.entries → w.nextNode ≤ n ∧ n < w'.nextNode ∧ (w'.heap n).addr = k ∧
      (w'.heap n).port ≠ 0
  events : ∃ new, w'.trace = w.trace ++ new ∧ ∀ e ∈ new, Routine w e ∨ Sound e

/-- **Installing a topology establishes the routing invariant.** -/
theorem Replaced.view {w w' : World ω} (hr : Replaced w w') : w'.view.Routed := by
  obtain ⟨d, t, hd, ht, htable, hfresh⟩ := hr.installed
  constructor
  · intro d' hd' k n hn
    obtain rfl := Option.some.inj (hd.symm.trans hd')
    exact (hfresh k n hn).2.2.1
  · intro t' ht' s n hn
    obtain rfl := Option.some.inj (ht.symm.trans ht')
    obtain ⟨⟨k, n'⟩, hmem, rfl⟩ := List.mem_map.mp (htable s n hn)
    refine ⟨d, hd, ?_⟩
    rw [show w'.view.addrOf n' = k from (hfresh k n' hmem).2.2.1]
    exact (d.find_eq_some_iff k n').mpr hmem

theorem Replaced.lt {w w' : World ω} (hr : Replaced w w') : ∀ n, w'.Known n → n < w'.nextNode := by
  obtain ⟨d, t, hd, ht, htable, hfresh⟩ := hr.installed
  intro n hn
  obtain ⟨k, hmem⟩ := (World.known_iff hd).mp hn
  exact (hfresh k n hmem).2.1

theorem Routed.replaced {w w' : World ω} (h : Routed w) (hr : Replaced w w') : Routed w' := by
  obtain ⟨new, hnew, hev⟩ := hr.events
  refine ⟨hr.view, hr.lt, fun v hv => ?_⟩
  rw [hnew, List.mem_append] at hv
  rcases hv with hv | hv
  · exact h.shown v hv
  · rcases hev _ hv with hv | hv
    · exact sound_of_routine h.view h.lt hv
    · exact hv

theorem Replaced.after_calm {w w₁ w' : World ω} (hc : Calm w w₁) (hr : Replaced w₁ w') :
    Replaced w w' := by
  obtain ⟨d, t, hd, ht, htable, hfresh⟩ := hr.installed
  obtain ⟨new, hnew, hev⟩ := hc.trace
  obtain ⟨new', hnew', hev'⟩ := hr.events
  refine ⟨hc.advance.trans hr.toAdvance, ⟨d, t, hd, ht, htable, fun k n hn => ?_⟩,
    new ++ new', ?_, fun e he => ?_⟩
  · obtain ⟨h1, h2⟩ := hfresh k n hn
    exact ⟨Nat.le_trans hc.nextNode h1, h2⟩
  · rw [hnew', hnew, List.append_assoc]
  · rcases List.mem_append.mp he with he | he
    · exact Or.inl (hev e he)
    · exact (hev' e he).imp_left hc.routine

theorem Replaced.then_calm {w w₁ w' : World ω} (hr : Replaced w w₁) (hc : Calm w₁ w') :
    Replaced w w' := by
  obtain ⟨d, t, hd, ht, htable, hfresh⟩ := hr.installed
  obtain ⟨new, hnew, hev⟩ := hr.events
  obtain ⟨new', hnew', hev'⟩ := hc.trace
  refine ⟨hr.toAdvance.trans hc.advance, ⟨d, t, hc.nodes.trans hd, hc.table.trans ht, htable,
    fun k n hn => ?_⟩, new ++ new', ?_, fun e he => ?_⟩
  · obtain ⟨h1, h2, h3, h4⟩ := hfresh k n hn
    have hep := hc.endpoint n h2
    refine ⟨h1, lt_of_lt_of_le h2 hc.nextNode, (Node.addr_of_endpoint hep).trans h3, ?_⟩
    rw [Node.port_of_endpoint hep]
    exact h4
  · rw [hnew', hnew, List.append_assoc]
  · rcases List.mem_append.mp he with he | he
    · exact hev e he
    · exact Or.inr (sound_of_routine hr.view hr.lt (hev' e he))

/-- What an attempt to update the slot map does. -/
def Updates (w : World ω) (r : Status) (w' : World ω) : Prop :=
  match r with
  | .ok => Replaced w w'
  | .err => Calm w w'

theorem Updates.advance {w w' : World ω} {r : Status} (h : Updates w r w') : Advance w w' := by
  cases r with
  | ok => exact h.toAdvance
  | err => exact h.toLinking.advance

theorem Routed.updates {w w' : World ω} {r : Status} (h : Routed w) (hu : Updates w r w') :
    Routed w' := by
  cases r with
  | ok => exact h.replaced hu
  | err => exact h.linking hu.toLinking

theorem Updates.after_calm {w w₁ w' : World ω} {r : Status} (hc : Calm w w₁)
    (hu : Updates w₁ r w') : Updates w r w' := by
  cases r with
  | ok => exact Replaced.after_calm hc hu
  | err => exact hc.trans hu

theorem Updates.then_calm {w w₁ w' : World ω} {r : Status} (hu : Updates w r w₁)
    (hc : Calm w₁ w') : Updates w r w' := by
  cases r with
  | ok => exact Replaced.then_calm hu hc
  | err => exact hu.trans hc

/-- A call that is followed by an update. -/
theorem wp_updates_bind {α : Type} {m : Prog ω α} {f : α → Prog ω Status} {w : World ω}
    (hm : Within Calm m) (hf : ∀ a w', Calm w w' → wp (f a) (fun r w'' => Updates w' r w'') w') :
    wp (m >>= f) (fun r w' => Updates w r w') w := by
  rw [wp_bind]
  refine wp_mono (hm.wp w) fun a w' hc => ?_
  exact wp_mono (hf a w' hc) fun r w'' hu => hu.after_calm hc

theorem advance_of_cc {w w' : World ω} {cc : Context} (h : w' = { w with cc := cc })
    (hs : cc.settings = w.cc.settings) : Advance w w' := by
  subst h
  exact ⟨le_rfl, fun _ _ => rfl, rfl, rfl, ⟨rfl, rfl⟩, rfl, hs, le_rfl, fun h => ⟨h.lt, h.inj⟩, [],
    (List.append_nil _).symm⟩

theorem Swapped.advance {w w' : World ω} (h : Swapped w w') : Advance w w' where
  nextNode := le_of_eq h.nextNode.symm
  endpoint n _ := h.endpoint n
  acc := h.async.1
  inflight := h.async.2.1
  cads := h.async.2.2
  nextAConn := h.nextAConn
  settings := by rw [h.cc]
  nextConn := le_of_eq h.nextConn.symm
  wired hw := by
    obtain ⟨σ, hσ, hcon⟩ := h.handed
    exact hw.of_perm hσ hcon (le_of_eq h.nextConn.symm)
  trace := ⟨[], by rw [h.trace, List.append_nil]⟩

/-- The node set and table are exchanged, with the connections swapped in
between. -/
theorem replaced_of_swapped {w₀ w w₁ w₂ : World ω} {d : NodeDict} {t : SlotTable}
    (hc : Calm w₀ w) (hd : AllFresh w₀.nextNode w d) (ht : ∀ s n, t s = some n → n ∈ d.vals)
    (h₁ : w₁ = (modifyCc (fun cc =>
      { cc with table := some t, routeVersion := cc.routeVersion + 1 }) w).2)
    (hs : Swapped w₁ w₂) :
    Replaced w₀ (modifyCc (fun cc => { cc with nodes := some d }) w₂).2 := by
  have h₁' : Advance w w₁ := advance_of_cc h₁ rfl
  have hadv : Advance w (modifyCc (fun cc => { cc with nodes := some d }) w₂).2 :=
    (h₁'.trans hs.advance).trans (advance_of_cc rfl rfl)
  obtain ⟨new, hnew, hev⟩ := hc.trace
  refine ⟨hc.advance.trans hadv, ⟨d, t, rfl, ?_, ht, fun k n hn => ?_⟩, new, ?_,
    fun e he => Or.inl (hev e he)⟩
  · show w₂.cc.table = some t
    rw [hs.cc, h₁]
    rfl
  · have hf := hd k n hn
    have hep := hadv.endpoint n hf.lt
    refine ⟨hf.lo_le, lt_of_lt_of_le hf.lt hadv.nextNode, (Node.addr_of_endpoint hep).trans hf.addr,
      ?_⟩
    rw [Node.port_of_endpoint hep]
    exact hf.port
  · show w₂.trace = _
    rw [hs.trace, h₁]
    exact hnew

theorem installNodes_updates {w₀ w : World ω} {d : NodeDict} (hc : Calm w₀ w)
    (hd : AllFresh w₀.nextNode w d) : wp (installNodes d) (fun r w' => Updates w₀ r w') w := by
  unfold installNodes
  rw [wp_bind, wp_get]
  split
  · exact (hc.trans (calm_setError _ _ _)).trans (within_dictRelease d _)
  · rename_i t ht
    have hin : ∀ s n, t s = some n → n ∈ d.vals := fun s n hn =>
      (((fillTable_eq_ok_iff.mp ht).2 s n).mp hn).1
    rw [wp_bind]
    cases w.cc.nodes with
    | none => exact replaced_of_swapped hc hd hin rfl (Std.Refl.refl _)
    | some old =>
      have hs := swapped_clusterNodesSwapCtx old d.vals (modifyCc (fun cc =>
        { cc with table := some t, routeVersion := cc.routeVersion + 1 }) w).2
      exact (replaced_of_swapped hc hd hin rfl hs).then_calm (within_dictRelease old _)

theorem Replaced.needUpdateRoute {w w' : World ω} {b : Bool} (h : Replaced w w') :
    Replaced w (modifyCc (fun cc => { cc with needUpdateRoute := b }) w').2 := by
  obtain ⟨d, t, hd, ht, htable, hfresh⟩ := h.installed
  exact ⟨h.toAdvance.trans (advance_of_cc rfl rfl), ⟨d, t, hd, ht, htable, hfresh⟩, h.events⟩

theorem updateNodesAndSlotmap_updates {w₀ w : World ω} {nodes : Option NodeDict} (hc : Calm w₀ w)
    (hd : ∀ d, nodes = some d → AllFresh w₀.nextNode w d) :
    wp (updateNodesAndSlotmap nodes) (fun r w' => Updates w₀ r w') w := by
  cases nodes with
  | none => exact hc
  | some d =>
    unfold updateNodesAndSlotmap
    dsimp only
    rw [wp_bind]
    refine wp_mono (installNodes_updates hc (hd d rfl)) fun r w' hu => ?_
    cases r with
    | err => exact hu
    | ok => exact (hu.then_calm (calm_userHook w')).needUpdateRoute

section Updates

variable (H : Hiredis ω)

theorem handleClusterSlotsReply_updates (c : ConnId) (w : World ω) :
    wp (handleClusterSlotsReply H c) (fun r w' => Updates w r w') w := by
  refine wp_updates_bind (within_redisGetReply H c _) fun a w' _ => ?_
  have hfail : ∀ e : ErrText, wp (do setError (some .other) e; pure Status.err)
      (fun r w'' => Updates w' r w'') w' := fun e => calm_setError _ _ w'
  cases a with
  | none => exact within_topologyReadError c _ w'
  | some a =>
    obtain ⟨q, reply⟩ := a
    cases reply with
    | array elems =>
      show wp (parseClusterSlots (w'.conns c).host (.array elems) >>= updateNodesAndSlotmap) _ w'
      rw [wp_bind]
      refine wp_mono (wp_and (parseClusterSlots_fresh _ _ w') (Within.wp (R := Calm) (within_parseClusterSlots _ _) w'))
        fun d w'' hd => ?_
      exact updateNodesAndSlotmap_updates hd.2 hd.1
    | _ => exact hfail _

theorem handleClusterNodesReply_updates (c : ConnId) (w : World ω) :
    wp (handleClusterNodesReply H c) (fun r w' => Updates w r w') w := by
  refine wp_updates_bind (within_redisGetReply H c _) fun a w' _ => ?_
  have hfail : ∀ e : ErrText, wp (do setError (some .other) e; pure Status.err)
      (fun r w'' => Updates w' r w'') w' := fun e => calm_setError _ _ w'
  cases a with
  | none => exact within_topologyReadError c _ w'
  | some a =>
    obtain ⟨q, reply⟩ := a
    cases reply with
    | string str =>
      show wp (parseClusterNodes (w'.conns c).host (.string str) >>= updateNodesAndSlotmap) _ w'
      rw [wp_bind]
      refine wp_mono (wp_and (parseClusterNodes_fresh _ _ w') (Within.wp (R := Calm) (within_parseClusterNodes _ _) w'))
        fun d w'' hd => ?_
      exact updateNodesAndSlotmap_updates hd.2 hd.1
    | _ => exact hfail _

theorem clusterUpdateRouteHandleReply_updates (c : ConnId) (w : World ω) :
    wp (clusterUpdateRouteHandleReply H c) (fun r w' => Updates w r w') w := by
  unfold clusterUpdateRouteHandleReply
  rw [wp_bind, wp_get]
  split
  · exact handleClusterSlotsReply_updates H c w
  · exact handleClusterNodesReply_updates H c w

theorem queryTopology_updates (c : ConnId) (w : World ω) :
    wp (queryTopology H c) (fun r w' => Updates w r w') w := by
  unfold queryTopology
  rw [wp_bind, wp_get]
  split
  · exact within_copyError c w
  · refine wp_updates_bind (within_startTls H c) fun r w₁ _ => ?_
    cases r with
    | err => exact Calm.refl w₁
    | ok =>
      refine wp_updates_bind (within_authenticate H c) fun r w₂ _ => ?_
      cases r with
      | err => exact Calm.refl w₂
      | ok =>
        refine wp_updates_bind (within_clusterUpdateRouteSendCommand H c) fun r w₃ _ => ?_
        cases r with
        | err => exact Calm.refl w₃
        | ok => exact clusterUpdateRouteHandleReply_updates H c w₃

theorem clusterUpdateRouteByAddr_updates (ip : Bytes) (port : ℕ) (w : World ω) :
    wp (clusterUpdateRouteByAddr H ip port) (fun r w' => Updates w r w') w := by
  unfold clusterUpdateRouteByAddr
  split
  · exact calm_setError _ _ w
  · refine wp_updates_bind (within_redisConnectWithOptions H ip port) fun c w₁ _ => ?_
    cases c with
    | none => exact calm_setError _ _ w₁
    | some c =>
      refine wp_updates_bind calm_userHook fun _ w₂ _ => ?_
      rw [wp_bind]
      refine wp_mono (queryTopology_updates H c w₂) fun r w₃ hu => ?_
      exact hu.then_calm (within_redisFree (some c) w₃)

theorem updateSlotmapFrom_updates (ns : List NodeId) :
    ∀ w : World ω, wp (updateSlotmapFrom H ns) (fun r w' => Updates w r w') w := by
  induction ns with
  | nil => exact fun w => Calm.refl w
  | cons n ns ih =>
    intro w
    unfold updateSlotmapFrom
    rw [wp_bind, wp_get, wp_bind]
    refine wp_mono (clusterUpdateRouteByAddr_updates H _ _ w) fun r w' hu => ?_
    cases r with
    | ok => exact hu.then_calm (calm_setError _ _ w')
    | err => exact wp_mono (ih w') fun r' w'' hu' => hu'.after_calm hu

/-- **An update replaces the routing state or leaves it alone.** -/
theorem redisClusterUpdateSlotmap_updates (w : World ω) :
    wp (redisClusterUpdateSlotmap H) (fun r w' => Updates w r w') w := by
  unfold redisClusterUpdateSlotmap
  rw [wp_bind, wp_get]
  split
  · exact calm_setError _ _ w
  · split
    · exact calm_setError _ _ w
    · exact updateSlotmapFrom_updates H _ w

end Updates

/-! ## Reaching nodes -/

section Reaching

variable (H : Hiredis ω)

/-- A node found is the entry of the slot, and nothing happened. -/
theorem nodeGetByTable_some (slot : ℕ) (w : World ω) :
    wp (nodeGetByTable slot) (fun r w' => ∀ n, r = some n →
      w' = w ∧ slot < redisClusterSlots ∧ ∃ t, w.cc.table = some t ∧ t slot = some n) w := by
  unfold nodeGetByTable
  rw [wp_bind, wp_get]
  split
  · intro n hn
    cases hn
  · rename_i hslot
    split
    · intro n hn
      cases hn
    · rename_i t ht
      split
      · intro n hn
        cases hn
      · rename_i m hm
        intro n hn
        obtain rfl := Option.some.inj hn
        exact ⟨rfl, not_le.mp hslot, t, ht, hm⟩

/-- The routing state stays, a connection returned is the one of node `n`, and no
other node got one. -/
def Links (n : NodeId) (w : World ω) (r : Option ConnId) (w' : World ω) : Prop :=
  Linking w w' ∧ (n < w.nextNode → ∀ c, r = some c → (w'.heap n).con = some c) ∧
    ∀ m ≠ n, m < w.nextNode → (w'.heap m).con = (w.heap m).con

theorem redisConnectWithOptions_fresh (host : Bytes) (port : ℕ) (w : World ω) :
    wp (redisConnectWithOptions H host port) (fun r w' => ∀ c, r = some c →
      c = w.nextConn ∧ w'.nextConn = w.nextConn + 1) w := by
  unfold redisConnectWithOptions
  rw [wp_bind, wp_ask]
  split
  · intro c hc
    cases hc
  · intro c hc
    obtain rfl := Option.some.inj hc
    exact ⟨rfl, rfl⟩
  · intro c hc
    obtain rfl := Option.some.inj hc
    exact ⟨rfl, rfl⟩

/-- Linking a connection that no node has yet. -/
theorem links_of_calm {n : NodeId} {w w' : World ω} {c : ConnId} (hc : Calm w w')
    (hcon : (w.heap n).con = none) (hlo : w.nextConn ≤ c) (hhi : c < w'.nextConn) :
    Links n w (some c) (modifyNode n (fun node => { node with con := some c }) w').2 := by
  have hother : ∀ m ≠ n, Function.update w'.heap n { w'.heap n with con := some c } m =
      w'.heap m := fun m hm => Function.update_of_ne hm _ _
  have hself : Function.update w'.heap n { w'.heap n with con := some c } n =
      { w'.heap n with con := some c } := Function.update_self _ _ _
  refine ⟨⟨hc.nextNode, fun m hm => ?_, hc.acc, hc.inflight, hc.cads, hc.nextAConn,
    hc.cc, hc.nextConn,
    fun hw => ?_, fun m hm d hd => ?_, hc.trace⟩, fun _ c' hr => ?_, fun m hmn hm => ?_⟩
  · show (Function.update w'.heap n { w'.heap n with con := some c } m).endpoint = _
    rcases eq_or_ne m n with rfl | hmn
    · rw [hself]
      exact hc.endpoint m hm
    · rw [hother m hmn]
      exact hc.endpoint m hm
  · have hw' := hc.wired hw
    have hnew : ∀ m, (w'.heap m).con ≠ some c := fun m hm =>
      absurd (hw.lt m c (hc.conOld m c hm)) (not_lt.mpr hlo)
    -- the only node whose connection changed is `n`, and nobody else has its new one
    have hcases : ∀ m d, (Function.update w'.heap n { w'.heap n with con := some c } m).con =
        some d → m = n ∧ d = c ∨ m ≠ n ∧ (w'.heap m).con = some d := by
      intro m d hd
      rcases eq_or_ne m n with rfl | hmn
      · rw [hself] at hd
        exact Or.inl ⟨rfl, (Option.some.inj hd).symm⟩
      · rw [hother m hmn] at hd
        exact Or.inr ⟨hmn, hd⟩
    constructor
    · intro m d hd
      rcases hcases m d hd with ⟨-, rfl⟩ | ⟨-, hd⟩
      · exact hhi
      · exact hw'.lt m d hd
    · intro m m' d hd hd'
      rcases hcases m d hd with ⟨rfl, rfl⟩ | ⟨-, hm⟩
      · rcases hcases m' d hd' with ⟨rfl, -⟩ | ⟨-, hm'⟩
        · rfl
        · exact absurd hm' (hnew m')
      · rcases hcases m' d hd' with ⟨-, rfl⟩ | ⟨-, hm'⟩
        · exact absurd hm (hnew m)
        · exact hw'.inj m m' d hm hm'
  · show (Function.update w'.heap n { w'.heap n with con := some c } m).con = _
    rcases eq_or_ne m n with rfl | hmn
    · rw [hcon] at hd
      cases hd
    · rw [hother m hmn]
      exact hc.con m hm d hd
  · obtain rfl := Option.some.inj hr
    show (Function.update w'.heap n { w'.heap n with con := some c } n).con = _
    rw [hself]
  · show (Function.update w'.heap n { w'.heap n with con := some c } m).con = _
    rw [hother m hmn]
    exact hc.conEq m hm

theorem openNode_links {n : NodeId} {w : World ω} (hcon : (w.heap n).con = none) :
    wp (openNode H n) (fun r w' => Links n w r w') w := by
  have hgive : ∀ {w' : World ω}, Calm w w' → Links n w none w' := fun hc =>
    ⟨hc.toLinking, (fun _ c hr => by cases hr), fun m _ hm => hc.conEq m hm⟩
  unfold openNode
  rw [wp_bind, wp_get, wp_bind]
  refine wp_mono (wp_and (calmly (within_redisConnectWithOptions H _ _) w)
    (redisConnectWithOptions_fresh H _ _ w)) fun r w₁ h => ?_
  obtain ⟨h₁, hnew⟩ := h
  cases r with
  | none => exact hgive (h₁.trans (calm_setError _ _ w₁))
  | some c =>
    obtain ⟨rfl, hnext⟩ := hnew c rfl
    dsimp only
    rw [wp_bind]
    refine wp_mono (calm_userHook.wp w₁) fun _ w₂ h₂ => ?_
    have h₁₂ := h₁.trans h₂
    rw [wp_bind, wp_get]
    split
    · exact hgive ((h₁₂.trans (within_copyError _ w₂)).trans (within_redisFree (some _) _))
    · rw [wp_bind]
      refine wp_mono (calmly (within_startTls H _) w₂) fun r w₃ h₃ => ?_
      have h₁₃ := h₁₂.trans h₃
      cases r with
      | err => exact hgive (h₁₃.trans (within_redisFree (some _) w₃))
      | ok =>
        dsimp only
        rw [wp_bind]
        refine wp_mono (calmly (within_authenticate H _) w₃) fun r w₄ h₄ => ?_
        have h₁₄ := h₁₃.trans h₄
        cases r with
        | err => exact hgive (h₁₄.trans (within_redisFree (some _) w₄))
        | ok =>
          have hhi : w₁.nextConn ≤ w₄.nextConn := (h₂.trans (h₃.trans h₄)).nextConn
          exact links_of_calm h₁₄ hcon le_rfl (by rw [hnext] at hhi; exact hhi)

/-- **The connection returned is the one of the node.** -/
theorem ctxGetByNode_links (n : NodeId) (w : World ω) :
    wp (ctxGetByNode H n) (fun r w' => Links n w r w' ∧
      ∀ c, (w.heap n).con = some c → r = some c ∧ Calm w w') w := by
  unfold ctxGetByNode
  rw [wp_bind, wp_get]
  split
  · rename_i c hcon
    have hkeep : ∀ {w' : World ω}, Calm w w' → Links n w (some c) w' ∧
        ∀ c', (w.heap n).con = some c' → some c = some c' ∧ Calm w w' := by
      intro w' hc
      refine ⟨⟨hc.toLinking, fun hn c' hr => ?_, fun m _ hm => hc.conEq m hm⟩,
        fun c' hc' => ⟨hcon.symm.trans hc', hc⟩⟩
      rw [hc.conEq n hn, hcon, hr]
    split
    · exact hkeep (within_reconnectNode H c w)
    · exact hkeep (Calm.refl w)
  · rename_i hcon
    have hno : ∀ {r : Option ConnId} {w' : World ω}, ∀ c, (w.heap n).con = some c →
        r = some c ∧ Calm w w' := fun c hc => by
      rw [hcon] at hc
      cases hc
    split
    · exact ⟨⟨Linking.refl w, (fun _ c hr => by cases hr), fun _ _ _ => rfl⟩, hno⟩
    · exact wp_mono (openNode_links H hcon) fun r w' h => ⟨h, hno⟩

end Reaching

/-! ## Learning a node -/

/-- The node set may have grown by new nodes; nothing else changed in the routing
state. -/
structure Learns (w w' : World ω) : Prop extends Advance w w' where
  table : w'.cc.table = w.cc.table
  grown : ∀ d, w.cc.nodes = some d →
    ∃ d', w'.cc.nodes = some d' ∧ ∀ e ∈ d.entries, e ∈ d'.entries
  learnt : ∀ d', w'.cc.nodes = some d' → ∀ k n, (k, n) ∈ d'.entries →
    (∃ d, w.cc.nodes = some d ∧ (k, n) ∈ d.entries) ∨ n < w'.nextNode ∧ (w'.heap n).addr = k
  conEq : ∀ n < w.nextNode, (w'.heap n).con = (w.heap n).con
  conns : w'.conns = w.conns
  traceEq : w'.trace = w.trace

theorem Learns.known {w w' : World ω} (h : Learns w w') {n : NodeId} (hn : w.Known n) :
    w'.Known n := by
  cases hd : w.cc.nodes with
  | none => simp [World.Known, World.nodeList, hd] at hn
  | some d =>
    obtain ⟨d', hd', hsub⟩ := h.grown d hd
    obtain ⟨k, hk⟩ := (World.known_iff hd).mp hn
    exact (World.known_iff hd').mpr ⟨k, hsub _ hk⟩

theorem Routed.learns {w w' : World ω} (h : Routed w) (hl : Learns w w') : Routed w' := by
  have hold : ∀ d k n, w.cc.nodes = some d → (k, n) ∈ d.entries →
      n < w.nextNode ∧ (w'.heap n).addr = k := by
    intro d k n hd hn
    have hlt := h.lt n ((World.known_iff hd).mpr ⟨k, hn⟩)
    exact ⟨hlt, (Node.addr_of_endpoint (hl.endpoint n hlt)).trans (h.view.filed d hd k n hn)⟩
  refine ⟨⟨fun d' hd' k n hn => ?_, fun t ht s n hn => ?_⟩, fun n hn => ?_, fun v hv => ?_⟩
  · rcases hl.learnt d' hd' k n hn with ⟨d, hd, hn⟩ | hn
    · exact (hold d k n hd hn).2
    · exact hn.2
  · obtain ⟨d, hd, hfind⟩ := h.view.table t (hl.table.symm.trans ht) s n hn
    obtain ⟨d', hd', hsub⟩ := hl.grown d hd
    have hmem := (d.find_eq_some_iff _ n).mp hfind
    refine ⟨d', hd', (d'.find_eq_some_iff _ n).mpr ?_⟩
    rw [show w'.view.addrOf n = _ from (hold d _ n hd hmem).2]
    exact hsub _ hmem
  · cases hd' : w'.cc.nodes with
    | none => simp [World.Known, World.nodeList, hd'] at hn
    | some d' =>
      obtain ⟨k, hk⟩ := (World.known_iff hd').mp hn
      rcases hl.learnt d' hd' k n hk with ⟨d, hd, hn⟩ | hn
      · exact lt_of_lt_of_le (hold d k n hd hn).1 hl.nextNode
      · exact hn.1
  · rw [hl.traceEq] at hv
    exact h.shown v hv

/-- Filing a new node under its address. -/
theorem learns_add {w : World ω} {d' : NodeDict} {node : Node} (hcon : node.con = none)
    (cc : Context)
    (hadd : (w.cc.nodes.getD HashTable.empty).add node.addr w.nextNode = some d')
    (hnodes : cc.nodes = some d') (htable : cc.table = w.cc.table)
    (hset : cc.settings = w.cc.settings) :
    Learns w { (newNode node w).2 with cc := cc } := by
  have hc := calm_newNode hcon w
  have hmem := HashTable.mem_entries_add hadd
  refine ⟨⟨hc.nextNode, hc.endpoint, rfl, rfl, ⟨rfl, rfl⟩, rfl, hset, le_rfl,
    fun h => ⟨(hc.wired h).lt, (hc.wired h).inj⟩, [], (List.append_nil _).symm⟩, htable,
    fun d hd => ⟨d', hnodes, fun e he => ?_⟩, fun d'' hd'' k n hn => ?_, hc.conEq, rfl, rfl⟩
  · rw [hmem, hd]
    exact Or.inr he
  · obtain rfl := Option.some.inj (hnodes.symm.trans hd'')
    rcases (hmem _).mp hn with heq | hn
    · obtain ⟨rfl, rfl⟩ := Prod.mk.inj heq
      exact Or.inr ⟨Nat.lt_succ_self _, by simp [newNode]⟩
    · cases hd : w.cc.nodes with
      | none => simp [hd, HashTable.empty, HashTable.entries] at hn
      | some d =>
        rw [hd] at hn
        exact Or.inl ⟨d, rfl, hn⟩

/-- Nothing was learnt, but the dictionary was created. -/
theorem learns_none {w : World ω} (cc : Context)
    (hnodes : cc.nodes = some (w.cc.nodes.getD HashTable.empty)) (htable : cc.table = w.cc.table)
    (hset : cc.settings = w.cc.settings) : Learns w { w with cc := cc } := by
  refine ⟨advance_of_cc rfl hset, htable, fun d hd => ⟨d, ?_, fun e he => he⟩, fun d' hd' k n hn => ?_, fun _ _ => rfl, rfl, rfl⟩
  · rw [hnodes, hd]
    rfl
  · obtain rfl := Option.some.inj (hnodes.symm.trans hd')
    cases hd : w.cc.nodes with
    | none => simp [hd, HashTable.empty, HashTable.entries] at hn
    | some d =>
      rw [hd] at hn
      exact Or.inl ⟨d, rfl, hn⟩

theorem learns_redisClusterSetOptionAddNode (addr : Bytes) :
    Within Learns (redisClusterSetOptionAddNode addr : Prog ω Status) := by
  intro w
  show wp (redisClusterSetOptionAddNode addr) (fun _ w' => Learns w w') w
  unfold redisClusterSetOptionAddNode
  rw [wp_bind, wp_get]
  dsimp only
  rw [wp_bind, wp_modifyCc]
  split
  · exact learns_none _ rfl rfl rfl
  · rename_i hfind
    split
    · exact learns_none _ rfl rfl rfl
    · split
      · exact learns_none _ rfl rfl rfl
      · split
        · exact learns_none _ rfl rfl rfl
        · split
          · exact learns_none _ rfl rfl rfl
          · rw [wp_bind, wp_newNode]
            split
            · rename_i hadd
              have := (HashTable.add_isSome_iff _ (cstr addr) w.nextNode).mpr hfind
              rw [hadd] at this
              cases this
            · exact learns_add rfl _ ‹_› rfl rfl rfl

/-! ## Order -/

/-- The routing state is in order. -/
structure Ordered (w : World ω) : Prop where
  routed : Routed w
  wired : Wired w

theorem Ordered.linking {w w' : World ω} (h : Ordered w) (hl : Linking w w') : Ordered w' :=
  ⟨h.routed.linking hl, hl.wired h.wired⟩

theorem Ordered.updates {w w' : World ω} {r : Status} (h : Ordered w) (hu : Updates w r w') :
    Ordered w' :=
  ⟨h.routed.updates hu, hu.advance.wired h.wired⟩

theorem Ordered.learns {w w' : World ω} (h : Ordered w) (hl : Learns w w') : Ordered w' :=
  ⟨h.routed.learns hl, hl.wired h.wired⟩

theorem Ordered.record {w : World ω} (h : Ordered w) {e : Event} (he : ∀ v, e ≠ .callback v) :
    Ordered { w with trace := w.trace ++ [e] } := by
  refine ⟨⟨h.routed.view, h.routed.lt, fun v hv => ?_⟩, h.wired.lt, h.wired.inj⟩
  rcases List.mem_append.mp hv with hv | hv
  · exact h.routed.shown v hv
  · exact absurd (List.mem_singleton.mp hv).symm (he v)

/-- A change to the context that leaves the routing state alone. -/
theorem Ordered.of_cc {w : World ω} {cc : Context} (h : Ordered w) (hn : cc.nodes = w.cc.nodes)
    (ht : cc.table = w.cc.table) : Ordered { w with cc := cc } := by
  have hview : World.view { w with cc := cc } = w.view := by simp only [World.view, hn, ht]
  have hlist : World.nodeList { w with cc := cc } = w.nodeList := by simp only [World.nodeList, hn]
  refine ⟨⟨hview ▸ h.routed.view, fun n hk => h.routed.lt n ?_, h.routed.shown⟩, h.wired.lt,
    h.wired.inj⟩
  rw [World.Known, hlist] at hk
  exact hk
