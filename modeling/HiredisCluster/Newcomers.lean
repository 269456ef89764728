/-
# What a parse creates

A parse leaves the old nodes and all connections alone.  The nodes that it creates have no
connections, and the replicas in their lists are new as well; so that a dictionary of new nodes
can be released without touching a connection.
-/
import HiredisCluster.Links
import HiredisCluster.SlotsReply

open Creation Program

variable {ω : Type}

/-- What has been built from `w₀` on: the links stay, and new nodes have new replicas. -/
structure Newcomers (w₀ w : World ω) : Prop extends SameLinks w₀ w where
  brood : ∀ n, w₀.nextNode ≤ n → n < w.nextNode → ∀ r ∈ w.slavesOf n, w₀.nextNode ≤ r

/-- The nodes of the dictionary were created from `w₀` on. -/
def Recent (w₀ w : World ω) (d : NodeDict) : Prop :=
  ∀ n ∈ d.vals, w₀.nextNode ≤ n ∧ n < w.nextNode

theorem Newcomers.refl (w : World ω) : Newcomers w w :=
  ⟨SameLinks.refl w, fun _ hlo hhi => absurd hhi (not_lt.mpr hlo)⟩

theorem recent_empty (w₀ w : World ω) : Recent w₀ w HashTable.empty := by
  intro n hn
  simp [HashTable.vals, HashTable.entries, HashTable.empty] at hn

section Building

variable {w₀ w : World ω} (h : Newcomers w₀ w)

include h

theorem Newcomers.creating {node : Node} (hacon : node.acon = none) (hslaves : node.slaves = none) :
    Newcomers w₀ (w.creating node) where
  toSameLinks := h.toSameLinks.trans (sameLinks_creating w w.cc hacon hslaves fun _ _ => Iff.rfl)
  brood n hlo hhi r hr := by
    rcases Nat.lt_succ_iff_lt_or_eq.mp hhi with hlt | rfl
    · rw [World.slavesOf, w.creating_heap_of_lt node hlt] at hr
      exact h.brood n hlo hlt r hr
    · rw [World.slavesOf, w.creating_heap_self, hslaves] at hr
      cases hr

/-- A new node is edited; its replicas stay or are new. -/
theorem Newcomers.place {n : NodeId} (hn : w₀.nextNode ≤ n) {node : Node} (hacon : node.acon = none)
    (hslaves : ∀ r ∈ node.slaves.getD [], w₀.nextNode ≤ r ∧ r < w.nextNode) :
    Newcomers w₀ (w.place n node) := by
  have hold : ∀ m < w₀.nextNode, (w.place n node).heap m = w.heap m := fun m hm =>
    World.place_heap_of_ne w (Nat.ne_of_lt (lt_of_lt_of_le hm hn)) node
  have hslavesOf : ∀ m, (w.place n node).slavesOf m =
      if m = n then node.slaves.getD [] else w.slavesOf m := by
    intro m
    unfold World.slavesOf
    split
    · rename_i hm
      rw [hm, World.place_heap_self]
    · rw [World.place_heap_of_ne w ‹_› node]
  exact
  { nextNode := h.nextNode
    known := h.known
    acon := fun m hm => by rw [hold m hm]; exact h.acon m hm
    slaves := fun m hm => by
      rw [hslavesOf, if_neg (Nat.ne_of_lt (lt_of_lt_of_le hm hn))]
      exact h.slaves m hm
    new := fun m hlo hhi => by
      rw [hslavesOf]
      rcases eq_or_ne m n with rfl | hm
      · rw [World.place_heap_self, if_pos rfl]
        exact ⟨hacon, fun r hr => (hslaves r hr).2⟩
      · rw [World.place_heap_of_ne w hm, if_neg hm]
        exact h.new m hlo hhi
    aconns := h.aconns
    nextAConn := h.nextAConn
    closing := h.closing
    trace := h.trace
    brood := fun m hlo hhi r hr => by
      rw [hslavesOf] at hr
      split at hr
      · exact (hslaves r hr).1
      · exact h.brood m hlo hhi r hr }

/-- An edit of a new node that concerns neither its connection nor its replicas. -/
theorem Newcomers.edit {n : NodeId} (hlo : w₀.nextNode ≤ n) (hhi : n < w.nextNode) {node : Node}
    (hacon : node.acon = (w.heap n).acon) (hslaves : node.slaves = (w.heap n).slaves) :
    Newcomers w₀ (w.place n node) := by
  obtain ⟨hnone, hlt⟩ := h.new n hlo hhi
  refine h.place hlo (hacon.trans hnone) fun r hr => ?_
  rw [hslaves] at hr
  exact ⟨h.brood n hlo hhi r hr, hlt r hr⟩

/-- What a dictionary of new nodes holds has no asynchronous connections. -/
theorem Newcomers.aconsOf_eq_nil {d : NodeDict} (hd : Recent w₀ w d) :
    w.aconsOf (w.holdings d) = [] := by
  refine List.filterMap_eq_nil_iff.mpr fun n hn => ?_
  obtain ⟨m, hm, rfl | hr⟩ := mem_holdings.mp hn
  · obtain ⟨hlo, hhi⟩ := hd n hm
    exact (h.new n hlo hhi).1
  · obtain ⟨hlo, hhi⟩ := hd m hm
    exact (h.new n (h.brood m hlo hhi n hr) ((h.new m hlo hhi).2 n hr)).1

theorem Newcomers.freeing {ns : List NodeId} (hns : w.aconsOf ns = []) :
    Newcomers w₀ (w.freeing ns) where
  nextNode := h.nextNode
  known := h.known
  acon := h.acon
  slaves := h.slaves
  new := h.new
  aconns := h.aconns
  nextAConn := h.nextAConn
  closing := by
    show w.closing ++ w.aconsOf ns = _
    rw [hns, List.append_nil]
    exact h.closing
  trace := by
    obtain ⟨new, hnew⟩ := h.trace
    exact ⟨_, (congrArg (· ++ _) hnew).trans (List.append_assoc _ _ _)⟩
  brood := h.brood

/-- An error is reported, and what was built is released. -/
theorem Newcomers.failed {d : NodeDict} (hd : Recent w₀ w d) (e : Complaint) :
    Newcomers w₀ (parseFailed d e w).2 := by
  show Newcomers w₀ (dictRelease d (w.complaining e)).2
  rw [dictRelease_eq]
  have he : Newcomers w₀ (w.complaining e) :=
    ⟨h.toSameLinks.trans (sameLinks_of_edit rfl rfl rfl rfl rfl rfl rfl), h.brood⟩
  exact he.freeing (he.aconsOf_eq_nil hd)

end Building

/-! ## CLUSTER SLOTS -/

section Slots

variable {w₀ : World ω}

theorem parseSlotsReplicas_newcomers (tcpHost : Bytes) {m : NodeId} (hlo : w₀.nextNode ≤ m)
    (es : List Reply) : ∀ {w : World ω}, Newcomers w₀ w → m < w.nextNode →
      wp (parseSlotsReplicas tcpHost m es)
        (fun _ w' => Newcomers w₀ w' ∧ w.nextNode ≤ w'.nextNode) w := by
  induction es with
  | nil => exact fun h _ => ⟨h, le_rfl⟩
  | cons e es ih =>
    intro w h hm
    unfold parseSlotsReplicas
    cases slotsEndpoint tcpHost e with
    | error c => exact ⟨h, le_rfl⟩
    | ok ep =>
      dsimp only
      rw [wp_bind, wp_get]
      split
      · unfold nodeGetWithSlots addSlave
        rw [wp_bind, wp_newNode_creating, wp_bind, wp_modifyNode]
        have hcreated : Newcomers w₀ (w.creating
            { addr := hostPort ep.1 ep.2, host := ep.1, port := toUint16 ep.2, role := .slave
              slots := if Role.slave = .master then some [] else none }) := h.creating rfl rfl
        obtain ⟨hnone, hslaves⟩ := hcreated.new m hlo (Nat.lt_succ_of_lt hm)
        refine wp_mono (ih (hcreated.place hlo hnone fun r hr => ?_) (Nat.lt_succ_of_lt hm))
          fun _ w' h' => ⟨h'.1, (Nat.le_succ _).trans h'.2⟩
        rcases List.mem_append.mp hr with hr | hr
        · exact ⟨hcreated.brood m hlo (Nat.lt_succ_of_lt hm) r hr, hslaves r hr⟩
        · rw [List.mem_singleton.mp hr]
          exact ⟨h.nextNode, Nat.lt_succ_self _⟩
      · exact ih h hm

theorem parseSlotsRegion_newcomers (tcpHost : Bytes) {nodes : NodeDict} (region : Reply)
    {w : World ω} (h : Newcomers w₀ w) (hd : Recent w₀ w nodes) :
    wp (parseSlotsRegion tcpHost nodes region)
      (fun r w' => Newcomers w₀ w' ∧ Recent w₀ w' r.1) w := by
  unfold parseSlotsRegion
  split
  · split
    · exact ⟨h, hd⟩
    · split
      · exact ⟨h, hd⟩
      · rename_i host port _
        split
        · rename_i m hfind
          obtain ⟨hlo, hhi⟩ := hd m ((nodes.mem_vals_iff m).mpr ⟨_, hfind⟩)
          unfold addSlotRange
          rw [wp_bind, wp_modifyNode]
          exact ⟨h.edit hlo hhi rfl rfl, hd⟩
        · unfold nodeGetWithSlots
          rw [wp_bind, wp_newNode_creating]
          have hcreated : Newcomers w₀ (w.creating
              { addr := hostPort host port, host, port := toUint16 port, role := .master
                slots := if Role.master = .master then some [] else none }) := h.creating rfl rfl
          split
          · exact ⟨hcreated, fun n hn => ⟨(hd n hn).1, Nat.lt_succ_of_lt (hd n hn).2⟩⟩
          · rename_i nodes' hadd
            unfold addSlotRange
            rw [wp_bind, wp_modifyNode, wp_bind]
            refine wp_mono (parseSlotsReplicas_newcomers tcpHost h.nextNode _
              (hcreated.edit h.nextNode (Nat.lt_succ_self _) rfl rfl) (Nat.lt_succ_self _))
              fun _ w' h' => ⟨h'.1, fun n hn => ?_⟩
            obtain ⟨k, hk⟩ := (nodes'.mem_vals_iff n).mp hn
            rw [HashTable.find_add hadd] at hk
            split at hk
            · obtain rfl := Option.some.inj hk
              exact ⟨h.nextNode, h'.2⟩
            · obtain ⟨hlo, hhi⟩ := hd n ((nodes.mem_vals_iff n).mpr ⟨k, hk⟩)
              exact ⟨hlo, lt_of_lt_of_le (Nat.lt_succ_of_lt hhi) h'.2⟩
  · exact ⟨h, hd⟩

theorem parseSlotsRegions_newcomers (tcpHost : Bytes) (regions : List Reply) :
    ∀ {nodes : NodeDict} {w : World ω}, Newcomers w₀ w → Recent w₀ w nodes →
      wp (parseSlotsRegions tcpHost nodes regions)
        (fun r w' => Newcomers w₀ w' ∧ Recent w₀ w' r.1) w := by
  induction regions with
  | nil => exact fun h hd => ⟨h, hd⟩
  | cons region rest ih =>
    intro nodes w h hd
    unfold parseSlotsRegions
    rw [wp_bind]
    refine wp_mono (parseSlotsRegion_newcomers tcpHost region h hd) fun r w' h' => ?_
    obtain ⟨nodes', err⟩ := r
    cases err with
    | some c => exact h'
    | none => exact ih h'.1 h'.2

theorem parseClusterSlots_newcomers (tcpHost : Bytes) (reply : Reply) (w : World ω) :
    Newcomers w (parseClusterSlots tcpHost reply w).2 := by
  show wp (parseClusterSlots tcpHost reply) (fun _ w' => Newcomers w w') w
  unfold parseClusterSlots
  split
  · rw [wp_bind]
    refine wp_mono (parseSlotsRegions_newcomers tcpHost _ (Newcomers.refl w) (recent_empty w w))
      fun r w' h' => ?_
    obtain ⟨nodes, err⟩ := r
    cases err with
    | some c => exact h'.1.failed h'.2 c
    | none => exact h'.1
  · exact (Newcomers.refl w).failed (recent_empty w w) _

end Slots

/-! ## CLUSTER NODES -/

theorem Scanned.newcomers {w₀ w : World ω} {made : List NodesLine} {scan : NodesScan}
    (h : Scanned w₀ w made scan) : Newcomers w₀ w := by
  have hline : ∀ n, w₀.nextNode ≤ n → n < w.nextNode → ∃ l, MadeFor w₀.nextNode made n l := by
    intro n hlo hhi
    rw [h.nextNode] at hhi
    exact exists_madeFor hlo hhi
  have hbrood : ∀ n, w₀.nextNode ≤ n → n < w.nextNode → ∀ r ∈ w.slavesOf n,
      ∃ l, MadeFor w₀.nextNode made r l := by
    intro n hlo hhi r hr
    obtain ⟨l, hl⟩ := hline n hlo hhi
    cases l with
    | bad c node => exact absurd (h.accepted _ hl.mem) id
    | skipped => exact absurd (h.accepted _ hl.mem) id
    | master node fields =>
      obtain ⟨node', hr⟩ := (h.mem_slavesOf hl).mp hr
      exact ⟨_, hr⟩
    | slave node k =>
      -- a replica holds others only while it waits for its master
      rcases (h.slave hl).2 with hfind | hnone
      · rcases h.named hfind with ⟨node', fields, hn, -⟩ | ⟨-, -, hlist⟩
        · cases hl.unique hn
        · have hmem : r ∈ replicasOf w₀.nextNode made k := hlist ▸ List.mem_cons_of_mem n hr
          obtain ⟨node', hr⟩ := mem_replicasOf.mp hmem
          exact ⟨_, hr⟩
      · rw [hnone] at hr
        cases hr
  exact
  { nextNode := by
      rw [h.nextNode]
      exact Nat.le_add_right _ _
    known := fun n _ => by
      rw [World.Known, World.Known, World.nodeList, h.cc]
      rfl
    acon := fun n hn => by rw [h.old n hn]
    slaves := fun n hn => by rw [World.slavesOf, h.old n hn]; rfl
    new := fun n hlo hhi => by
      obtain ⟨l, hl⟩ := hline n hlo hhi
      refine ⟨(h.bare hl).2, fun r hr => ?_⟩
      obtain ⟨l', hl'⟩ := hbrood n hlo hhi r hr
      exact h.lt hl'
    aconns := fun a => by rw [h.world]; exact ⟨rfl, rfl, rfl⟩
    nextAConn := by rw [h.world]
    closing := by rw [h.world]
    trace := ⟨[], by rw [h.trace, List.append_nil]⟩
    brood := fun n hlo hhi r hr => by
      obtain ⟨l, hl⟩ := hbrood n hlo hhi r hr
      exact hl.1 }

theorem Newcomers.refusing {w₀ w : World ω} (h : Newcomers w₀ w) {node : Node}
    {role : Role} (hd : Drawn role node) : Newcomers w₀ (w.refusing node) := by
  have hcreated := h.creating hd.acon hd.slaves
  exact ⟨hcreated.toSameLinks.trans (sameLinks_of_eq rfl rfl rfl rfl rfl rfl ⟨_, rfl⟩), hcreated.brood⟩

theorem Ended.newcomers {w₀ w : World ω} {made : List NodesLine} {scan : NodesScan}
    {stop : Option Stop} (h : Ended w₀ w made scan stop) : Newcomers w₀ w := by
  cases stop with
  | none => exact Scanned.newcomers h
  | some s =>
    cases s with
    | line c => exact Scanned.newcomers (show Scanned w₀ w made scan from h)
    | node c =>
      obtain ⟨w₁, role, node, hd, h₁, rfl⟩ := h
      exact h₁.newcomers.refusing hd
    | name =>
      obtain ⟨w₁, scan₁, node, hd, h₁, -, rfl⟩ := h
      exact h₁.newcomers.refusing hd

theorem parseClusterNodes_newcomers (tcpHost : Bytes) (reply : Reply) (w : World ω) :
    Newcomers w (parseClusterNodes tcpHost reply w).2 := by
  obtain ⟨scan, w₁, hend, hres⟩ := parseClusterNodes_ended tcpHost reply w
  have h₁ := hend.newcomers
  split at hres
  · rw [hres.2]
    exact h₁
  · obtain ⟨-, e, hw'⟩ := hres
    rw [hw']
    exact ⟨h₁.toSameLinks.trans (sameLinks_of_eq rfl rfl rfl rfl rfl rfl ⟨_, rfl⟩), h₁.brood⟩

theorem parseTopology_newcomers (useSlots : Bool) (host : Bytes) (r : Reply) (w : World ω) :
    Newcomers w (parseTopology useSlots host r w).2 := by
  cases useSlots with
  | true => exact parseClusterSlots_newcomers host r w
  | false => exact parseClusterNodes_newcomers host r w
