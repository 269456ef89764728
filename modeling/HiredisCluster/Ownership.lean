/-
# Who owns the nodes of a CLUSTER NODES reply

While the lines are read, a node is held by the dictionary (a master), by the list of a
master (its replicas), or only by the map from names to nodes (a replica that waits for its
master, with the others that wait in its list).  The map owns nothing: what only it reaches
is lost when it is released.  And a master that is refused for its name is released by hand
although the dictionary holds it already.

A node that `node_get_with_nodes` gives up on is created and released within that function;
it never leaves it and is not a node here.
-/
import HiredisCluster.NodesReply

open Creation Program

variable {ω : Type}

/-! ## The ledger -/

def Event.isRelease (n : NodeId) : Event → Bool
  | .released m => m = n
  | _ => false

/-- How often node `n` has been released. -/
def World.releases (w : World ω) (n : NodeId) : ℕ := w.trace.countP (Event.isRelease n)

/-- Every node created between `w` and `w'` is held by the result in exactly one place, or
was released exactly once. -/
def HeldOrReleased (w : World ω) (r : Option NodeDict) (w' : World ω) : Prop :=
  ∀ n, w.nextNode ≤ n → n < w'.nextNode →
    ((r.map w'.holdings).getD []).count n + w'.releases n = w.releases n + 1

theorem releases_releasing (w : World ω) (ns : List NodeId) (n : NodeId) :
    (w.releasing ns).releases n = w.releases n + ns.count n := by
  rw [World.releases, World.releasing, List.countP_append, ← World.releases, List.countP_map,
    List.count]
  rfl

/-! ## What the dictionary holds -/

section Holdings

variable {w₀ w : World ω} {made : List NodesLine} {scan : NodesScan}

/-- Two masters in the dictionary with one name are one node, if there are replicas at all. -/
theorem Scanned.master_unique (h : Scanned w₀ w made scan) {m m' r : NodeId}
    {node node' node'' : Node} {fields fields' : List Bytes} {k : Bytes}
    (hm : MadeFor w₀.nextNode made m (.master node fields))
    (hm' : MadeFor w₀.nextNode made m' (.master node' fields'))
    (hr : MadeFor w₀.nextNode made r (.slave node'' k)) (hsame : node.label = node'.label) :
    m = m' := by
  have hflag := h.addSlave_of_slave hr
  have hfind := (h.master hm).2.2 hflag
  rw [hsame, (h.master hm').2.2 hflag] at hfind
  exact (Option.some.inj hfind).symm

theorem Scanned.nodup_vals (h : Scanned w₀ w made scan) : scan.nodes.vals.Nodup := by
  refine List.Nodup.map_on ?_ (List.Nodup.of_map Prod.fst scan.nodes.nodup)
  rintro ⟨a, n⟩ ha ⟨b, m⟩ hb hnm
  obtain rfl : n = m := hnm
  obtain ⟨node, fields, hn, rfl⟩ := (h.filed a n).mp ((scan.nodes.find_eq_some_iff a n).mpr ha)
  obtain ⟨node', fields', hn', rfl⟩ := (h.filed b n).mp ((scan.nodes.find_eq_some_iff b n).mpr hb)
  obtain ⟨rfl, -⟩ := NodesLine.master.inj (hn.unique hn')
  rfl

/-- **Nothing is held in two places.** -/
theorem Scanned.nodup_holdings (h : Scanned w₀ w made scan) : (w.holdings scan.nodes).Nodup := by
  rw [World.holdings, List.nodup_flatMap]
  constructor
  · intro m hm
    obtain ⟨node, fields, hmade⟩ := h.mem_vals.mp hm
    rw [List.nodup_cons]
    constructor
    · intro hself
      obtain ⟨node', hslave⟩ := (h.mem_slavesOf hmade).mp hself
      cases hmade.unique hslave
    · exact (h.master hmade).2.1.nodup_iff.mpr (nodup_replicasOf _)
  · refine h.nodup_vals.imp_of_mem ?_
    intro m m' hm hm' hne
    obtain ⟨node, fields, hmade⟩ := h.mem_vals.mp hm
    obtain ⟨node', fields', hmade'⟩ := h.mem_vals.mp hm'
    refine List.disjoint_left.mpr ?_
    intro n hn hn'
    rcases List.mem_cons.mp hn with rfl | hslave
    · rcases List.mem_cons.mp hn' with rfl | hslave'
      · exact hne rfl
      · obtain ⟨node'', hs⟩ := (h.mem_slavesOf hmade').mp hslave'
        cases hmade.unique hs
    · obtain ⟨node'', hs⟩ := (h.mem_slavesOf hmade).mp hslave
      rcases List.mem_cons.mp hn' with rfl | hslave'
      · cases hmade'.unique hs
      · obtain ⟨other, hs'⟩ := (h.mem_slavesOf hmade').mp hslave'
        obtain ⟨-, hlabel⟩ := NodesLine.slave.inj (hs.unique hs')
        exact hne (h.master_unique hmade hmade' hs hlabel)

/-- A replica line whose master is not among the accepted lines. -/
def NodesLine.Stray (made : List NodesLine) : NodesLine → Prop
  | .slave _ k => Unclaimed made k
  | _ => False

/-- A node is held unless its line is a stray one. -/
theorem Scanned.mem_holdings_iff (h : Scanned w₀ w made scan) {n : NodeId} {l : NodesLine}
    (hn : MadeFor w₀.nextNode made n l) : n ∈ w.holdings scan.nodes ↔ ¬ l.Stray made := by
  rw [mem_holdings]
  cases l with
  | bad c node => exact absurd (h.accepted _ hn.mem) id
  | skipped => exact absurd (h.accepted _ hn.mem) id
  | master node fields =>
    exact iff_of_true ⟨n, h.mem_vals.mpr ⟨node, fields, hn⟩, Or.inl rfl⟩ id
  | slave node k =>
    constructor
    · rintro ⟨m, hm, hnm⟩ hstray
      obtain ⟨node', fields, hmade⟩ := h.mem_vals.mp hm
      rcases hnm with rfl | hnm
      · cases hmade.unique hn
      · obtain ⟨node'', hslave⟩ := (h.mem_slavesOf hmade).mp hnm
        obtain ⟨-, hlabel⟩ := NodesLine.slave.inj (hn.unique hslave)
        exact hstray node' fields hmade.mem hlabel.symm
    · intro hclaimed
      by_contra hno
      refine hclaimed fun node' fields hl hlabel => ?_
      obtain ⟨m, hmade⟩ := MadeFor.of_mem w₀.nextNode hl
      refine hno ⟨m, h.mem_vals.mpr ⟨node', fields, hmade⟩, Or.inr ?_⟩
      rw [h.mem_slavesOf hmade, hlabel]
      exact ⟨node, hn⟩

theorem Scanned.count_holdings (h : Scanned w₀ w made scan) {n : NodeId} {l : NodesLine}
    (hn : MadeFor w₀.nextNode made n l) :
    (w.holdings scan.nodes).count n = 1 ↔ ¬ l.Stray made := by
  rw [← h.mem_holdings_iff hn]
  constructor
  · intro hone
    exact List.count_pos_iff.mp (by omega)
  · exact List.count_eq_one_of_mem h.nodup_holdings

end Holdings

/-! ## The end of a scan -/

/-- Each accepted line is accounted for. -/
def NoStray (made : List NodesLine) : Prop := ∀ l ∈ made, ¬ l.Stray made

/-- The sum that must be one, when a scan has ended. -/
def OwnedOnce (w w₁ : World ω) (scan : NodesScan) : Prop :=
  ∀ n, w.nextNode ≤ n → n < w₁.nextNode →
    (w₁.holdings scan.nodes).count n + w₁.releases n = w.releases n + 1

theorem Scanned.releases {w₀ w : World ω} {made : List NodesLine} {scan : NodesScan}
    (h : Scanned w₀ w made scan) (n : NodeId) : w.releases n = w₀.releases n := by
  rw [World.releases, h.trace]
  rfl

theorem Scanned.balanced_iff {w₀ w : World ω} {made : List NodesLine} {scan : NodesScan}
    (h : Scanned w₀ w made scan) : OwnedOnce w₀ w scan ↔ NoStray made := by
  constructor
  · intro hb l hl
    obtain ⟨n, hn⟩ := MadeFor.of_mem w₀.nextNode hl
    have := hb n hn.1 (h.lt hn)
    rw [h.releases] at this
    exact (h.count_holdings hn).mp (by omega)
  · intro hno n hlo hlt
    rw [h.nextNode] at hlt
    obtain ⟨l, hn⟩ := exists_madeFor hlo hlt
    rw [h.releases, (h.count_holdings hn).mpr (hno l hn.mem), Nat.add_comm]

theorem World.refusing_releases (w : World ω) (node : Node) (n : NodeId) :
    (w.refusing node).releases n = w.releases n + [w.nextNode].count n :=
  releases_releasing (w.creating node) [w.nextNode] n

theorem Scanned.holdings_refusing {w₀ w : World ω} {made : List NodesLine} {scan : NodesScan}
    (h : Scanned w₀ w made scan) (node : Node) :
    (w.refusing node).holdings scan.nodes = w.holdings scan.nodes := by
  refine List.flatMap_congr fun m hm => ?_
  obtain ⟨node', fields, hmade⟩ := h.mem_vals.mp hm
  rw [World.slavesOf, w.refusing_heap_of_lt node (h.lt hmade)]
  rfl

/-- A node that is refused is released, and nothing else changes. -/
theorem Scanned.balanced_address {w₀ w : World ω} {made : List NodesLine} {scan : NodesScan}
    (h : Scanned w₀ w made scan) (node : Node) :
    OwnedOnce w₀ (w.refusing node) scan ↔ OwnedOnce w₀ w scan := by
  have hnext : (w.refusing node).nextNode = w.nextNode + 1 := rfl
  have hnot : w.nextNode ∉ w.holdings scan.nodes := by
    intro hmem
    obtain ⟨l, hl⟩ := h.made_of_mem_holdings hmem
    exact Nat.lt_irrefl _ (h.lt hl)
  have hlater : w₀.nextNode ≤ w.nextNode := by
    rw [h.nextNode]
    exact Nat.le_add_right _ _
  unfold OwnedOnce
  simp only [h.holdings_refusing, w.refusing_releases, hnext]
  constructor
  · intro hb n hlo hlt
    have := hb n hlo (by omega)
    rwa [List.count_singleton, if_neg fun heq => Nat.ne_of_gt hlt (beq_iff_eq.mp heq),
      Nat.add_zero] at this
  · intro hb n hlo hlt
    by_cases hn : n = w.nextNode
    · rw [hn, List.count_eq_zero.mpr hnot, h.releases, List.count_singleton_self, Nat.zero_add]
    · rw [List.count_singleton, if_neg fun heq => hn (beq_iff_eq.mp heq).symm, Nat.add_zero]
      exact hb n hlo (by omega)

/-- A master that is refused for its name is released, and the dictionary holds it. -/
theorem not_balanced_name {w₀ w : World ω} {made : List NodesLine} {scan scan' : NodesScan}
    (h : Scanned w₀ w made scan) {node : Node}
    (hadd : scan.nodes.add node.addr w.nextNode = some scan'.nodes) :
    ¬ OwnedOnce w₀ (w.refusing node) scan' := by
  intro hb
  have hlater : w₀.nextNode ≤ w.nextNode := by
    rw [h.nextNode]
    exact Nat.le_add_right _ _
  have hsum := hb w.nextNode hlater (Nat.lt_succ_self w.nextNode)
  have hval : w.nextNode ∈ scan'.nodes.vals := by
    rw [HashTable.mem_vals_iff]
    exact ⟨node.addr, by rw [HashTable.find_add hadd, if_pos rfl]⟩
  have hheld : 0 < ((w.refusing node).holdings scan'.nodes).count w.nextNode :=
    List.count_pos_iff.mpr (mem_holdings.mpr ⟨_, hval, Or.inl rfl⟩)
  rw [w.refusing_releases, h.releases, List.count_singleton_self] at hsum
  omega

/-- The lines are such that every node has one owner in the end. -/
def OneOwner (s : List NodesLine × Option Stop) : Prop :=
  (match s.2 with
    | some .name => False
    | _ => True) ∧ NoStray s.1

theorem Ended.balanced_iff {w₀ w : World ω} {made : List NodesLine} {scan : NodesScan}
    {stop : Option Stop} (h : Ended w₀ w made scan stop) :
    OwnedOnce w₀ w scan ↔ OneOwner (made, stop) := by
  cases stop with
  | none => exact (Scanned.balanced_iff h).trans (and_iff_right trivial).symm
  | some s =>
    cases s with
    | line c =>
      have hs : Scanned w₀ w made scan := h
      exact hs.balanced_iff.trans (and_iff_right trivial).symm
    | node c =>
      obtain ⟨w₁, -, node, -, hs, rfl⟩ := h
      exact ((hs.balanced_address node).trans hs.balanced_iff).trans (and_iff_right trivial).symm
    | name =>
      obtain ⟨w₁, scan₁, node, -, hs, hadd, rfl⟩ := h
      exact iff_of_false (not_balanced_name hs hadd) fun hno => hno.1

/-- **A parse of CLUSTER NODES loses no node and releases none twice exactly when** every
replica that is accepted asks for a master that is accepted too, and no master is refused for
having the name of another. -/
theorem parseClusterNodes_accounted_iff (tcpHost : Bytes) (reply : Reply) (w : World ω) :
    HeldOrReleased w (parseClusterNodes tcpHost reply w).1 (parseClusterNodes tcpHost reply w).2 ↔
      OneOwner (survey w.cc.addSlave [] (readNodesReply tcpHost w.cc.addSlave reply)) := by
  obtain ⟨scan, w₁, hend, hres⟩ := parseClusterNodes_ended tcpHost reply w
  rw [← hend.balanced_iff]
  split at hres
  · obtain ⟨hr, hw⟩ := hres
    rw [hr, hw]
    exact Iff.rfl
  · obtain ⟨hr, e, hw⟩ := hres
    rw [hr, hw]
    -- what was held has been released
    refine forall_congr' fun n => forall_congr' fun _ => forall_congr' fun _ => ?_
    rw [releases_releasing, Option.map_none, Option.getD_none, List.count_nil, Nat.zero_add,
      Nat.add_comm]
    exact Iff.rfl

/-- A master `m`, and a replica of a node `x` that no line is about. -/
def strayReplica : Reply :=
  .string (ascii "m a:1 master - 0 0 1 c 0-5\nr a:2 slave x 0 0 1 c\n")

/-- Two masters with different addresses and one name. -/
def sameName : Reply :=
  .string (ascii "m a:1 master - 0 0 1 c 0-5\nm a:2 master - 0 0 1 c 6-9\n")

/-- The replica of an unknown master is lost: neither held nor released.  The second of two
masters with one name is released twice. -/
theorem strayReplica_not_accounted :
    let w : World Unit := { env := (), cc := { addSlave := true } }
    ¬ HeldOrReleased w (parseClusterNodes [] strayReplica w).1 (parseClusterNodes [] strayReplica w).2 ∧
      ¬ HeldOrReleased w (parseClusterNodes [] sameName w).1 (parseClusterNodes [] sameName w).2 := by
  constructor
  · intro h
    have hlost := h 1 (by decide +kernel) (by decide +kernel)
    revert hlost
    decide +kernel
  · intro h
    have htwice := h 1 (by decide +kernel) (by decide +kernel)
    revert htwice
    decide +kernel
