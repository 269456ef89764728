/-
# What a CLUSTER NODES reply says

`parse_cluster_nodes` accepts one line after the other until one is refused.  Here a
line is first read on its own (`readNodesLine`), and the accepted lines determine what the
scan has built (`Scanned`): the dictionary of masters by address, the ranges of every
master, and who holds which replica.

A replica whose master has not been seen is parked: the first of them is filed under the
name of the master, and the others are in its list until the master comes.
-/
import HiredisCluster.Lib.Creation
import HiredisCluster.Releasing
import HiredisCluster.Routing

open Creation Program

variable {ω : Type}

/-! ## A line on its own -/

/-- A line of CLUSTER NODES: refused, perhaps after a node was made for it; stepped over; or a
node to be made, for a master with its slot fields and for a replica with the name of its
master. -/
inductive NodesLine where
  | bad (c : Complaint) (node : Option Node)
  | skipped
  | master (node : Node) (fields : List Bytes)
  | slave (node : Node) (masterName : Bytes)

/-- How a line is read. -/
def readNodesLine (tcpHost : Bytes) (addSlave : Bool) (line : Bytes) : NodesLine :=
  let part := sdssplitlen line 32
  let role := roleField (part.getD 2 [])
  if part.length < 8 then .bad (.other, "split cluster nodes error") none
  else if (ascii ":0").isPrefixOf (part.getD 1 []) then .skipped
  else if (ascii "master").isPrefixOf role then
    match nodeOfFields tcpHost part .master with
    | .error c => .bad c (some (unaddressed part .master))
    | .ok node => .master node (part.drop 8)
  else if addSlave ∧ (ascii "slave").isPrefixOf role then
    match nodeOfFields tcpHost part .slave with
    | .error c => .bad c (some (unaddressed part .slave))
    | .ok node => .slave node (part.getD 3 [])
  else .skipped

/-- The range of a slot field that is accepted. -/
def slotField (field : Bytes) : Option SlotRange :=
  let b := slotBounds (sdssplitlen field 45)
  if b.1 < 0 ∨ b.2 < 0 ∨ b.2 < b.1 ∨ redisClusterSlots ≤ b.2.toNat then none
  else some ⟨b.1.toNat, b.2.toNat⟩

/-- The ranges of a master line. -/
def slotFields (fields : List Bytes) : List SlotRange := fields.filterMap slotField

/-- The name a master line files its node under. -/
def Node.label (node : Node) : Bytes := node.name.getD []

/-- A node as `node_get_with_nodes` makes it. -/
structure Drawn (r : Role) (node : Node) : Prop where
  role : node.role = r
  con : node.con = none
  acon : node.acon = none
  slaves : node.slaves = none
  slots : r = .master → node.slots = some []

theorem nodeOfFields_drawn {tcpHost : Bytes} {part : List Bytes} {role : Role} {node : Node}
    (h : nodeOfFields tcpHost part role = .ok node) :
    Drawn role node ∧ node.label = part.getD 0 [] := by
  unfold nodeOfFields at h
  dsimp only at h
  split at h
  · cases h
  · split at h
    · cases h
    · split at h
      · obtain rfl := Except.ok.inj h
        exact ⟨⟨rfl, rfl, rfl, rfl, fun hr => if_pos hr⟩, rfl⟩
      · obtain rfl := Except.ok.inj h
        exact ⟨⟨rfl, rfl, rfl, rfl, fun hr => if_pos hr⟩, rfl⟩

theorem drawn_unaddressed (part : List Bytes) (role : Role) : Drawn role (unaddressed part role) :=
  ⟨rfl, rfl, rfl, rfl, fun hr => if_pos hr⟩

/-- What a line that is read promises about its node. -/
def NodesLine.Sane (addSlave : Bool) : NodesLine → Prop
  | .bad _ (some node) => ∃ role, Drawn role node
  | .master node _ => Drawn .master node
  | .slave node _ => Drawn .slave node ∧ addSlave = true
  | _ => True

theorem readNodesLine_sane (tcpHost : Bytes) (addSlave : Bool) (line : Bytes) :
    (readNodesLine tcpHost addSlave line).Sane addSlave := by
  unfold readNodesLine
  dsimp only
  split
  · trivial
  · split
    · trivial
    · split
      · split
        · exact ⟨.master, drawn_unaddressed _ _⟩
        · exact (nodeOfFields_drawn ‹_›).1
      · split
        · rename_i hslave
          split
          · exact ⟨.slave, drawn_unaddressed _ _⟩
          · exact ⟨(nodeOfFields_drawn ‹_›).1, hslave.1⟩
        · trivial

/-! ## A line in the scan -/

/-- A master line: the node is made, filed, mapped by name and given its ranges. -/
def acceptMaster (scan : NodesScan) (node : Node) (fields : List Bytes) :
    Prog ω (NodesScan × Option Complaint) := do
  let master ← newNode node
  match scan.nodes.add node.addr master with
  | none => do
    freeRedisClusterNode master
    pure (scan, some (.other, "The address already exists in the nodes"))
  | some nodes => do
    let w ← get
    if w.cc.addSlave then do
      match ← mapWithName { scan with nodes } master node.label with
      | (scan', some msg) => pure (scan', some msg)
      | (scan', none) => do
        let k ← parseSlotFields master fields
        pure ({ scan' with slotRangesFound := scan'.slotRangesFound + k }, none)
    else do
      let k ← parseSlotFields master fields
      pure ({ scan with nodes, slotRangesFound := scan.slotRangesFound + k }, none)

/-- A replica line: the node is made and mapped by the name of its master. -/
def acceptSlave (scan : NodesScan) (node : Node) (masterName : Bytes) :
    Prog ω (NodesScan × Option Complaint) := do
  let slave ← newNode node
  mapWithName scan slave masterName

/-- A line that has been read goes into the scan. -/
def acceptLine (scan : NodesScan) : NodesLine → Prog ω (NodesScan × Option Complaint)
  | .bad c none => pure (scan, some c)
  | .bad c (some node) => do
    let n ← newNode node
    freeRedisClusterNode n
    pure (scan, some c)
  | .skipped => pure (scan, none)
  | .master node fields => acceptMaster scan node fields
  | .slave node masterName => acceptSlave scan node masterName

/-- A line is read, then accepted. -/
theorem parseNodesLine_eq (tcpHost : Bytes) (scan : NodesScan) (line : Bytes) (w : World ω) :
    parseNodesLine tcpHost scan line w =
      acceptLine scan (readNodesLine tcpHost w.cc.addSlave line) w := by
  show (if _ then _ else if _ then _ else if _ then _ else if _ then _ else _ :
    Prog ω (NodesScan × Option Complaint)) w = _
  unfold readNodesLine
  dsimp only
  split
  · rfl
  · split
    · rfl
    · split
      · unfold parseMasterLine nodeGetWithNodes
        cases hnode : nodeOfFields tcpHost (sdssplitlen line 32) .master with
        | error c => rfl
        | ok node =>
          have hlabel := (nodeOfFields_drawn hnode).2
          dsimp only [acceptLine]
          unfold acceptMaster
          exact hlabel ▸ rfl
      · split
        · unfold parseSlaveLine nodeGetWithNodes
          cases nodeOfFields tcpHost (sdssplitlen line 32) .slave with
          | error c => rfl
          | ok node => rfl
        · rfl

/-! ## The slot fields of a master -/

/-- A node object is overwritten. -/
def World.place (w : World ω) (n : NodeId) (node : Node) : World ω :=
  { w with heap := Function.update w.heap n node }

@[simp] theorem World.place_heap_self (w : World ω) (n : NodeId) (node : Node) :
    (w.place n node).heap n = node :=
  Function.update_self _ _ _

theorem World.place_heap_of_ne (w : World ω) {n m : NodeId} (h : m ≠ n) (node : Node) :
    (w.place n node).heap m = w.heap m :=
  Function.update_of_ne h _ _

@[simp] theorem World.place_place (w : World ω) (n : NodeId) (node node' : Node) :
    (w.place n node).place n node' = w.place n node' := by
  rw [place, place, place, Function.update_idem]

theorem World.place_self (w : World ω) (n : NodeId) : w.place n (w.heap n) = w := by
  rw [place, Function.update_eq_self]

@[simp] theorem wp_modifyNode (n : NodeId) (f : Node → Node) (Q : Unit → World ω → Prop)
    (w : World ω) : wp (modifyNode n f) Q w = Q () (w.place n (f (w.heap n))) := rfl

theorem slotField_of_openSlot {field : Bytes} {o : OpenSlot}
    (h : openSlot (sdssplitlen field 45) = some o) : slotField field = none := by
  have hbounds : slotBounds (sdssplitlen field 45) = (-1, -1) := by
    unfold openSlot at h
    split at h
    · rename_i htok
      rw [htok]
      rfl
    · cases h
  unfold slotField
  rw [hbounds]
  rfl

/-- An open slot goes to `migrating` or `importing`. -/
theorem addOpenSlot_place (master : NodeId) (o : OpenSlot) (w : World ω) :
    wp (addOpenSlot master o) (fun _ w' => ∃ mig imp, w' = w.place master
      { w.heap master with migrating := mig, importing := imp }) w := by
  unfold addOpenSlot
  rw [wp_modifyNode]
  split
  · exact ⟨_, _, rfl⟩
  · exact ⟨_, _, rfl⟩

/-- The slot fields give a master its ranges, and whatever open slots are remembered. -/
theorem parseSlotFields_fills (master : NodeId) (fields : List Bytes) :
    ∀ {w : World ω} {rs : List SlotRange}, (w.heap master).slots = some rs →
      wp (parseSlotFields master fields) (fun k w' => k = (slotFields fields).length ∧
        ∃ mig imp, w' = w.place master { w.heap master with
          slots := some (rs ++ slotFields fields), migrating := mig, importing := imp }) w := by
  induction fields with
  | nil =>
    intro w rs hrs
    refine ⟨rfl, (w.heap master).migrating, (w.heap master).importing, ?_⟩
    have hsame : ({ w.heap master with slots := some (rs ++ slotFields []) } : Node) =
        w.heap master := by
      show ({ w.heap master with slots := some (rs ++ []) } : Node) = w.heap master
      rw [List.append_nil, ← hrs]
    rw [hsame]
    exact (w.place_self master).symm
  | cons field rest ih =>
    intro w rs hrs
    unfold parseSlotFields
    rw [wp_bind, wp_get]
    dsimp only
    split
    · rename_i o ho
      have hskip : slotFields (field :: rest) = slotFields rest := by
        split at ho
        · exact List.filterMap_cons_none (slotField_of_openSlot ho)
        · cases ho
      rw [wp_bind, hskip]
      refine wp_mono (addOpenSlot_place master o w) fun _ w₁ h₁ => ?_
      obtain ⟨mig₀, imp₀, rfl⟩ := h₁
      have hrs₁ : ((w.place master { w.heap master with
          migrating := mig₀, importing := imp₀ }).heap master).slots = some rs := by
        rw [World.place_heap_self]
        exact hrs
      refine wp_mono (ih hrs₁) fun k w' h => ?_
      obtain ⟨hk, mig, imp, rfl⟩ := h
      refine ⟨hk, mig, imp, ?_⟩
      rw [World.place_place, World.place_heap_self]
    · split
      · rename_i hout
        have hskip : slotFields (field :: rest) = slotFields rest :=
          List.filterMap_cons_none (if_pos hout)
        rw [hskip]
        exact ih hrs
      · rename_i hin
        have htake : slotFields (field :: rest) =
            ⟨(slotBounds (sdssplitlen field 45)).1.toNat,
              (slotBounds (sdssplitlen field 45)).2.toNat⟩ :: slotFields rest :=
          List.filterMap_cons_some (if_neg hin)
        rw [wp_bind, htake, addSlotRange, wp_modifyNode, wp_bind, hrs]
        refine wp_mono (ih (by rw [World.place_heap_self])) fun k w' h => ?_
        obtain ⟨rfl, mig, imp, rfl⟩ := h
        refine ⟨rfl, mig, imp, ?_⟩
        rw [World.place_place, World.place_heap_self, List.append_assoc]
        rfl

/-! ## What has been accepted -/

/-- The line makes a node, as the scan relies on it. -/
def NodesLine.Accepted (addSlave : Bool) : NodesLine → Prop
  | .master node _ => Drawn .master node
  | .slave node _ => Drawn .slave node ∧ addSlave = true
  | _ => False

/-- A replica line that asks for the master named `k`. -/
def NodesLine.follows (k : Bytes) : NodesLine → Bool
  | .slave _ masterName => masterName = k
  | _ => false

/-- The number of ranges of a line. -/
def NodesLine.ranges : NodesLine → ℕ
  | .master _ fields => (slotFields fields).length
  | _ => 0

/-- The nodes of the replica lines that ask for the master named `k`. -/
def replicasOf (lo : ℕ) (made : List NodesLine) (k : Bytes) : List NodeId :=
  ((made.zipIdx lo).filter fun e => e.1.follows k).map Prod.snd

section Made

variable {lo : ℕ} {made : List NodesLine}

theorem replicasOf_concat (x : NodesLine) (k : Bytes) :
    replicasOf lo (made ++ [x]) k =
      replicasOf lo made k ++ if x.follows k then [lo + made.length] else [] := by
  unfold replicasOf
  rw [List.zipIdx_append, List.filter_append, List.map_append, Nat.add_comm]
  congr 1
  rw [List.zipIdx_singleton, List.filter_cons]
  split <;> rfl

theorem mem_replicasOf {k : Bytes} {r : NodeId} :
    r ∈ replicasOf lo made k ↔ ∃ node, MadeFor lo made r (.slave node k) := by
  unfold replicasOf MadeFor
  rw [List.mem_map]
  constructor
  · rintro ⟨⟨l, i⟩, he, rfl⟩
    obtain ⟨hmem, hf⟩ := List.mem_filter.mp he
    obtain ⟨hle, hget⟩ := mem_zipIdx_iff_madeFor.mp hmem
    cases l with
    | slave node k' =>
      have hk : k' = k := of_decide_eq_true hf
      subst hk
      exact ⟨node, hle, hget⟩
    | bad c node => cases hf
    | skipped => cases hf
    | master node fields => cases hf
  · rintro ⟨node, hle, hget⟩
    refine ⟨(.slave node k, r), List.mem_filter.mpr
      ⟨mem_zipIdx_iff_madeFor.mpr ⟨hle, hget⟩, ?_⟩, rfl⟩
    exact decide_eq_true rfl

theorem nodup_replicasOf (k : Bytes) : (replicasOf lo made k).Nodup := by
  unfold replicasOf
  refine List.Nodup.sublist (List.filter_sublist.map Prod.snd) ?_
  rw [List.zipIdx_map_snd]
  exact List.nodup_range'

end Made

/-! ## The scan -/

/-- The node object of a master line whose slot fields have been read. -/
def Filled (node : Node) (fields : List Bytes) (stored : Node) : Prop :=
  ∃ kids mig imp, stored = { node with
    slots := some (slotFields fields), slaves := kids, migrating := mig, importing := imp }

/-- The node object of a replica line. -/
def Parked (node stored : Node) : Prop := ∃ kids, stored = { node with slaves := kids }

/-- **What a scan has built** when it started in `w₀` and accepted the lines `made`. -/
structure Scanned (w₀ w : World ω) (made : List NodesLine) (scan : NodesScan) : Prop where
  world : w = { w₀ with heap := w.heap, nextNode := w₀.nextNode + made.length }
  old : ∀ n < w₀.nextNode, w.heap n = w₀.heap n
  accepted : ∀ l ∈ made, l.Accepted w₀.cc.addSlave
  filed : ∀ a n, scan.nodes.find a = some n ↔
    ∃ node fields, MadeFor w₀.nextNode made n (.master node fields) ∧ node.addr = a
  master : ∀ {n node fields}, MadeFor w₀.nextNode made n (.master node fields) →
    Filled node fields (w.heap n) ∧
      (w.slavesOf n).Perm (replicasOf w₀.nextNode made node.label) ∧
      (w₀.cc.addSlave = true → scan.nodesName.find node.label = some n)
  slave : ∀ {n node k}, MadeFor w₀.nextNode made n (.slave node k) →
    Parked node (w.heap n) ∧ (scan.nodesName.find k = some n ∨ w.slavesOf n = [])
  /-- A name leads to its master, or else to the first of the replicas that wait for it,
  which holds the others. -/
  named : ∀ {k h}, scan.nodesName.find k = some h →
    (∃ node fields, MadeFor w₀.nextNode made h (.master node fields) ∧ node.label = k) ∨
      (∃ node, MadeFor w₀.nextNode made h (.slave node k)) ∧
      (∀ n node fields, MadeFor w₀.nextNode made n (.master node fields) → node.label ≠ k) ∧
      replicasOf w₀.nextNode made k = h :: w.slavesOf h
  unnamed : ∀ {k}, scan.nodesName.find k = none → replicasOf w₀.nextNode made k = []
  found : scan.slotRangesFound = (made.map NodesLine.ranges).sum

theorem scanned_empty (w : World ω) : Scanned w w [] {} where
  world := rfl
  old _ _ := rfl
  accepted := by simp
  filed a n := by simp [MadeFor, HashTable.find, HashTable.empty]
  master h := by simp [MadeFor] at h
  slave h := by simp [MadeFor] at h
  named h := by simp [HashTable.find, HashTable.empty] at h
  unnamed _ := rfl
  found := rfl

namespace Scanned

variable {w₀ w : World ω} {made : List NodesLine} {scan : NodesScan}

theorem nextNode (h : Scanned w₀ w made scan) : w.nextNode = w₀.nextNode + made.length := by
  rw [h.world]

theorem cc (h : Scanned w₀ w made scan) : w.cc = w₀.cc := by rw [h.world]

theorem trace (h : Scanned w₀ w made scan) : w.trace = w₀.trace := by rw [h.world]

theorem lt {n : NodeId} {l : NodesLine} (h : Scanned w₀ w made scan)
    (hn : MadeFor w₀.nextNode made n l) : n < w.nextNode := by
  rw [h.nextNode]
  exact hn.lt

/-- A master line makes a bare node with role and ranges. -/
theorem filled {n : NodeId} {node : Node} {fields : List Bytes} (h : Scanned w₀ w made scan)
    (hn : MadeFor w₀.nextNode made n (.master node fields)) :
    (w.heap n).role = .master ∧ w.Bare n := by
  obtain ⟨kids, mig, imp, heq⟩ := (h.master hn).1
  have hd : Drawn .master node := h.accepted _ hn.mem
  rw [World.Bare, heq]
  exact ⟨hd.role, hd.con, hd.acon⟩

theorem parked {n : NodeId} {node : Node} {k : Bytes} (h : Scanned w₀ w made scan)
    (hn : MadeFor w₀.nextNode made n (.slave node k)) :
    (w.heap n).role = .slave ∧ w.Bare n := by
  obtain ⟨kids, heq⟩ := (h.slave hn).1
  have hd : Drawn .slave node := (h.accepted _ hn.mem).1
  rw [World.Bare, heq]
  exact ⟨hd.role, hd.con, hd.acon⟩

/-- Without the flag there are no replicas. -/
theorem addSlave_of_slave {n : NodeId} {node : Node} {k : Bytes} (h : Scanned w₀ w made scan)
    (hn : MadeFor w₀.nextNode made n (.slave node k)) : w₀.cc.addSlave = true :=
  (h.accepted _ hn.mem).2

/-- Every node made is bare. -/
theorem bare {n : NodeId} {l : NodesLine} (h : Scanned w₀ w made scan)
    (hn : MadeFor w₀.nextNode made n l) : w.Bare n := by
  cases l with
  | bad c node => exact absurd (h.accepted _ hn.mem) id
  | skipped => exact absurd (h.accepted _ hn.mem) id
  | master node fields => exact (h.filled hn).2
  | slave node k => exact (h.parked hn).2

end Scanned

/-! ## Accepting a replica -/

/-- A node is created. -/
def World.creating (w : World ω) (node : Node) : World ω :=
  { w with heap := Function.update w.heap w.nextNode node, nextNode := w.nextNode + 1 }

theorem wp_newNode_creating (node : Node) (Q : NodeId → World ω → Prop) (w : World ω) :
    wp (newNode node) Q w = Q w.nextNode (w.creating node) := rfl

theorem World.creating_heap_self (w : World ω) (node : Node) :
    (w.creating node).heap w.nextNode = node :=
  Function.update_self _ _ _

theorem World.creating_heap_of_lt (w : World ω) (node : Node) {n : NodeId} (hn : n < w.nextNode) :
    (w.creating node).heap n = w.heap n :=
  Function.update_of_ne (Nat.ne_of_lt hn) _ _

/-- The object is the same up to its list of replicas. -/
def SameButSlaves (old new : Node) : Prop := ∃ kids, new = { old with slaves := kids }

theorem SameButSlaves.refl (node : Node) : SameButSlaves node node := ⟨node.slaves, rfl⟩

theorem Filled.of_same {node old new : Node} {fields : List Bytes} (h : Filled node fields old)
    (hs : SameButSlaves old new) : Filled node fields new := by
  obtain ⟨kids, mig, imp, rfl⟩ := h
  obtain ⟨kids', rfl⟩ := hs
  exact ⟨kids', mig, imp, rfl⟩

theorem Parked.of_same {node old new : Node} (h : Parked node old) (hs : SameButSlaves old new) :
    Parked node new := by
  obtain ⟨kids, rfl⟩ := h
  obtain ⟨kids', rfl⟩ := hs
  exact ⟨kids', rfl⟩

/-- A replica joins the list of the node filed under the name of its master, or is filed
there itself. -/
structure JoinsList (w : World ω) (names : NodeDict) (node : Node) (k : Bytes) (w' : World ω)
    (names' : NodeDict) : Prop where
  world : w' = { w with heap := w'.heap, nextNode := w.nextNode + 1 }
  other : ∀ n < w.nextNode, names.find k ≠ some n → w'.heap n = w.heap n
  head : ∀ n, names.find k = some n → SameButSlaves (w.heap n) (w'.heap n) ∧
    w'.slavesOf n = w.slavesOf n ++ [w.nextNode]
  new : w'.heap w.nextNode = node
  find : ∀ x, names'.find x = if x = k then some ((names.find k).getD w.nextNode) else names.find x

theorem acceptSlave_joined {w : World ω} {scan : NodesScan} {node : Node} {k : Bytes}
    (hrole : node.role = .slave) (hlt : ∀ h, scan.nodesName.find k = some h → h < w.nextNode) :
    wp (acceptSlave scan node k) (fun r w' => ∃ names', r = ({ scan with nodesName := names' }, none) ∧
      JoinsList w scan.nodesName node k w' names') w := by
  unfold acceptSlave mapWithName clusterMasterSlaveMappingWithName
  rw [wp_bind, wp_newNode_creating, wp_bind, wp_bind, wp_get]
  cases hfind : scan.nodesName.find k with
  | none =>
    dsimp only
    split
    · rename_i hadd
      have := (HashTable.add_isSome_iff _ k w.nextNode).mpr hfind
      rw [hadd] at this
      cases this
    · rename_i names' hadd
      refine ⟨names', rfl, rfl, fun n hn _ => w.creating_heap_of_lt node hn, fun n hn => ?_,
        w.creating_heap_self node, fun x => ?_⟩
      · rw [hfind] at hn
        cases hn
      · rw [HashTable.find_add hadd, hfind]
        rfl
  | some h =>
    have hh := hlt h hfind
    dsimp only
    rw [w.creating_heap_self, hrole]
    dsimp only
    rw [wp_bind, addSlave, wp_modifyNode, w.creating_heap_of_lt node hh]
    refine ⟨scan.nodesName, rfl, rfl, fun n hn hno => ?_, fun n hn => ?_, ?_, fun x => ?_⟩
    · have hnh : n ≠ h := fun heq => hno (heq ▸ hfind)
      show ((w.creating node).place h _).heap n = _
      rw [World.place_heap_of_ne _ hnh, w.creating_heap_of_lt node hn]
    · obtain rfl : h = n := Option.some.inj (hfind.symm.trans hn)
      constructor
      · show SameButSlaves _ (((w.creating node).place h _).heap h)
        rw [World.place_heap_self]
        exact ⟨_, rfl⟩
      · show ((w.creating node).place h _).slavesOf h = _
        rw [World.slavesOf, World.place_heap_self]
        rfl
    · show ((w.creating node).place h _).heap w.nextNode = node
      rw [World.place_heap_of_ne _ (Nat.ne_of_gt hh), w.creating_heap_self]
    · split
      · rename_i hx
        rw [hx, hfind]
        rfl
      · rfl

theorem JoinsList.same {w w' : World ω} {names names' : NodeDict} {node : Node} {k : Bytes}
    (h : JoinsList w names node k w' names') {n : NodeId} (hn : n < w.nextNode) :
    SameButSlaves (w.heap n) (w'.heap n) := by
  by_cases hk : names.find k = some n
  · exact (h.head n hk).1
  · rw [h.other n hn hk]
    exact SameButSlaves.refl _

theorem JoinsList.slavesOf {w w' : World ω} {names names' : NodeDict} {node : Node} {k : Bytes}
    (h : JoinsList w names node k w' names') {n : NodeId} (hn : n < w.nextNode)
    (hk : names.find k ≠ some n) : w'.slavesOf n = w.slavesOf n := by
  rw [World.slavesOf, h.other n hn hk]
  rfl

/-- The node a name leads to was made for a line. -/
theorem Scanned.head_made {w₀ w : World ω} {made : List NodesLine} {scan : NodesScan} {k : Bytes}
    {n : NodeId} (h : Scanned w₀ w made scan) (hk : scan.nodesName.find k = some n) :
    ∃ l, MadeFor w₀.nextNode made n l := by
  rcases h.named hk with ⟨node, fields, hn, -⟩ | ⟨⟨node, hn⟩, -, -⟩
  · exact ⟨_, hn⟩
  · exact ⟨_, hn⟩

/-- A master line is found under one name only, and a replica under the one it asks for. -/
theorem Scanned.eq_label {w₀ w : World ω} {made : List NodesLine} {scan : NodesScan} {k : Bytes}
    {n : NodeId} {node : Node} {fields : List Bytes} (h : Scanned w₀ w made scan)
    (hn : MadeFor w₀.nextNode made n (.master node fields)) (hk : scan.nodesName.find k = some n) :
    node.label = k := by
  rcases h.named hk with ⟨node', fields', hn', hlabel⟩ | ⟨⟨node', hn'⟩, -, -⟩
  · obtain ⟨rfl, -⟩ := NodesLine.master.inj (hn.unique hn')
    exact hlabel
  · cases hn.unique hn'

theorem Scanned.eq_asked {w₀ w : World ω} {made : List NodesLine} {scan : NodesScan} {k k' : Bytes}
    {n : NodeId} {node : Node} (h : Scanned w₀ w made scan)
    (hn : MadeFor w₀.nextNode made n (.slave node k')) (hk : scan.nodesName.find k = some n) :
    k' = k := by
  rcases h.named hk with ⟨node', fields', hn', hlabel⟩ | ⟨⟨node', hn'⟩, -, -⟩
  · cases hn.unique hn'
  · exact (NodesLine.slave.inj (hn.unique hn')).2

theorem Scanned.joined {w₀ w w' : World ω} {made : List NodesLine} {scan : NodesScan} {node : Node}
    {k : Bytes} {names' : NodeDict} (h : Scanned w₀ w made scan)
    (hl : (NodesLine.slave node k).Accepted w₀.cc.addSlave)
    (hj : JoinsList w scan.nodesName node k w' names') :
    Scanned w₀ w' (made ++ [.slave node k]) { scan with nodesName := names' } := by
  have hN := h.nextNode
  have hmaster : ∀ {n node' fields},
      MadeFor w₀.nextNode (made ++ [.slave node k]) n (.master node' fields) ↔
        MadeFor w₀.nextNode made n (.master node' fields) := by
    intro n node' fields
    rw [madeFor_concat]
    exact or_iff_left (by rintro ⟨-, hno⟩; cases hno)
  have hother : ∀ {x}, k ≠ x →
      replicasOf w₀.nextNode (made ++ [.slave node k]) x = replicasOf w₀.nextNode made x := by
    intro x hx
    rw [replicasOf_concat, NodesLine.follows, decide_eq_false hx]
    exact List.append_nil _
  have hsame : replicasOf w₀.nextNode (made ++ [.slave node k]) k =
      replicasOf w₀.nextNode made k ++ [w.nextNode] := by
    rw [replicasOf_concat, NodesLine.follows, decide_eq_true rfl, hN]
    rfl
  have hfresh : w'.slavesOf w.nextNode = [] := by
    rw [World.slavesOf, hj.new, hl.1.slaves]
    rfl
  exact
  { world := by rw [hj.world, h.world]; simp [Nat.add_assoc]
    old := by
      intro n hn
      rw [hj.other n (by omega), h.old n hn]
      intro hk
      obtain ⟨l, hmade⟩ := h.head_made hk
      have := hmade.1
      omega
    accepted := by
      intro l hmem
      rcases List.mem_append.mp hmem with hmem | hmem
      · exact h.accepted l hmem
      · obtain rfl := List.mem_singleton.mp hmem
        exact hl
    filed := fun a n => by simp only [hmaster]; exact h.filed a n
    master := by
      intro n node' fields hn
      have hn' := hmaster.mp hn
      obtain ⟨hf, hperm, hname⟩ := h.master hn'
      have hlt := h.lt hn'
      have hfind := hname hl.2
      refine ⟨hf.of_same (hj.same hlt), ?_, fun _ => ?_⟩
      · by_cases hx : k = node'.label
        · rw [← hx] at hperm hfind ⊢
          rw [(hj.head n hfind).2, hsame]
          exact hperm.append_right _
        · rwa [hother hx, hj.slavesOf hlt fun hk => hx (h.eq_label hn' hk).symm]
      · show names'.find node'.label = some n
        rw [hj.find]
        split
        · rename_i hx
          rw [← hx, hfind]
          rfl
        · exact hfind
    slave := by
      intro n node' k' hn
      show _ ∧ (names'.find k' = some n ∨ _)
      rcases madeFor_concat.mp hn with hmade | ⟨hne, hline⟩
      · have hlt := h.lt hmade
        obtain ⟨hp, hor⟩ := h.slave hmade
        refine ⟨hp.of_same (hj.same hlt), ?_⟩
        rw [hj.find]
        by_cases hx : k' = k
        · rw [if_pos hx]
          by_cases hfind : scan.nodesName.find k = some n
          · exact Or.inl (by rw [hfind]; rfl)
          · rw [hx] at hor
            rw [hj.slavesOf hlt hfind]
            exact Or.inr (hor.resolve_left hfind)
        · rwa [if_neg hx, hj.slavesOf hlt fun hk => hx (h.eq_asked hmade hk)]
      · obtain ⟨rfl, rfl⟩ := NodesLine.slave.inj hline
        rw [← hN] at hne
        subst hne
        exact ⟨⟨node'.slaves, hj.new⟩, Or.inr hfresh⟩
    named := by
      intro x m hx
      have hx' : names'.find x = some m := hx
      rw [hj.find] at hx'
      by_cases hxk : x = k
      · subst hxk
        rw [if_pos rfl] at hx'
        cases hfind : scan.nodesName.find x with
        | none =>
          -- the replica waits for its master
          rw [hfind] at hx'
          obtain rfl : w.nextNode = m := Option.some.inj hx'
          refine Or.inr ⟨⟨node, madeFor_concat.mpr (Or.inr ⟨hN, rfl⟩)⟩, fun n node' fields hn => ?_, ?_⟩
          · intro hlabel
            have := (h.master (hmaster.mp hn)).2.2 hl.2
            rw [hlabel, hfind] at this
            cases this
          · rw [hsame, h.unnamed hfind, hfresh]
            rfl
        | some g =>
          rw [hfind] at hx'
          obtain rfl : g = m := Option.some.inj hx'
          rcases h.named hfind with ⟨node', fields, hn, hlabel⟩ | ⟨⟨node', hn⟩, hno, hlist⟩
          · exact Or.inl ⟨node', fields, hmaster.mpr hn, hlabel⟩
          · refine Or.inr ⟨⟨node', madeFor_concat.mpr (Or.inl hn)⟩,
              fun n node' fields hn => hno n node' fields (hmaster.mp hn), ?_⟩
            rw [hsame, hlist, (hj.head g hfind).2]
            rfl
      · rw [if_neg hxk] at hx'
        rcases h.named hx' with ⟨node', fields, hn, hlabel⟩ | ⟨⟨node', hn⟩, hno, hlist⟩
        · exact Or.inl ⟨node', fields, hmaster.mpr hn, hlabel⟩
        · refine Or.inr ⟨⟨node', madeFor_concat.mpr (Or.inl hn)⟩,
            fun n node' fields hn => hno n node' fields (hmaster.mp hn), ?_⟩
          rw [hother (Ne.symm hxk), hlist,
            hj.slavesOf (h.lt hn) fun hk => hxk (h.eq_asked hn hk)]
    unnamed := by
      intro x hx
      have hx' : names'.find x = none := hx
      rw [hj.find] at hx'
      split at hx'
      · cases hx'
      · rw [hother (Ne.symm ‹_›)]
        exact h.unnamed hx'
    found := by
      rw [List.map_append, List.sum_append, ← h.found]
      rfl }

/-! ## Accepting a master -/

/-- The replica that waits for the master named `k`. -/
def awaiting (addSlave : Bool) (names : NodeDict) (k : Bytes) : Option NodeId :=
  if addSlave then names.find k else none

/-- A master takes over the replicas that waited for it. -/
structure Adopted (w : World ω) (names : NodeDict) (k : Bytes) (w' : World ω)
    (names' : NodeDict) : Prop where
  world : w' = { w with heap := w'.heap, nextNode := w.nextNode + 1 }
  other : ∀ n < w.nextNode, awaiting w.cc.addSlave names k ≠ some n → w'.heap n = w.heap n
  head : ∀ n, awaiting w.cc.addSlave names k = some n →
    SameButSlaves (w.heap n) (w'.heap n) ∧ w'.slavesOf n = []
  new : w'.slavesOf w.nextNode = match awaiting w.cc.addSlave names k with
    | none => []
    | some h => h :: (w.slavesOf h).reverse
  find : ∀ x, names'.find x =
    if w.cc.addSlave = true ∧ x = k then some w.nextNode else names.find x

/-- Giving the new master its ranges changes none of this. -/
theorem Adopted.place {w w' : World ω} {names names' : NodeDict} {k : Bytes}
    (h : Adopted w names k w' names') {stored : Node}
    (hs : stored.slaves = (w'.heap w.nextNode).slaves)
    (hlt : ∀ n, awaiting w.cc.addSlave names k = some n → n < w.nextNode) :
    Adopted w names k (w'.place w.nextNode stored) names' where
  world := by
    show w'.place w.nextNode stored = { w with
      heap := (w'.place w.nextNode stored).heap, nextNode := w.nextNode + 1 }
    conv_lhs => rw [World.place, h.world]
    conv_rhs => rw [World.place, h.world]
  other n hn hno := by rw [World.place_heap_of_ne _ (Nat.ne_of_lt hn), h.other n hn hno]
  head n hn := by
    rw [World.slavesOf, World.place_heap_of_ne _ (Nat.ne_of_lt (hlt n hn))]
    exact h.head n hn
  new := by
    rw [← h.new, World.slavesOf, World.place_heap_self, hs]
    rfl
  find := h.find

theorem adopted_creating {w : World ω} {names : NodeDict} {k : Bytes} {node : Node}
    (hs : node.slaves = none) (hhead : awaiting w.cc.addSlave names k = none) {names' : NodeDict}
    (hfind : ∀ x, names'.find x = if w.cc.addSlave = true ∧ x = k then some w.nextNode
      else names.find x) : Adopted w names k (w.creating node) names' where
  world := rfl
  other n hn _ := w.creating_heap_of_lt node hn
  head n hn := by rw [hhead] at hn; cases hn
  new := by
    rw [hhead, World.slavesOf, w.creating_heap_self, hs]
    rfl
  find := hfind

/-- A master is mapped by its name, unless another master has it. -/
theorem mapWithName_adopted {w : World ω} (scan : NodesScan) {node : Node}
    (hd : Drawn .master node) (hflag : w.cc.addSlave = true)
    (hhead : ∀ h, scan.nodesName.find node.label = some h →
      h < w.nextNode ∧ (w.heap h).role = .slave) :
    wp (mapWithName scan w.nextNode node.label) (fun r w' => ∃ names',
      r = ({ scan with nodesName := names' }, none) ∧
      Adopted w scan.nodesName node.label w' names' ∧ Parked node (w'.heap w.nextNode))
      (w.creating node) := by
  unfold mapWithName clusterMasterSlaveMappingWithName
  rw [wp_bind, wp_bind, wp_get]
  cases hfind : scan.nodesName.find node.label with
  | none =>
    dsimp only
    split
    · rename_i hadd
      have := (HashTable.add_isSome_iff _ node.label w.nextNode).mpr hfind
      rw [hadd] at this
      cases this
    · rename_i names' hadd
      refine ⟨names', rfl, adopted_creating hd.slaves (by rw [awaiting, if_pos hflag, hfind])
        fun x => ?_, ⟨node.slaves, w.creating_heap_self node⟩⟩
      rw [HashTable.find_add hadd]
      simp [hflag]
  | some h =>
    obtain ⟨hlt, hrole⟩ := hhead h hfind
    have hne : w.nextNode ≠ h := Nat.ne_of_gt hlt
    have hawait : awaiting w.cc.addSlave scan.nodesName node.label = some h := by
      rw [awaiting, if_pos hflag, hfind]
    dsimp only
    rw [w.creating_heap_self, w.creating_heap_of_lt node hlt, hd.role, hrole]
    dsimp only
    rw [wp_bind, wp_modifyNode, wp_bind, wp_modifyNode, w.creating_heap_of_lt node hlt,
      World.place_heap_of_ne _ hne, w.creating_heap_self, hd.slaves]
    refine ⟨_, rfl, ⟨rfl, fun n hn hno => ?_, fun n hn => ?_, ?_, fun x => ?_⟩, ?_⟩
    · have hnh : n ≠ h := fun heq => hno (heq ▸ hawait)
      show (((w.creating node).place h _).place w.nextNode _).heap n = _
      rw [World.place_heap_of_ne _ (Nat.ne_of_lt hn), World.place_heap_of_ne _ hnh,
        w.creating_heap_of_lt node hn]
    · obtain rfl : h = n := Option.some.inj (hawait.symm.trans hn)
      have hplace : (((w.creating node).place h { w.heap h with slaves := none }).place w.nextNode
          { node with slaves := some (h :: (((w.heap h).slaves.getD []).reverse ++ [])) }).heap h =
          { w.heap h with slaves := none } := by
        rw [World.place_heap_of_ne _ (Ne.symm hne), World.place_heap_self]
      refine ⟨⟨none, hplace⟩, ?_⟩
      exact congrArg (fun o : Node => o.slaves.getD []) hplace
    · rw [hawait]
      show (((w.creating node).place h _).place w.nextNode _).slavesOf w.nextNode = _
      rw [World.slavesOf, World.place_heap_self]
      exact congrArg (h :: ·) (List.append_nil _)
    · rw [HashTable.find_setVal _ hfind]
      simp [hflag]
    · show Parked node ((((w.creating node).place h _).place w.nextNode _).heap w.nextNode)
      rw [World.place_heap_self]
      exact ⟨_, rfl⟩

/-- A master line that is accepted. -/
theorem acceptMaster_adopted {w : World ω} {scan : NodesScan} {node : Node} {fields : List Bytes}
    (hd : Drawn .master node) (hfree : scan.nodes.find node.addr = none)
    (hhead : ∀ h, awaiting w.cc.addSlave scan.nodesName node.label = some h →
      h < w.nextNode ∧ (w.heap h).role = .slave) :
    wp (acceptMaster scan node fields) (fun r w' => ∃ nodes' names',
      scan.nodes.add node.addr w.nextNode = some nodes' ∧
      r = (⟨nodes', names', scan.slotRangesFound + (slotFields fields).length⟩, none) ∧
      Adopted w scan.nodesName node.label w' names' ∧ Filled node fields (w'.heap w.nextNode)) w := by
  unfold acceptMaster
  rw [wp_bind, wp_newNode_creating]
  split
  · rename_i hadd
    have := (HashTable.add_isSome_iff _ node.addr w.nextNode).mpr hfree
    rw [hadd] at this
    cases this
  · rename_i nodes' hadd
    -- reading the slot fields, from a state in which the master has been mapped
    have hread : ∀ (v : World ω) (names' : NodeDict), Parked node (v.heap w.nextNode) →
        Adopted w scan.nodesName node.label v names' →
        wp (parseSlotFields w.nextNode fields) (fun k w' => k = (slotFields fields).length ∧
          Adopted w scan.nodesName node.label w' names' ∧
          Filled node fields (w'.heap w.nextNode)) v := by
      intro v names' hp ha
      obtain ⟨kids, hv⟩ := hp
      have hslots : (v.heap w.nextNode).slots = some [] := by rw [hv]; exact hd.slots rfl
      refine wp_mono (parseSlotFields_fills w.nextNode fields hslots) fun k w' h => ?_
      obtain ⟨hk, mig, imp, rfl⟩ := h
      refine ⟨hk, ha.place rfl fun n hn => (hhead n hn).1, ?_⟩
      rw [World.place_heap_self, hv]
      exact ⟨kids, mig, imp, rfl⟩
    rw [wp_bind, wp_get]
    by_cases hflag : w.cc.addSlave = true
    · rw [if_pos (show (w.creating node).cc.addSlave = true from hflag), wp_bind]
      refine wp_mono (mapWithName_adopted { scan with nodes := nodes' } hd hflag
        fun h hh => hhead h (by rw [awaiting, if_pos hflag]; exact hh)) fun r v hr => ?_
      obtain ⟨names', rfl, ha, hp⟩ := hr
      dsimp only
      rw [wp_bind]
      refine wp_mono (hread v names' hp ha) fun k w' h => ?_
      obtain ⟨rfl, ha', hf⟩ := h
      exact ⟨nodes', names', hadd, rfl, ha', hf⟩
    · rw [if_neg (show ¬ (w.creating node).cc.addSlave = true from hflag), wp_bind]
      have hawait : awaiting w.cc.addSlave scan.nodesName node.label = none := by
        rw [awaiting, if_neg hflag]
      refine wp_mono (hread (w.creating node) scan.nodesName ⟨node.slaves, w.creating_heap_self node⟩
        (adopted_creating hd.slaves hawait fun x => ?_)) fun k w' h => ?_
      · rw [if_neg fun hno => hflag hno.1]
      · obtain ⟨rfl, ha', hf⟩ := h
        exact ⟨nodes', scan.nodesName, hadd, rfl, ha', hf⟩

/-- No accepted master has the name `k`. -/
def Unclaimed (made : List NodesLine) (k : Bytes) : Prop :=
  ∀ node fields, NodesLine.master node fields ∈ made → node.label ≠ k

theorem Scanned.adopted {w₀ w w' : World ω} {made : List NodesLine} {scan : NodesScan} {node : Node}
    {fields : List Bytes} {nodes' names' : NodeDict} (h : Scanned w₀ w made scan)
    (hl : Drawn .master node) (hadd : scan.nodes.add node.addr w.nextNode = some nodes')
    (hlabel : w₀.cc.addSlave = true → Unclaimed made node.label)
    (ha : Adopted w scan.nodesName node.label w' names')
    (hf : Filled node fields (w'.heap w.nextNode)) :
    Scanned w₀ w' (made ++ [.master node fields])
      ⟨nodes', names', scan.slotRangesFound + (slotFields fields).length⟩ := by
  have hN := h.nextNode
  have hcc : w.cc.addSlave = w₀.cc.addSlave := by rw [h.cc]
  have hslave : ∀ {n node' k},
      MadeFor w₀.nextNode (made ++ [.master node fields]) n (.slave node' k) ↔
        MadeFor w₀.nextNode made n (.slave node' k) := by
    intro n node' k
    rw [madeFor_concat]
    exact or_iff_left (by rintro ⟨-, hno⟩; cases hno)
  have hreps : ∀ x, replicasOf w₀.nextNode (made ++ [.master node fields]) x =
      replicasOf w₀.nextNode made x := by
    intro x
    rw [replicasOf_concat]
    exact List.append_nil _
  -- a node that waits for the master was made for a replica line
  have hwait : ∀ {n}, awaiting w.cc.addSlave scan.nodesName node.label = some n →
      scan.nodesName.find node.label = some n ∧
        (∃ node', MadeFor w₀.nextNode made n (.slave node' node.label)) ∧
        replicasOf w₀.nextNode made node.label = n :: w.slavesOf n := by
    intro n hn
    rw [hcc, awaiting] at hn
    split at hn
    · rename_i hflag
      rcases h.named hn with ⟨node', fields', hmade, hsame⟩ | ⟨hmade, -, hlist⟩
      · exact absurd hsame (hlabel hflag node' fields' hmade.mem)
      · exact ⟨hn, hmade, hlist⟩
    · cases hn
  have hsame : ∀ {n}, n < w.nextNode → SameButSlaves (w.heap n) (w'.heap n) := by
    intro n hn
    by_cases haw : awaiting w.cc.addSlave scan.nodesName node.label = some n
    · exact (ha.head n haw).1
    · rw [ha.other n hn haw]
      exact SameButSlaves.refl _
  have hkeep : ∀ {n}, n < w.nextNode → awaiting w.cc.addSlave scan.nodesName node.label ≠ some n →
      w'.slavesOf n = w.slavesOf n := by
    intro n hn haw
    rw [World.slavesOf, ha.other n hn haw]
    rfl
  exact
  { world := by rw [ha.world, h.world]; simp [Nat.add_assoc]
    old := by
      intro n hn
      rw [ha.other n (by omega), h.old n hn]
      intro haw
      obtain ⟨-, ⟨node', hmade⟩, -⟩ := hwait haw
      have := hmade.1
      omega
    accepted := by
      intro l hmem
      rcases List.mem_append.mp hmem with hmem | hmem
      · exact h.accepted l hmem
      · obtain rfl := List.mem_singleton.mp hmem
        exact hl
    filed := by
      intro a n
      show nodes'.find a = some n ↔ _
      have hfree : scan.nodes.find node.addr = none :=
        (HashTable.add_isSome_iff _ _ w.nextNode).mp (by rw [hadd]; rfl)
      rw [HashTable.find_add hadd]
      constructor
      · intro hfind
        split at hfind
        · rename_i ha
          obtain rfl := Option.some.inj hfind
          exact ⟨node, fields, madeFor_concat.mpr (Or.inr ⟨hN, rfl⟩), ha.symm⟩
        · obtain ⟨node', fields', hmade, haddr⟩ := (h.filed a n).mp hfind
          exact ⟨node', fields', madeFor_concat.mpr (Or.inl hmade), haddr⟩
      · rintro ⟨node', fields', hmade, haddr⟩
        rcases madeFor_concat.mp hmade with hmade | ⟨rfl, hline⟩
        · have hfind := (h.filed a n).mpr ⟨node', fields', hmade, haddr⟩
          rw [if_neg]
          · exact hfind
          · rintro rfl
            rw [hfree] at hfind
            cases hfind
        · obtain ⟨rfl, rfl⟩ := NodesLine.master.inj hline
          rw [if_pos haddr.symm, hN]
    master := by
      intro n node' fields' hn
      show _ ∧ _ ∧ (_ → names'.find node'.label = some n)
      rw [ha.find, hreps]
      rcases madeFor_concat.mp hn with hmade | ⟨rfl, hline⟩
      · obtain ⟨hf', hperm, hname⟩ := h.master hmade
        have hlt := h.lt hmade
        have haw : awaiting w.cc.addSlave scan.nodesName node.label ≠ some n := by
          intro haw
          obtain ⟨-, ⟨node'', hslave'⟩, -⟩ := hwait haw
          cases hmade.unique hslave'
        refine ⟨hf'.of_same (hsame hlt), by rwa [hkeep hlt haw], fun hflag => ?_⟩
        rw [if_neg]
        · exact hname hflag
        · exact fun hx => hlabel hflag node' fields' hmade.mem hx.2
      · obtain ⟨rfl, rfl⟩ := NodesLine.master.inj hline
        rw [← hN]
        refine ⟨hf, ?_, fun hflag => if_pos ⟨hcc.trans hflag, rfl⟩⟩
        rw [ha.new]
        cases haw : awaiting w.cc.addSlave scan.nodesName node'.label with
        | some g =>
          obtain ⟨-, -, hlist⟩ := hwait haw
          rw [hlist]
          exact (List.reverse_perm _).cons g
        | none =>
          have hempty : replicasOf w₀.nextNode made node'.label = [] := by
            rw [List.eq_nil_iff_forall_not_mem]
            intro r hr
            obtain ⟨node'', hmade⟩ := mem_replicasOf.mp hr
            rw [awaiting, if_pos (hcc.trans (h.addSlave_of_slave hmade))] at haw
            rw [h.unnamed haw] at hr
            cases hr
          rw [hempty]
    slave := by
      intro n node' k hn
      have hmade := hslave.mp hn
      have hlt := h.lt hmade
      obtain ⟨hp, hor⟩ := h.slave hmade
      refine ⟨hp.of_same (hsame hlt), ?_⟩
      show names'.find k = some n ∨ _
      by_cases haw : awaiting w.cc.addSlave scan.nodesName node.label = some n
      · exact Or.inr (ha.head n haw).2
      · rw [hkeep hlt haw, ha.find]
        split
        · rename_i hk
          rw [awaiting, if_pos hk.1, ← hk.2] at haw
          exact Or.inr (hor.resolve_left haw)
        · exact hor
    named := by
      intro x m hx
      have hx' : names'.find x = some m := hx
      rw [ha.find] at hx'
      rw [hreps]
      split at hx'
      · rename_i hlab
        obtain rfl := Option.some.inj hx'
        exact Or.inl ⟨node, fields, madeFor_concat.mpr (Or.inr ⟨hN, rfl⟩), hlab.2.symm⟩
      · rename_i hlab
        rcases h.named hx' with ⟨node', fields', hmade, hsame'⟩ | ⟨⟨node', hmade⟩, hno, hlist⟩
        · exact Or.inl ⟨node', fields', madeFor_concat.mpr (Or.inl hmade), hsame'⟩
        · have hflag := hcc.trans (h.addSlave_of_slave hmade)
          refine Or.inr ⟨⟨node', hslave.mpr hmade⟩, fun n node'' fields' hn => ?_, ?_⟩
          · rcases madeFor_concat.mp hn with hmade' | ⟨-, hline⟩
            · exact hno n node'' fields' hmade'
            · obtain ⟨rfl, -⟩ := NodesLine.master.inj hline
              exact fun heq => hlab ⟨hflag, heq.symm⟩
          · rw [hlist, hkeep (h.lt hmade)]
            exact fun haw => hlab ⟨hflag, h.eq_asked hmade (hwait haw).1⟩
    unnamed := by
      intro x hx
      have hx' : names'.find x = none := hx
      rw [ha.find] at hx'
      rw [hreps]
      split at hx'
      · cases hx'
      · exact h.unnamed hx'
    found := by
      rw [List.map_append, List.sum_append, ← h.found]
      rfl }

/-! ## Refused lines -/

/-- Why a scan stops: a line without the fields of a node, one whose node is refused, for its
address as it is read or because another master has it, or a master line whose name another
master has. -/
inductive Stop where
  | line (c : Complaint)
  | node (c : Complaint)
  | name

/-- The error that is reported. -/
def Stop.complaint : Stop → Complaint
  | .line c => c
  | .node c => c
  | .name => (.other, "two masters have the same name")

/-- The complaint about an address that another master has. -/
def addressExists : Complaint := (.other, "The address already exists in the nodes")

/-- A refused node is created and released at once. -/
def World.refusing (w : World ω) (node : Node) : World ω :=
  (w.creating node).releasing [w.nextNode]

theorem freeRedisClusterNode_creating {role : Role} {node : Node} (hd : Drawn role node)
    (w : World ω) :
    freeRedisClusterNode w.nextNode (w.creating node) = ((), w.refusing node) := by
  have hself := w.creating_heap_self node
  have hslaves : (w.creating node).slavesOf w.nextNode = [] := by
    rw [World.slavesOf, hself, hd.slaves]
    rfl
  have hbare : (w.creating node).Bare w.nextNode := by
    rw [World.Bare, hself]
    exact ⟨hd.con, hd.acon⟩
  rw [freeRedisClusterNode_bare hbare (by rw [hslaves]; simp), hslaves]
  rfl

theorem acceptLine_refused (scan : NodesScan) (c : Complaint) {role : Role} {node : Node}
    (hd : Drawn role node) (w : World ω) :
    acceptLine scan (.bad c (some node)) w = ((scan, some c), w.refusing node) := by
  show ((scan, some c), (freeRedisClusterNode w.nextNode (w.creating node)).2) = _
  rw [freeRedisClusterNode_creating hd]

theorem acceptMaster_address {w : World ω} {scan : NodesScan} {node : Node} {fields : List Bytes}
    (hd : Drawn .master node) (hused : scan.nodes.find node.addr ≠ none) :
    acceptMaster scan node fields w = ((scan, some addressExists), w.refusing node) := by
  have hadd : scan.nodes.add node.addr w.nextNode = none := by
    cases hadd : scan.nodes.add node.addr w.nextNode with
    | none => rfl
    | some d =>
      exact absurd ((HashTable.add_isSome_iff _ _ w.nextNode).mp (by rw [hadd]; rfl)) hused
  show (match scan.nodes.add node.addr w.nextNode with
    | none => _
    | some nodes => _ : Prog ω (NodesScan × Option Complaint)) (w.creating node) = _
  rw [hadd]
  show ((scan, some addressExists),
    (freeRedisClusterNode w.nextNode (w.creating node)).2) = _
  rw [freeRedisClusterNode_creating hd]

theorem acceptMaster_name {w : World ω} {scan : NodesScan} {node : Node} {fields : List Bytes}
    {nodes' : NodeDict} {h : NodeId} (hd : Drawn .master node)
    (hadd : scan.nodes.add node.addr w.nextNode = some nodes') (hflag : w.cc.addSlave = true)
    (hfind : scan.nodesName.find node.label = some h) (hlt : h < w.nextNode)
    (hrole : (w.heap h).role = .master) :
    acceptMaster scan node fields w =
      (({ scan with nodes := nodes' }, some Stop.name.complaint), w.refusing node) := by
  show wp (acceptMaster scan node fields) (fun r w' => (r, w') = _) w
  unfold acceptMaster
  rw [wp_bind, wp_newNode_creating, hadd]
  dsimp only
  rw [wp_bind, wp_get, if_pos (show (w.creating node).cc.addSlave = true from hflag), wp_bind]
  unfold mapWithName clusterMasterSlaveMappingWithName
  rw [wp_bind, wp_bind, wp_get, hfind]
  dsimp only
  rw [w.creating_heap_self, w.creating_heap_of_lt node hlt, hd.role, hrole]
  dsimp only
  rw [wp_pure, wp_bind]
  show (_, (freeRedisClusterNode w.nextNode (w.creating node)).2) = _
  rw [freeRedisClusterNode_creating hd]
  rfl

/-! ## All lines -/

def NodesLine.hasAddr (a : Bytes) : NodesLine → Bool
  | .master node _ => node.addr = a
  | _ => false

def NodesLine.hasLabel (k : Bytes) : NodesLine → Bool
  | .master node _ => node.label = k
  | _ => false

/-- The lines that are accepted, after those in `made`, and why the scan stops. -/
def survey (addSlave : Bool) (made : List NodesLine) :
    List NodesLine → List NodesLine × Option Stop
  | [] => (made, none)
  | .bad c none :: _ => (made, some (.line c))
  | .bad c (some _) :: _ => (made, some (.node c))
  | .skipped :: ls => survey addSlave made ls
  | .master node fields :: ls =>
    if made.any (·.hasAddr node.addr) then (made, some (.node addressExists))
    else if addSlave && made.any (·.hasLabel node.label) then (made, some .name)
    else survey addSlave (made ++ [.master node fields]) ls
  | .slave node k :: ls => survey addSlave (made ++ [.slave node k]) ls

/-- How a scan that accepted `made` ends. -/
def Ended (w₀ w' : World ω) (made : List NodesLine) (scan : NodesScan) : Option Stop → Prop
  | none => Scanned w₀ w' made scan
  | some (.line _) => Scanned w₀ w' made scan
  | some (.node _) => ∃ w₁ role node, Drawn role node ∧ Scanned w₀ w₁ made scan ∧
      w' = w₁.refusing node
  | some .name => ∃ w₁ scan₁ node, Drawn .master node ∧ Scanned w₀ w₁ made scan₁ ∧
      scan₁.nodes.add node.addr w₁.nextNode = some scan.nodes ∧ w' = w₁.refusing node

theorem any_hasAddr {made : List NodesLine} {a : Bytes} :
    made.any (·.hasAddr a) = true ↔ ∃ node fields, .master node fields ∈ made ∧ node.addr = a := by
  rw [List.any_eq_true]
  constructor
  · rintro ⟨l, hl, ha⟩
    cases l with
    | master node fields => exact ⟨node, fields, hl, of_decide_eq_true ha⟩
    | bad c node => cases ha
    | skipped => cases ha
    | slave node k => cases ha
  · rintro ⟨node, fields, hl, ha⟩
    exact ⟨_, hl, decide_eq_true ha⟩

theorem any_hasLabel {made : List NodesLine} {k : Bytes} :
    made.any (·.hasLabel k) = true ↔ ∃ node fields, .master node fields ∈ made ∧ node.label = k := by
  rw [List.any_eq_true]
  constructor
  · rintro ⟨l, hl, ha⟩
    cases l with
    | master node fields => exact ⟨node, fields, hl, of_decide_eq_true ha⟩
    | bad c node => cases ha
    | skipped => cases ha
    | slave node k => cases ha
  · rintro ⟨node, fields, hl, ha⟩
    exact ⟨_, hl, decide_eq_true ha⟩

theorem Scanned.address_used {w₀ w : World ω} {made : List NodesLine} {scan : NodesScan}
    (h : Scanned w₀ w made scan) (a : Bytes) :
    made.any (·.hasAddr a) = true ↔ scan.nodes.find a ≠ none := by
  rw [any_hasAddr]
  constructor
  · rintro ⟨node, fields, hl, ha⟩
    obtain ⟨n, hn⟩ := MadeFor.of_mem w₀.nextNode hl
    rw [(h.filed a n).mpr ⟨node, fields, hn, ha⟩]
    simp
  · intro hne
    obtain ⟨n, hn⟩ := Option.ne_none_iff_exists'.mp hne
    obtain ⟨node, fields, hmade, ha⟩ := (h.filed a n).mp hn
    exact ⟨node, fields, hmade.mem, ha⟩

/-- **The lines are accepted one after the other, up to the first that is refused.** -/
theorem parseNodesLines_ended {w₀ : World ω} (tcpHost : Bytes) (lines : List Bytes) :
    ∀ {w : World ω} {made : List NodesLine} {scan : NodesScan}, Scanned w₀ w made scan →
      wp (parseNodesLines tcpHost scan lines) (fun r w' =>
        let s := survey w₀.cc.addSlave made (lines.map (readNodesLine tcpHost w₀.cc.addSlave))
        r.2 = s.2.map Stop.complaint ∧ Ended w₀ w' s.1 r.1 s.2) w := by
  induction lines with
  | nil => exact fun h => ⟨rfl, h⟩
  | cons line rest ih =>
    intro w made scan h
    have hcc : w.cc.addSlave = w₀.cc.addSlave := by rw [h.cc]
    have hsane := readNodesLine_sane tcpHost w₀.cc.addSlave line
    unfold parseNodesLines
    rw [wp_bind]
    rw [List.map_cons]
    rw [wp_congr (parseNodesLine_eq tcpHost scan line w), hcc]
    generalize readNodesLine tcpHost w₀.cc.addSlave line = l at hsane
    cases l with
    | bad c node =>
      cases node with
      | none => exact ⟨rfl, h⟩
      | some node =>
        obtain ⟨role, hd⟩ : ∃ role, Drawn role node := hsane
        rw [wp, acceptLine_refused scan c hd w]
        exact ⟨rfl, w, role, node, hd, h, rfl⟩
    | skipped => exact ih h
    | master node fields =>
      have hd : Drawn .master node := hsane
      unfold survey
      by_cases haddr : made.any (·.hasAddr node.addr) = true
      · have hused := (h.address_used node.addr).mp haddr
        rw [if_pos haddr, acceptLine, wp, acceptMaster_address hd hused]
        exact ⟨rfl, w, .master, node, hd, h, rfl⟩
      · rw [if_neg haddr]
        rw [h.address_used, not_not] at haddr
        by_cases hname : (w₀.cc.addSlave && made.any (·.hasLabel node.label)) = true
        · obtain ⟨hflag, hany⟩ := Bool.and_eq_true_iff.mp hname
          obtain ⟨node', fields', hl, hlabel⟩ := any_hasLabel.mp hany
          obtain ⟨m, hm⟩ := MadeFor.of_mem w₀.nextNode hl
          have hfind := (h.master hm).2.2 hflag
          rw [hlabel] at hfind
          obtain ⟨nodes', hadd⟩ := Option.isSome_iff_exists.mp
            ((HashTable.add_isSome_iff _ _ w.nextNode).mpr haddr)
          rw [if_pos hname, acceptLine, wp,
            acceptMaster_name hd hadd (hcc.trans hflag) hfind (h.lt hm) (h.filled hm).1]
          exact ⟨rfl, w, scan, node, hd, h, hadd, rfl⟩
        · rw [if_neg hname]
          have hfree : w₀.cc.addSlave = true → Unclaimed made node.label := by
            intro hflag node' fields' hl hlabel
            refine hname (Bool.and_eq_true_iff.mpr ⟨hflag, any_hasLabel.mpr ⟨node', fields', hl, hlabel⟩⟩)
          refine wp_mono (acceptMaster_adopted hd haddr fun m hm => ?_) fun r w' hr => ?_
          · rw [awaiting] at hm
            split at hm
            · rename_i hflag
              rcases h.named hm with ⟨node', fields', hmade, hlabel⟩ | ⟨⟨node', hmade⟩, -, -⟩
              · exact absurd hlabel (hfree (hcc.symm.trans hflag) node' fields' hmade.mem)
              · exact ⟨h.lt hmade, (h.parked hmade).1⟩
            · cases hm
          · obtain ⟨nodes', names', hadd, rfl, ha, hf⟩ := hr
            exact ih (h.adopted hd hadd hfree ha hf)
    | slave node k =>
      obtain ⟨hd, hflag⟩ : Drawn .slave node ∧ w₀.cc.addSlave = true := hsane
      refine wp_mono (acceptSlave_joined hd.role fun m hm => ?_) fun r w' hr => ?_
      · obtain ⟨l, hmade⟩ := h.head_made hm
        exact h.lt hmade
      · obtain ⟨names', rfl, hj⟩ := hr
        exact ih (h.joined ⟨hd, hflag⟩ hj)

/-! ## The whole reply -/

/-- The lines of a reply as they are read. -/
def readNodesReply (tcpHost : Bytes) (addSlave : Bool) (reply : Reply) : List NodesLine :=
  (nodesLines [] false reply.text).map (readNodesLine tcpHost addSlave)

/-- An error is reported. -/
def World.complaining (w : World ω) (e : Complaint) : World ω :=
  { w with cc := { w.cc with err := some e.1, errstr := .lit e.2 } }

namespace Scanned

variable {w₀ w : World ω} {made : List NodesLine} {scan : NodesScan}

theorem mem_vals (h : Scanned w₀ w made scan) {n : NodeId} :
    n ∈ scan.nodes.vals ↔ ∃ node fields, MadeFor w₀.nextNode made n (.master node fields) := by
  rw [HashTable.mem_vals_iff]
  constructor
  · rintro ⟨a, ha⟩
    obtain ⟨node, fields, hn, -⟩ := (h.filed a n).mp ha
    exact ⟨node, fields, hn⟩
  · rintro ⟨node, fields, hn⟩
    exact ⟨node.addr, (h.filed _ n).mpr ⟨node, fields, hn, rfl⟩⟩

/-- A replica in the list of a master asks for that master. -/
theorem mem_slavesOf (h : Scanned w₀ w made scan) {m r : NodeId} {node : Node}
    {fields : List Bytes} (hm : MadeFor w₀.nextNode made m (.master node fields)) :
    r ∈ w.slavesOf m ↔ ∃ node', MadeFor w₀.nextNode made r (.slave node' node.label) :=
  (h.master hm).2.1.mem_iff.trans mem_replicasOf

/-- What the dictionary holds was made by the scan. -/
theorem made_of_mem_holdings (h : Scanned w₀ w made scan) {n : NodeId}
    (hn : n ∈ w.holdings scan.nodes) : ∃ l, MadeFor w₀.nextNode made n l := by
  obtain ⟨m, hm, hn⟩ := mem_holdings.mp hn
  obtain ⟨node, fields, hmade⟩ := h.mem_vals.mp hm
  rcases hn with rfl | hn
  · exact ⟨_, hmade⟩
  · obtain ⟨node', hslave⟩ := (h.mem_slavesOf hmade).mp hn
    exact ⟨_, hslave⟩

theorem bare_holdings (h : Scanned w₀ w made scan) : ∀ n ∈ w.holdings scan.nodes, w.Bare n := by
  intro n hn
  obtain ⟨l, hl⟩ := h.made_of_mem_holdings hn
  exact h.bare hl

end Scanned

theorem World.refusing_heap_of_lt (w : World ω) (node : Node) {n : NodeId} (hn : n < w.nextNode) :
    (w.refusing node).heap n = w.heap n :=
  w.creating_heap_of_lt node hn

theorem World.refusing_heap_self (w : World ω) (node : Node) :
    (w.refusing node).heap w.nextNode = node :=
  w.creating_heap_self node

/-- The dictionary of a scan that has ended holds bare nodes. -/
theorem Ended.bare {w₀ w : World ω} {made : List NodesLine} {scan : NodesScan} {stop : Option Stop}
    (h : Ended w₀ w made scan stop) : ∀ n ∈ w.holdings scan.nodes, w.Bare n := by
  -- a node made before the refused one does not notice
  have hearlier : ∀ {w₁ : World ω} {scan₁ : NodesScan} {node : Node},
      Scanned w₀ w₁ made scan₁ → ∀ {m n : NodeId}, m ∈ scan₁.nodes.vals →
      n = m ∨ n ∈ (w₁.refusing node).slavesOf m → (w₁.refusing node).Bare n := by
    intro w₁ scan₁ node h₁ m n hm hn
    obtain ⟨node', fields, hmade⟩ := h₁.mem_vals.mp hm
    rw [World.slavesOf, w₁.refusing_heap_of_lt node (h₁.lt hmade)] at hn
    obtain ⟨l, hl⟩ := h₁.made_of_mem_holdings (mem_holdings.mpr ⟨m, hm, hn⟩)
    rw [World.Bare, w₁.refusing_heap_of_lt node (h₁.lt hl)]
    exact h₁.bare hl
  intro n hn
  cases stop with
  | none => exact Scanned.bare_holdings h n hn
  | some s =>
    cases s with
    | line c => exact Scanned.bare_holdings (show Scanned w₀ w made scan from h) n hn
    | node c =>
      obtain ⟨w₁, role, node, hd, h₁, rfl⟩ := h
      obtain ⟨m, hm, hn⟩ := mem_holdings.mp hn
      exact hearlier h₁ hm hn
    | name =>
      obtain ⟨w₁, scan₁, node, hd, h₁, hadd, rfl⟩ := h
      obtain ⟨m, hm, hn⟩ := mem_holdings.mp hn
      obtain ⟨a, ha⟩ := (HashTable.mem_vals_iff _ m).mp hm
      rw [HashTable.find_add hadd] at ha
      split at ha
      · obtain rfl := Option.some.inj ha
        rw [World.slavesOf, w₁.refusing_heap_self, hd.slaves] at hn
        obtain rfl : n = w₁.nextNode := by simpa using hn
        rw [World.Bare, w₁.refusing_heap_self]
        exact ⟨hd.con, hd.acon⟩
      · exact hearlier h₁ ((HashTable.mem_vals_iff _ m).mpr ⟨a, ha⟩) hn

theorem parseFailed_bare {w : World ω} {d : NodeDict} (h : ∀ n ∈ w.holdings d, w.Bare n)
    (e : Complaint) :
    parseFailed d e w = (none, (w.complaining e).releasing (w.holdings d)) := by
  show (none, (dictRelease d (w.complaining e)).2) = _
  rw [dictRelease_bare (w := w.complaining e) h]
  rfl

/-- The number of ranges of the accepted lines. -/
def rangeCount (made : List NodesLine) : ℕ := (made.map NodesLine.ranges).sum

/-- **A reply is accepted when no line is refused and there is a range**; otherwise what was
built is released. -/
theorem parseClusterNodes_ended (tcpHost : Bytes) (reply : Reply) (w : World ω) :
    let s := survey w.cc.addSlave [] (readNodesReply tcpHost w.cc.addSlave reply)
    wp (parseClusterNodes tcpHost reply) (fun r w' => ∃ scan w₁, Ended w w₁ s.1 scan s.2 ∧
      if s.2.isNone ∧ 0 < rangeCount s.1 then r = some scan.nodes ∧ w' = w₁
      else r = none ∧ ∃ e, w' = (w₁.complaining e).releasing (w₁.holdings scan.nodes)) w := by
  intro s
  unfold parseClusterNodes
  rw [wp_bind]
  refine wp_mono (parseNodesLines_ended tcpHost _ (scanned_empty w)) fun r w₁ hr => ?_
  obtain ⟨scan, err⟩ := r
  obtain ⟨herr, hend⟩ := hr
  refine ⟨scan, w₁, hend, ?_⟩
  change Ended w w₁ s.1 scan s.2 at hend
  change err = s.2.map Stop.complaint at herr
  cases hs : s.2 with
  | some stop =>
    rw [hs] at herr
    subst herr
    have hfail := parseFailed_bare hend.bare stop.complaint
    rw [if_neg (by simp)]
    exact ⟨congrArg Prod.fst hfail, _, congrArg Prod.snd hfail⟩
  | none =>
    have hfail := parseFailed_bare hend.bare (.other, "No slot information")
    rw [hs] at herr hend
    subst herr
    have hfound : scan.slotRangesFound = rangeCount s.1 :=
      (show Scanned w w₁ s.1 scan from hend).found
    dsimp only [Option.map_none]
    by_cases hzero : scan.slotRangesFound = 0
    · rw [if_neg (by omega)]
      simp only [if_pos hzero]
      exact ⟨congrArg Prod.fst hfail, _, congrArg Prod.snd hfail⟩
    · rw [if_pos ⟨rfl, by omega⟩]
      simp only [if_neg hzero]
      exact ⟨rfl, rfl⟩
