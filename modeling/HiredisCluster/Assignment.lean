/-
# The replicas of each master

With `HIRCLUSTER_FLAG_ADD_SLAVE`, the lines of CLUSTER NODES may come in any order: a
replica that is read before its master waits until the master is read.  The result depends
on the lines only as a set: a master has its address, its ranges, and each replica that
names it once.
-/
import HiredisCluster.LineText
import HiredisCluster.Ownership
import Mathlib.Data.List.Pairwise
import Mathlib.Data.Multiset.MapFold

open Creation Program

variable {ω : Type}

/-! ## Well-formed lines -/

/-- A well-formed line of CLUSTER NODES: no newline in it, at least eight fields, and a
valid `host:port`, unless the address starts with `:0`. -/
structure NodesEntry where
  line : Bytes
  endpoint : Option EndpointText
  noNewline : 10 ∉ line
  eight : 8 ≤ (sdssplitlen line 32).length
  address : match endpoint with
    | none => (ascii ":0").isPrefixOf ((sdssplitlen line 32).getD 1 []) = true
    | some e => (sdssplitlen line 32).getD 1 [] = e.text ∧
        (ascii ":0").isPrefixOf ((sdssplitlen line 32).getD 1 []) = false

namespace NodesEntry

variable (x : NodesEntry) (tcpHost : Bytes)

def fields : List Bytes := sdssplitlen x.line 32

/-- The node id. -/
def id : Bytes := x.fields.getD 0 []

/-- The address that is meant. -/
def addr : Option Bytes := x.endpoint.map fun e => e.addr tcpHost

/-- A master line: the flags start with `master`, after `myself,` if that is there. -/
def isMaster : Bool := (ascii "master").isPrefixOf (roleField (x.fields.getD 2 []))

/-- A replica line. -/
def isSlave : Bool := !x.isMaster && (ascii "slave").isPrefixOf (roleField (x.fields.getD 2 []))

/-- The id of the master that a replica line names. -/
def masterId : Bytes := x.fields.getD 3 []

/-- A replica line that names `k`, with an address. -/
def follows (k : Bytes) : Bool := x.endpoint.isSome && x.isSlave && (x.masterId = k)

/-- The ranges of a master line. -/
def slots : List SlotRange := slotFields (x.fields.drop 8)

end NodesEntry

/-- A slot field that names a range: `start-stop`, or one slot. -/
inductive SlotText : Bytes → SlotRange → Prop
  | one (ds : Bytes) (hd : ∀ b ∈ ds, isDigit b = true) (hne : ds ≠ [])
      (hlt : numeral 0 ds < redisClusterSlots) : SlotText ds ⟨numeral 0 ds, numeral 0 ds⟩
  | range (as bs : Bytes) (ha : ∀ b ∈ as, isDigit b = true) (hb : ∀ b ∈ bs, isDigit b = true)
      (hane : as ≠ []) (hbne : bs ≠ []) (hle : numeral 0 as ≤ numeral 0 bs)
      (hlt : numeral 0 bs < redisClusterSlots) :
      SlotText (as ++ 45 :: bs) ⟨numeral 0 as, numeral 0 bs⟩

/-- A reply of well-formed lines with distinct ids, distinct addresses and at least one slot
range. -/
structure Coherent (tcpHost : Bytes) (entries : List NodesEntry) : Prop where
  ids : entries.Pairwise fun x y => x.id ≠ y.id
  named : ∀ x ∈ entries, x.id ≠ []
  addrs : entries.Pairwise fun x y => ∀ a, x.addr tcpHost = some a → y.addr tcpHost ≠ some a
  range : ∃ x ∈ entries, x.isMaster = true ∧ x.endpoint.isSome = true ∧
    ∃ f ∈ x.fields.drop 8, ∃ r, SlotText f r

/-- The reply: each line ended by a newline. -/
def nodesReply (entries : List NodesEntry) : Reply := .string (terminated (entries.map NodesEntry.line))

/-! ## Who is who -/

/-- A node as a line describes it. -/
structure Face where
  name : Option Bytes
  addr : Bytes
  host : Bytes
  port : ℕ
  deriving DecidableEq

def Node.face (node : Node) : Face := ⟨node.name, node.addr, node.host, node.port⟩

def NodesEntry.face (x : NodesEntry) (tcpHost : Bytes) : Option Face :=
  x.endpoint.map fun e => ⟨some x.id, e.addr tcpHost, e.hostFor tcpHost, e.port⟩

/-- A master with its ranges and its replicas. -/
structure Portrait where
  face : Face
  slots : Option (List SlotRange)
  slaves : Multiset Face

/-- The master that a dictionary holds under an address. -/
def World.portrait (w : World ω) (d : NodeDict) (a : Bytes) : Option Portrait :=
  (d.find a).map fun n =>
    ⟨(w.heap n).face, (w.heap n).slots, ((w.slavesOf n).map fun r => (w.heap r).face : List Face)⟩

/-- How often a replica is in the list of a node. -/
def World.timesListed (w : World ω) (f : Face) (n : NodeId) : ℕ :=
  ((w.slavesOf n).map fun r => (w.heap r).face).count f

/-- **What the lines say about the masters in a dictionary**, whose nodes were created from
number `lo` on. -/
structure Assigned (tcpHost : Bytes) (entries : List NodesEntry) (lo : ℕ) (w : World ω)
    (d : NodeDict) : Prop where
  /-- Only masters are filed. -/
  only : ∀ a n, d.find a = some n → ∃ x ∈ entries, x.isMaster = true ∧ x.addr tcpHost = some a
  /-- Every accepted master line has a node with its address and ranges. -/
  master : ∀ x ∈ entries, x.isMaster = true → ∀ a, x.addr tcpHost = some a →
    ∃ n, d.find a = some n ∧ x.face tcpHost = some (w.heap n).face ∧ (w.heap n).slots = some x.slots
  /-- A replica that names an accepted master is in its list once, and in no other. -/
  replica : ∀ x ∈ entries, x.isMaster = true → ∀ a, x.addr tcpHost = some a →
    ∀ y ∈ entries, y.follows x.id = true → ∀ f, y.face tcpHost = some f →
    ∃ n, d.find a = some n ∧ w.timesListed f n = 1 ∧
      ∀ n', lo ≤ n' → n' < w.nextNode → n' ≠ n → w.timesListed f n' = 0

/-! ## Slot fields -/

theorem hiAtoi_of_digits {ds : Bytes} (hd : ∀ b ∈ ds, isDigit b = true) (hne : ds ≠ [])
    (hlt : numeral 0 ds < redisClusterSlots) : hiAtoi ds = numeral 0 ds := by
  have hslots : redisClusterSlots = 16384 := rfl
  rw [hiAtoi, if_neg hne]
  exact hiAtoiLoop_eq hd (Nat.lt_trans hlt (by decide))

theorem slotField_of_text {f : Bytes} {r : SlotRange} (h : SlotText f r) :
    slotField f = some r := by
  have hslots : redisClusterSlots = 16384 := rfl
  have hdash : ∀ {ds : Bytes}, (∀ b ∈ ds, isDigit b = true) → 45 ∉ ds :=
    fun hd hmem => ne_of_isDigit (hd 45 hmem) rfl rfl
  have hjoin : ∀ ls : List Bytes, (∀ l ∈ ls, ∀ b ∈ l, isDigit b = true) → ls ≠ [] →
      (([45] : Bytes).intercalate ls).splitOn 45 = ls := fun ls hls hne =>
    List.splitOn_intercalate 45 (fun l hl => hdash (hls l hl)) hne
  unfold slotField
  cases h with
  | one _ hd hne hlt =>
    have hsplit : sdssplitlen f 45 = [f] := by
      have hone := hjoin [f] (by simpa using hd) (List.cons_ne_nil _ _)
      rw [List.intercalate_singleton] at hone
      rw [sdssplitlen, if_neg hne, hone]
    rw [hsplit, slotBounds, hiAtoi_of_digits hd hne hlt]
    dsimp only
    rw [if_neg]
    · rfl
    · omega
  | range as bs ha hb hane hbne hle hlt =>
    have hsplit : sdssplitlen (as ++ 45 :: bs) 45 = [as, bs] := by
      have htwo := hjoin [as, bs] (by simpa using ⟨ha, hb⟩) (List.cons_ne_nil _ _)
      rw [List.intercalate_cons_cons, List.intercalate_singleton, List.append_assoc,
        List.singleton_append] at htwo
      rw [sdssplitlen, if_neg (by simp), htwo]
    rw [hsplit, slotBounds, hiAtoi_of_digits ha hane (Nat.lt_of_le_of_lt hle hlt),
      hiAtoi_of_digits hb hbne hlt]
    dsimp only
    rw [if_neg]
    · rfl
    · omega

/-! ## Reading well-formed lines -/

/-- The node of a line with address `e`. -/
def NodesEntry.node (x : NodesEntry) (tcpHost : Bytes) (e : EndpointText) (role : Role) : Node :=
  { name := some x.id, addr := e.addr tcpHost, host := e.hostFor tcpHost, port := e.port, role
    slots := if role = .master then some [] else none }

/-- What a well-formed line is read as. -/
def NodesEntry.read (x : NodesEntry) (tcpHost : Bytes) : NodesLine :=
  match x.endpoint with
  | none => .skipped
  | some e =>
    if x.isMaster then .master (x.node tcpHost e .master) (x.fields.drop 8)
    else if x.isSlave then .slave (x.node tcpHost e .slave) x.masterId
    else .skipped

theorem NodesEntry.readNodesLine_eq (x : NodesEntry) (tcpHost : Bytes) :
    readNodesLine tcpHost true x.line = x.read tcpHost := by
  have hadr := x.address
  have height : ¬ (sdssplitlen x.line 32).length < 8 := Nat.not_lt.mpr x.eight
  unfold readNodesLine NodesEntry.read
  dsimp only
  rw [if_neg height]
  cases he : x.endpoint with
  | none =>
    rw [he] at hadr
    rw [if_pos hadr]
  | some e =>
    rw [he] at hadr
    obtain ⟨htext, hskip⟩ := hadr
    rw [if_neg (by rw [hskip]; exact Bool.false_ne_true)]
    dsimp only
    by_cases hm : x.isMaster = true
    · have hm' : (ascii "master").isPrefixOf (roleField ((sdssplitlen x.line 32).getD 2 [])) = true :=
        hm
      rw [if_pos hm, if_pos hm', e.nodeOfFields_text tcpHost htext .master]
      rfl
    · have hm' : ¬ (ascii "master").isPrefixOf (roleField ((sdssplitlen x.line 32).getD 2 [])) = true :=
        hm
      rw [if_neg hm, if_neg hm']
      have hslave : x.isSlave = (ascii "slave").isPrefixOf (roleField (x.fields.getD 2 [])) := by
        rw [NodesEntry.isSlave, Bool.not_eq_true _ |>.mp hm]
        rfl
      rw [hslave]
      by_cases hs : (ascii "slave").isPrefixOf (roleField ((sdssplitlen x.line 32).getD 2 [])) = true
      · refine (if_pos ⟨rfl, hs⟩).trans (Eq.trans ?_ (if_pos hs).symm)
        rw [e.nodeOfFields_text tcpHost htext .slave]
        rfl
      · exact (if_neg fun hno => hs hno.2).trans (if_neg hs).symm

/-- The accepted lines among those that are read. -/
def NodesLine.isNode : NodesLine → Bool
  | .master _ _ => true
  | .slave _ _ => true
  | _ => false

/-- Two lines that can both be accepted. -/
def NodesLine.Compatible : NodesLine → NodesLine → Prop
  | .master node _, .master node' _ => node.addr ≠ node'.addr ∧ node.label ≠ node'.label
  | _, _ => True

/-- Lines that do not collide are all accepted. -/
theorem survey_compatible (addSlave : Bool) (ls : List NodesLine) : ∀ {made : List NodesLine},
    (∀ l ∈ ls, ∀ c node, l ≠ .bad c node) → (∀ m ∈ made, ∀ l ∈ ls, m.Compatible l) →
    ls.Pairwise NodesLine.Compatible →
    survey addSlave made ls = (made ++ ls.filter NodesLine.isNode, none) := by
  induction ls with
  | nil =>
    intro made _ _ _
    rw [survey, List.filter_nil, List.append_nil]
  | cons l ls ih =>
    intro made hbad hmade hpair
    obtain ⟨hl, hrest⟩ := List.pairwise_cons.mp hpair
    have hbad' : ∀ l' ∈ ls, ∀ c node, l' ≠ .bad c node := fun l' h => hbad l' (List.mem_cons_of_mem _ h)
    have hmade' : ∀ m ∈ made ++ [l], ∀ l' ∈ ls, m.Compatible l' := by
      intro m hm l' hl'
      rcases List.mem_append.mp hm with hm | hm
      · exact hmade m hm l' (List.mem_cons_of_mem _ hl')
      · obtain rfl := List.mem_singleton.mp hm
        exact hl l' hl'
    have happend : ∀ rest : List NodesLine, made ++ [l] ++ rest = made ++ l :: rest := fun rest => by
      rw [List.append_assoc, List.singleton_append]
    cases l with
    | bad c node => exact absurd rfl (hbad _ List.mem_cons_self c node)
    | skipped =>
      rw [survey]
      exact ih hbad' (fun m hm l' hl' => hmade m hm l' (List.mem_cons_of_mem _ hl')) hrest
    | slave node k =>
      rw [survey, ih hbad' hmade' hrest, happend]
      rfl
    | master node fields =>
      have haddr : ¬ made.any (·.hasAddr node.addr) = true := by
        rw [any_hasAddr]
        rintro ⟨node', fields', hm, heq⟩
        exact (hmade _ hm _ List.mem_cons_self).1 heq
      have hlabel : ¬ (addSlave && made.any (·.hasLabel node.label)) = true := by
        rw [Bool.and_eq_true, any_hasLabel]
        rintro ⟨-, node', fields', hm, heq⟩
        exact (hmade _ hm _ List.mem_cons_self).2 heq
      rw [survey, if_neg haddr, if_neg hlabel, ih hbad' hmade' hrest, happend]
      rfl

section Entries

variable {tcpHost : Bytes} {entries : List NodesEntry}

/-- What the parser makes of the reply. -/
theorem readNodesReply_entries (tcpHost : Bytes) (entries : List NodesEntry) :
    readNodesReply tcpHost true (nodesReply entries) = entries.map (·.read tcpHost) := by
  have hlines : ∀ l ∈ entries.map NodesEntry.line, l ≠ [] ∧ 10 ∉ l := by
    intro l hl
    obtain ⟨x, -, rfl⟩ := List.mem_map.mp hl
    refine ⟨fun hnil => ?_, x.noNewline⟩
    have := x.eight
    rw [hnil] at this
    exact absurd this (by decide)
  rw [readNodesReply, nodesReply, Reply.text, nodesLines_terminated hlines, List.map_map]
  exact List.map_congr_left fun x _ => x.readNodesLine_eq tcpHost

theorem NodesEntry.read_ne_bad (x : NodesEntry) (tcpHost : Bytes) (c : Complaint)
    (node : Option Node) : x.read tcpHost ≠ .bad c node := by
  unfold NodesEntry.read
  split
  · exact fun h => by cases h
  · split
    · exact fun h => by cases h
    · split
      · exact fun h => by cases h
      · exact fun h => by cases h

theorem NodesEntry.read_eq_master {x : NodesEntry} {node : Node} {fields : List Bytes}
    (h : x.read tcpHost = .master node fields) :
    ∃ e, x.endpoint = some e ∧ x.isMaster = true ∧ node = x.node tcpHost e .master ∧
      fields = x.fields.drop 8 := by
  unfold NodesEntry.read at h
  split at h
  · cases h
  · rename_i e he
    split at h
    · obtain ⟨rfl, rfl⟩ := NodesLine.master.inj h
      exact ⟨e, he, ‹_›, rfl, rfl⟩
    · split at h
      · cases h
      · cases h

theorem NodesEntry.read_eq_slave {x : NodesEntry} {node : Node} {k : Bytes}
    (h : x.read tcpHost = .slave node k) :
    ∃ e, x.endpoint = some e ∧ x.follows k = true ∧ node = x.node tcpHost e .slave := by
  unfold NodesEntry.read at h
  split at h
  · cases h
  · rename_i e he
    split at h
    · cases h
    · split at h
      · rename_i hs
        obtain ⟨rfl, rfl⟩ := NodesLine.slave.inj h
        exact ⟨e, he, by simp [NodesEntry.follows, he, hs], rfl⟩
      · cases h

theorem Coherent.survey_eq (h : Coherent tcpHost entries) :
    survey true [] (readNodesReply tcpHost true (nodesReply entries)) =
      ((entries.map (·.read tcpHost)).filter NodesLine.isNode, none) := by
  rw [readNodesReply_entries]
  refine survey_compatible true _ ?_ (by simp) ?_
  · intro l hl c node
    obtain ⟨x, -, rfl⟩ := List.mem_map.mp hl
    exact x.read_ne_bad tcpHost c node
  · rw [List.pairwise_map]
    refine (h.ids.and h.addrs).imp ?_
    rintro x y ⟨hid, haddr⟩
    cases hx : x.read tcpHost with
    | master node fields =>
      cases hy : y.read tcpHost with
      | master node' fields' =>
        obtain ⟨e, he, -, rfl, -⟩ := NodesEntry.read_eq_master hx
        obtain ⟨e', he', -, rfl, -⟩ := NodesEntry.read_eq_master hy
        constructor
        · intro heq
          refine haddr (e.addr tcpHost) (by rw [NodesEntry.addr, he]; rfl) ?_
          rw [NodesEntry.addr, he']
          exact congrArg some heq.symm
        · exact hid
      | bad c node => trivial
      | skipped => trivial
      | slave node' k => trivial
    | bad c node => trivial
    | skipped => trivial
    | slave node k => trivial

end Entries

/-! ## The replicas of a name -/

/-- The replica that a line describes, if it names `k`. -/
def NodesLine.faceFor (k : Bytes) : NodesLine → Option Face
  | .slave node k' => if k' = k then some node.face else none
  | _ => none

/-- The replicas that name `k`, as the lines describe them. -/
def replicaFaces (tcpHost : Bytes) (entries : List NodesEntry) (k : Bytes) : List Face :=
  entries.filterMap fun y => if y.follows k then y.face tcpHost else none

theorem replicasOf_faces {lo : ℕ} {made : List NodesLine} {k : Bytes} {face : ℕ → Face}
    (h : ∀ n node, MadeFor lo made n (.slave node k) → face n = node.face) :
    (replicasOf lo made k).map face = made.filterMap (NodesLine.faceFor k) := by
  have hfst : made.filterMap (NodesLine.faceFor k) =
      (made.zipIdx lo).filterMap fun e => e.1.faceFor k := by
    conv_lhs => rw [← List.zipIdx_map_fst lo made, List.filterMap_map]
    rfl
  rw [hfst, replicasOf, List.map_map, ← List.filterMap_eq_map, List.filterMap_filter]
  refine List.filterMap_congr fun e he => ?_
  obtain ⟨l, n⟩ := e
  obtain ⟨hle, hget⟩ := mem_zipIdx_iff_madeFor.mp he
  cases l with
  | slave node k' =>
    show (if decide (k' = k) = true then _ else _) = (if k' = k then _ else _)
    by_cases hk : k' = k
    · subst hk
      rw [if_pos (decide_eq_true rfl), if_pos rfl]
      exact congrArg some (h n node ⟨hle, hget⟩)
    · rw [if_neg (by simpa using hk), if_neg hk]
  | bad c node => rfl
  | skipped => rfl
  | master node fields => rfl

theorem NodesEntry.faceFor_read (x : NodesEntry) (tcpHost : Bytes) (k : Bytes) :
    (x.read tcpHost).faceFor k = if x.follows k then x.face tcpHost else none := by
  unfold NodesEntry.read NodesEntry.follows NodesEntry.face NodesEntry.isSlave
  cases x.endpoint with
  | none => rfl
  | some e =>
    dsimp only
    by_cases hm : x.isMaster = true
    · rw [if_pos hm, hm]
      rfl
    · rw [if_neg hm, Bool.not_eq_true _ |>.mp hm]
      split
      · rename_i hs
        show (if x.masterId = k then _ else none) = _
        simp only [Bool.not_false, Bool.true_and] at hs
        simp only [Option.isSome_some, Bool.not_false, Bool.true_and, hs, decide_eq_true_eq]
        rfl
      · rename_i hs
        rw [if_neg]
        · rfl
        · intro hno
          simp only [Bool.and_eq_true] at hno
          exact hs (by rw [hno.1.2.1, hno.1.2.2]; rfl)

theorem filterMap_faceFor (tcpHost : Bytes) (entries : List NodesEntry) (k : Bytes) :
    ((entries.map (·.read tcpHost)).filter NodesLine.isNode).filterMap (NodesLine.faceFor k) =
      replicaFaces tcpHost entries k := by
  rw [List.filterMap_filter, List.filterMap_map, replicaFaces]
  refine List.filterMap_congr fun x _ => ?_
  rw [← x.faceFor_read tcpHost k]
  show (if (x.read tcpHost).isNode = true then (x.read tcpHost).faceFor k else none) = _
  cases x.read tcpHost with
  | bad c node => rfl
  | skipped => rfl
  | master node fields => rfl
  | slave node k' => rfl

/-! ## The result of the parse -/

/-- The accepted lines of a well-formed reply. -/
def acceptedLines (tcpHost : Bytes) (entries : List NodesEntry) : List NodesLine :=
  (entries.map (·.read tcpHost)).filter NodesLine.isNode

section Result

variable {tcpHost : Bytes} {entries : List NodesEntry} {w w₁ : World ω} {scan : NodesScan}

theorem mem_acceptedLines {l : NodesLine} :
    l ∈ acceptedLines tcpHost entries ↔ (∃ x ∈ entries, x.read tcpHost = l) ∧ l.isNode = true := by
  rw [acceptedLines, List.mem_filter, List.mem_map]

theorem NodesEntry.read_master (tcpHost : Bytes) {x : NodesEntry} {e : EndpointText}
    (he : x.endpoint = some e) (hm : x.isMaster = true) :
    x.read tcpHost = .master (x.node tcpHost e .master) (x.fields.drop 8) := by
  rw [NodesEntry.read, he]
  exact if_pos hm

theorem addr_eq_some {x : NodesEntry} {a : Bytes} (ha : x.addr tcpHost = some a) :
    ∃ e, x.endpoint = some e ∧ e.addr tcpHost = a := by
  obtain ⟨e, he, rfl⟩ := Option.map_eq_some_iff.mp ha
  exact ⟨e, he, rfl⟩

/-- The node of a master line. -/
theorem exists_master (h : Scanned w w₁ (acceptedLines tcpHost entries) scan) {x : NodesEntry}
    (hx : x ∈ entries) (hm : x.isMaster = true) {a : Bytes} (ha : x.addr tcpHost = some a) :
    ∃ n e, x.endpoint = some e ∧ scan.nodes.find a = some n ∧
      MadeFor w.nextNode (acceptedLines tcpHost entries) n
        (.master (x.node tcpHost e .master) (x.fields.drop 8)) := by
  obtain ⟨e, he, rfl⟩ := addr_eq_some ha
  have hread := NodesEntry.read_master tcpHost he hm
  obtain ⟨n, hn⟩ := MadeFor.of_mem w.nextNode
    (mem_acceptedLines.mpr ⟨⟨x, hx, hread⟩, rfl⟩)
  exact ⟨n, e, he, (h.filed _ n).mpr ⟨_, _, hn, rfl⟩, hn⟩

/-- A replica is filed as its line describes it. -/
theorem face_of_slave (h : Scanned w w₁ (acceptedLines tcpHost entries) scan) {n : NodeId}
    {node : Node} {k : Bytes}
    (hn : MadeFor w.nextNode (acceptedLines tcpHost entries) n (.slave node k)) :
    (w₁.heap n).face = node.face := by
  obtain ⟨kids, heq⟩ := (h.slave hn).1
  rw [heq]
  rfl

/-- **A master has its address, its ranges and the replicas that name it.** -/
theorem portrait_master (h : Scanned w w₁ (acceptedLines tcpHost entries) scan) {x : NodesEntry}
    (hx : x ∈ entries) (hm : x.isMaster = true) {a : Bytes} (ha : x.addr tcpHost = some a) :
    ∃ n f, scan.nodes.find a = some n ∧ x.face tcpHost = some f ∧ (w₁.heap n).face = f ∧
      (w₁.heap n).slots = some x.slots ∧
      ((w₁.slavesOf n).map fun r => (w₁.heap r).face).Perm (replicaFaces tcpHost entries x.id) := by
  obtain ⟨n, e, he, hfind, hn⟩ := exists_master h hx hm ha
  obtain ⟨⟨kids, mig, imp, heq⟩, hperm, -⟩ := h.master hn
  refine ⟨n, (x.node tcpHost e .master).face, hfind, ?_, ?_, ?_, ?_⟩
  · rw [NodesEntry.face, he]
    rfl
  · rw [heq]
    rfl
  · rw [heq]
    rfl
  · refine (hperm.map _).trans ?_
    rw [replicasOf_faces fun n node hn => face_of_slave h hn]
    exact List.Perm.of_eq (filterMap_faceFor tcpHost entries x.id)

/-- Nothing else is filed. -/
theorem exists_entry (h : Scanned w w₁ (acceptedLines tcpHost entries) scan) {a : Bytes} {n : NodeId}
    (hfind : scan.nodes.find a = some n) :
    ∃ x ∈ entries, x.isMaster = true ∧ x.addr tcpHost = some a := by
  obtain ⟨node, fields, hn, rfl⟩ := (h.filed a n).mp hfind
  obtain ⟨⟨x, hx, hread⟩, -⟩ := mem_acceptedLines.mp hn.mem
  obtain ⟨e, he, hm, rfl, -⟩ := NodesEntry.read_eq_master hread
  exact ⟨x, hx, hm, by rw [NodesEntry.addr, he]; rfl⟩

end Result

/-- The parse of a well-formed reply succeeds. -/
theorem parse_coherent {tcpHost : Bytes} {entries : List NodesEntry} (h : Coherent tcpHost entries)
    {w : World ω} (hflag : w.cc.addSlave = true) :
    ∃ scan, (parseClusterNodes tcpHost (nodesReply entries) w).1 = some scan.nodes ∧
      Scanned w (parseClusterNodes tcpHost (nodesReply entries) w).2
        (acceptedLines tcpHost entries) scan := by
  obtain ⟨scan, w₁, hend, hres⟩ := parseClusterNodes_ended tcpHost (nodesReply entries) w
  rw [hflag, h.survey_eq] at hend hres
  have hrange : 0 < rangeCount (acceptedLines tcpHost entries) := by
    obtain ⟨x, hx, hm, hsome, f, hf, r, hr⟩ := h.range
    obtain ⟨e, he⟩ := Option.isSome_iff_exists.mp hsome
    have hmem : (NodesLine.master (x.node tcpHost e .master) (x.fields.drop 8)) ∈
        acceptedLines tcpHost entries :=
      mem_acceptedLines.mpr ⟨⟨x, hx, NodesEntry.read_master tcpHost he hm⟩, rfl⟩
    have hpos : 0 < (slotFields (x.fields.drop 8)).length :=
      List.length_pos_of_mem (List.mem_filterMap.mpr ⟨f, hf, slotField_of_text hr⟩)
    exact List.sum_pos_iff_exists_pos_nat.mpr ⟨_, List.mem_map_of_mem hmem, hpos⟩
  rw [if_pos ⟨rfl, hrange⟩] at hres
  obtain ⟨hr, hw⟩ := hres
  exact ⟨scan, hr, by rw [hw]; exact hend⟩

theorem Coherent.perm {tcpHost : Bytes} {entries entries' : List NodesEntry}
    (h : Coherent tcpHost entries) (hp : entries.Perm entries') : Coherent tcpHost entries' where
  ids := hp.pairwise h.ids fun hne => Ne.symm hne
  named x hx := h.named x (hp.mem_iff.mpr hx)
  addrs := hp.pairwise h.addrs fun hne a hy hx => hne a hx hy
  range := by
    obtain ⟨x, hx, hrest⟩ := h.range
    exact ⟨x, hp.mem_iff.mp hx, hrest⟩

/-- Two lines with one address are one line. -/
theorem Coherent.eq_of_addr {tcpHost : Bytes} {entries : List NodesEntry}
    (h : Coherent tcpHost entries) {x y : NodesEntry} (hx : x ∈ entries) (hy : y ∈ entries)
    {a : Bytes} (hxa : x.addr tcpHost = some a) (hya : y.addr tcpHost = some a) : x = y := by
  by_contra hne
  have : Std.Symm fun x y : NodesEntry => ∀ a, x.addr tcpHost = some a → y.addr tcpHost ≠ some a :=
    ⟨fun x y hxy a hy hx => hxy a hx hy⟩
  exact h.addrs.forall hx hy hne a hxa hya

theorem face_addr {x : NodesEntry} {tcpHost : Bytes} {f : Face} (h : x.face tcpHost = some f) :
    x.addr tcpHost = some f.addr := by
  obtain ⟨e, he, rfl⟩ := Option.map_eq_some_iff.mp h
  rw [NodesEntry.addr, he]
  rfl

theorem mem_replicaFaces {tcpHost : Bytes} {entries : List NodesEntry} {k : Bytes} {f : Face} :
    f ∈ replicaFaces tcpHost entries k ↔
      ∃ y ∈ entries, y.follows k = true ∧ y.face tcpHost = some f := by
  rw [replicaFaces, List.mem_filterMap]
  refine exists_congr fun y => and_congr_right fun _ => ?_
  constructor
  · intro h
    split at h
    · exact ⟨‹_›, h⟩
    · cases h
  · rintro ⟨hy, hf⟩
    rw [if_pos hy, hf]

/-- No replica is described twice. -/
theorem Coherent.nodup_replicaFaces {tcpHost : Bytes} {entries : List NodesEntry}
    (h : Coherent tcpHost entries) (k : Bytes) : (replicaFaces tcpHost entries k).Nodup := by
  have hface : ∀ {y : NodesEntry} {f : Face},
      (if y.follows k then y.face tcpHost else none) = some f → y.face tcpHost = some f := by
    intro y f hy
    split at hy
    · exact hy
    · cases hy
  refine List.Pairwise.filterMap _ ?_ h.addrs
  intro x y hxy f hf g hg heq
  subst heq
  exact hxy _ (face_addr (hface hf)) (face_addr (hface hg))

/-- A replica is in the list of the master it names, or that master is unknown. -/
theorem Scanned.listed {w₀ w : World ω} {made : List NodesLine} {scan : NodesScan} {n r : ℕ}
    (h : Scanned w₀ w made scan) (hlo : w₀.nextNode ≤ n) (hlt : n < w.nextNode)
    (hr : r ∈ w.slavesOf n) : ∃ node k, MadeFor w₀.nextNode made r (.slave node k) ∧
      ((∃ node' fields, MadeFor w₀.nextNode made n (.master node' fields) ∧ node'.label = k) ∨
        Unclaimed made k) := by
  rw [h.nextNode] at hlt
  obtain ⟨l, hn⟩ := exists_madeFor hlo hlt
  cases l with
  | bad c node => exact absurd (h.accepted _ hn.mem) id
  | skipped => exact absurd (h.accepted _ hn.mem) id
  | master node fields =>
    obtain ⟨node', hslave⟩ := (h.mem_slavesOf hn).mp hr
    exact ⟨node', node.label, hslave, Or.inl ⟨node, fields, hn, rfl⟩⟩
  | slave node k =>
    rcases (h.slave hn).2 with hfind | hempty
    · rcases h.named hfind with ⟨node', fields, hn', -⟩ | ⟨-, hno, hlist⟩
      · cases hn.unique hn'
      · obtain ⟨node', hslave⟩ := mem_replicasOf.mp (hlist ▸ List.mem_cons_of_mem n hr)
        refine ⟨node', k, hslave, Or.inr fun node'' fields hl => ?_⟩
        obtain ⟨m, hm⟩ := MadeFor.of_mem w₀.nextNode hl
        exact hno m node'' fields hm
    · rw [hempty] at hr
      cases hr

theorem Coherent.assigned {tcpHost : Bytes} {entries : List NodesEntry} {w w₁ : World ω}
    {scan : NodesScan} (h : Coherent tcpHost entries)
    (hs : Scanned w w₁ (acceptedLines tcpHost entries) scan) :
    Assigned tcpHost entries w.nextNode w₁ scan.nodes where
  only a n hfind := exists_entry hs hfind
  master x hx hm a ha := by
    obtain ⟨n, f, hfind, hface, hf, hslots, -⟩ := portrait_master hs hx hm ha
    exact ⟨n, hfind, by rw [hface, hf], hslots⟩
  replica x hx hm a ha y hy hfollows f hf := by
    obtain ⟨n, -, hfind, -, -, -, hperm⟩ := portrait_master hs hx hm ha
    obtain ⟨n₀, e, -, hfind₀, hn₀⟩ := exists_master hs hx hm ha
    obtain rfl : n = n₀ := Option.some.inj (hfind.symm.trans hfind₀)
    refine ⟨n, hfind, ?_, fun n' hlo hlt hne => ?_⟩
    · rw [World.timesListed, hperm.count_eq]
      exact List.count_eq_one_of_mem (h.nodup_replicaFaces _)
        (mem_replicaFaces.mpr ⟨y, hy, hfollows, hf⟩)
    · refine List.count_eq_zero.mpr fun hmem => hne ?_
      obtain ⟨r, hr, hface⟩ := List.mem_map.mp hmem
      obtain ⟨node, k, hslave, hwhere⟩ := hs.listed hlo hlt hr
      -- the line of the listed replica is `y`, which names `x`
      obtain ⟨⟨y', hy', hread⟩, -⟩ := mem_acceptedLines.mp hslave.mem
      obtain ⟨e', he', hfollows', rfl⟩ := NodesEntry.read_eq_slave hread
      have hf' : y'.face tcpHost = some f := by
        rw [NodesEntry.face, he', ← hface, face_of_slave hs hslave]
        rfl
      obtain rfl := h.eq_of_addr hy hy' (face_addr hf) (face_addr hf')
      have hid : x.id = k := by
        simp only [NodesEntry.follows, Bool.and_eq_true, decide_eq_true_eq] at hfollows hfollows'
        rw [← hfollows.2, ← hfollows'.2]
      rcases hwhere with ⟨node', fields, hmade, hlabel⟩ | hno
      · exact hs.master_unique hmade hn₀ hslave (hlabel.trans hid.symm)
      · exact absurd hid (hno _ _ hn₀.mem)

/-- The portraits depend on the lines as a set. -/
theorem portrait_eq_of_perm {tcpHost : Bytes} {entries entries' : List NodesEntry}
    {w w₁ w' w₁' : World ω} {scan scan' : NodesScan} (hp : entries.Perm entries')
    (hs : Scanned w w₁ (acceptedLines tcpHost entries) scan)
    (hs' : Scanned w' w₁' (acceptedLines tcpHost entries') scan') (a : Bytes) :
    w₁.portrait scan.nodes a = w₁'.portrait scan'.nodes a := by
  by_cases hex : ∃ x ∈ entries, x.isMaster = true ∧ x.addr tcpHost = some a
  · obtain ⟨x, hx, hm, ha⟩ := hex
    obtain ⟨n, f, hfind, hface, hf, hslots, hperm⟩ := portrait_master hs hx hm ha
    obtain ⟨n', f', hfind', hface', hf', hslots', hperm'⟩ :=
      portrait_master hs' (hp.mem_iff.mp hx) hm ha
    obtain rfl : f = f' := Option.some.inj (hface.symm.trans hface')
    have hlists : (((w₁.slavesOf n).map fun r => (w₁.heap r).face : List Face) : Multiset Face) =
        ((w₁'.slavesOf n').map fun r => (w₁'.heap r).face : List Face) :=
      Multiset.coe_eq_coe.mpr ((hperm.trans (hp.filterMap _)).trans hperm'.symm)
    rw [World.portrait, World.portrait, hfind, hfind', Option.map_some, Option.map_some, hf, hf',
      hslots, hslots', hlists]
  · have hnone : ∀ {v v₁ : World ω} {s : NodesScan} {es : List NodesEntry}, es.Perm entries →
        Scanned v v₁ (acceptedLines tcpHost es) s → s.nodes.find a = none := by
      intro v v₁ s es hes hv
      cases hfind : s.nodes.find a with
      | none => rfl
      | some n =>
        obtain ⟨x, hx, hrest⟩ := exists_entry hv hfind
        exact absurd ⟨x, hes.mem_iff.mp hx, hrest⟩ hex
    rw [World.portrait, World.portrait, hnone (List.Perm.refl _) hs, hnone hp.symm hs']
    rfl

/-- **The order of the lines does not matter.**  Every order is accepted, and gives each
master the same address, ranges and replicas. -/
theorem parseClusterNodes_perm {tcpHost : Bytes} {entries entries' : List NodesEntry}
    (h : Coherent tcpHost entries) (hp : entries.Perm entries') {w w' : World ω}
    (hw : w.cc.addSlave = true) (hw' : w'.cc.addSlave = true) :
    ∃ d d', (parseClusterNodes tcpHost (nodesReply entries) w).1 = some d ∧
      (parseClusterNodes tcpHost (nodesReply entries') w').1 = some d' ∧
      (∀ a, (parseClusterNodes tcpHost (nodesReply entries) w).2.portrait d a =
        (parseClusterNodes tcpHost (nodesReply entries') w').2.portrait d' a) ∧
      Assigned tcpHost entries w.nextNode (parseClusterNodes tcpHost (nodesReply entries) w).2 d ∧
      Assigned tcpHost entries w'.nextNode (parseClusterNodes tcpHost (nodesReply entries') w').2 d' := by
  have h' := h.perm hp
  obtain ⟨scan, hr, hs⟩ := parse_coherent h hw
  obtain ⟨scan', hr', hs'⟩ := parse_coherent h' hw'
  have ha' := h'.assigned hs'
  refine ⟨scan.nodes, scan'.nodes, hr, hr', portrait_eq_of_perm hp hs hs', h.assigned hs, ?_, ?_, ?_⟩
  · intro a n hfind
    obtain ⟨x, hx, hrest⟩ := ha'.only a n hfind
    exact ⟨x, hp.mem_iff.mpr hx, hrest⟩
  · exact fun x hx => ha'.master x (hp.mem_iff.mp hx)
  · exact fun x hx hm a ha y hy => ha'.replica x (hp.mem_iff.mp hx) hm a ha y (hp.mem_iff.mp hy)

/-- The address `a:1`, `a:2` and so on. -/
def oneDigit (d : UInt8) (h : isDigit d = true ∧ 1 ≤ numeral 0 [d]) (hle : numeral 0 [d] ≤ 65535) :
    EndpointText where
  host := ascii "a"
  digits := [d]
  suffix := []
  noNul := by decide
  noAt := by decide
  allDigits := by simpa using h.1
  port_pos := h.2
  port_le := hle
  suffix_eq := Or.inl rfl

def masterEntry : NodesEntry where
  line := ascii "m a:1 master - 0 0 1 c 0"
  endpoint := some (oneDigit 49 (by decide) (by decide))
  noNewline := by decide
  eight := by decide
  address := by decide

def replicaEntry : NodesEntry where
  line := ascii "r a:2 slave m 0 0 1 c"
  endpoint := some (oneDigit 50 (by decide) (by decide))
  noNewline := by decide
  eight := by decide
  address := by decide

/-- A master and its replica, in both orders. -/
theorem parseClusterNodes_perm_two :
    let w : World Unit := { env := (), cc := { addSlave := true } }
    ∃ d d', (parseClusterNodes [] (nodesReply [masterEntry, replicaEntry]) w).1 = some d ∧
      (parseClusterNodes [] (nodesReply [replicaEntry, masterEntry]) w).1 = some d' ∧
      ∀ a, (parseClusterNodes [] (nodesReply [masterEntry, replicaEntry]) w).2.portrait d a =
        (parseClusterNodes [] (nodesReply [replicaEntry, masterEntry]) w).2.portrait d' a := by
  intro w
  have hwf : Coherent [] [masterEntry, replicaEntry] :=
    { ids := by simp only [List.pairwise_cons]; decide
      named := by decide
      addrs := by
        have hm : masterEntry.addr [] = some (ascii "a:1") := by decide
        have hr : replicaEntry.addr [] = some (ascii "a:2") := by decide
        simp only [List.pairwise_cons, List.mem_singleton, forall_eq, hm, hr]
        refine ⟨fun a h h' => ?_, by simp⟩
        rw [← h] at h'
        exact absurd h' (by decide)
      range := ⟨masterEntry, by simp, by decide, by decide, ascii "0", by decide, _,
        .one _ (by decide +kernel) (by decide) (by decide +kernel)⟩ }
  have hflag : w.cc.addSlave = true := rfl
  obtain ⟨d, d', h, h', hsame, -, -⟩ :=
    parseClusterNodes_perm hwf (List.Perm.swap _ _ _) hflag hflag
  exact ⟨d, d', h, h', hsame⟩
