/-
# A topology, and the two replies that describe it

A topology is a list of masters with their slot ranges.  A server describes it by an array
with an entry for every range (CLUSTER SLOTS), or by a text with a line for every node
(CLUSTER NODES).  Entries and lines come in any order, and say more than the routing needs:
replicas, slots on the move, bus ports, host names and further flags.

Here it is shown how the parsers read the single entry and the single line.
-/
import HiredisCluster.Assignment
import HiredisCluster.SlotsReply

open Creation Program

/-! ## Topologies -/

/-- A host and a port that can stand in a line.  An empty host is the node that is asked. -/
structure Endpoint where
  host : Bytes
  port : ℕ
  plain : ∀ b ∈ host, b ≠ 0 ∧ b ≠ 10 ∧ b ≠ 32 ∧ b ≠ 64
  port_pos : 1 ≤ port
  port_le : port ≤ 65535

/-- The host that is meant. -/
def Endpoint.hostFor (e : Endpoint) (tcpHost : Bytes) : Bytes :=
  if e.host = [] then tcpHost else e.host

/-- The address that is meant. -/
def Endpoint.addr (e : Endpoint) (tcpHost : Bytes) : Bytes := hostPort (e.hostFor tcpHost) e.port

/-- A master with its slots. -/
structure Master extends Endpoint where
  id : Bytes
  ranges : List SlotRange
  named : id ≠ []
  shown : (ascii ":0").isPrefixOf host = false
  bounded : ∀ r ∈ ranges, r.start ≤ r.stop ∧ r.stop < redisClusterSlots

def Master.slots (m : Master) : List ℕ := m.ranges.flatMap SlotRange.slots

/-- The masters of a cluster, as seen from a connection to `tcpHost`. -/
structure Topology (tcpHost : Bytes) where
  masters : List Master
  ids : masters.Pairwise fun m m' => m.id ≠ m'.id
  addrs : masters.Pairwise fun m m' => m.addr tcpHost ≠ m'.addr tcpHost
  disjoint : (masters.flatMap Master.ranges).Pairwise fun r r' => r.slots.Disjoint r'.slots
  covered : ∃ m ∈ masters, m.ranges ≠ []

/-- Every range, with its master. -/
def Topology.regions {tcpHost : Bytes} (t : Topology tcpHost) : List (Master × SlotRange) :=
  t.masters.flatMap fun m => m.ranges.map fun r => (m, r)

/-- Address, host and port for a slot. -/
def Topology.route {tcpHost : Bytes} (t : Topology tcpHost) (s : ℕ) : Option (Bytes × Bytes × ℕ) :=
  (t.masters.find? fun m => decide (s ∈ m.slots)).map fun m =>
    (m.addr tcpHost, m.hostFor tcpHost, m.port)

/-! ## CLUSTER SLOTS -/

/-- The entry of a node: host, port, and whatever follows. -/
inductive Endpoint.Entry (e : Endpoint) : Reply → Prop
  | named (more : List Reply) : Entry e (.array (.string e.host :: .integer e.port :: more))
  | absent (h : e.host = []) (more : List Reply) :
      Entry e (.array (.nil :: .integer e.port :: more))

/-- The entry of a range: its bounds, its master and any replicas. -/
inductive Master.Region (m : Master) (r : SlotRange) : Reply → Prop
  | mk {master : Reply} {replicas : List Reply} (hm : m.Entry master)
      (hr : ∀ x ∈ replicas, ∃ e : Endpoint, e.Entry x) :
      Region m r (.array (.integer r.start :: .integer r.stop :: master :: replicas))

/-- The elements of a CLUSTER SLOTS reply, in any order. -/
def Topology.SlotsEntries {tcpHost : Bytes} (t : Topology tcpHost) (entries : List Reply) : Prop :=
  ∃ regions, List.Forall₂ (fun p x => Master.Region p.1 p.2 x) t.regions regions ∧
    entries.Perm regions

/-! ## CLUSTER NODES -/

/-- A line of CLUSTER NODES: the id, the address with what may follow its port, the flags, the
fields from the master's id to the link state, and the slots. -/
structure ServerLine where
  id : Bytes
  endpoint : Endpoint
  suffix : Bytes
  flags : Bytes
  middle : List Bytes
  slots : List Bytes
  /-- `@cport`, and maybe a host name -/
  suffix_eq : suffix = [] ∨ ∃ s, suffix = 64 :: s
  middle_length : middle.length = 5
  plain : ∀ f ∈ id :: suffix :: flags :: (middle ++ slots), 10 ∉ f ∧ 32 ∉ f

namespace ServerLine

variable (l : ServerLine)

def address : Bytes := l.endpoint.host ++ 58 :: decimal l.endpoint.port ++ l.suffix

def fields : List Bytes := l.id :: l.address :: l.flags :: (l.middle ++ l.slots)

def text : Bytes := ([32] : Bytes).intercalate l.fields

/-- The flags start with `kind`, maybe after `myself,`. -/
def Flagged (kind : String) : Prop :=
  ∃ more, l.flags = ascii kind ++ more ∨ l.flags = ascii "myself," ++ ascii kind ++ more

end ServerLine

/-- A marker of a slot that is migrating to a node, or being imported from it. -/
inductive MarkerText : Bytes → Prop
  | migrating (slot : ℕ) (id : Bytes) :
      MarkerText (91 :: decimal slot ++ 45 :: 62 :: 45 :: id ++ [93])
  | importing (slot : ℕ) (id : Bytes) :
      MarkerText (91 :: decimal slot ++ 45 :: 60 :: 45 :: id ++ [93])

/-- Slot fields: the ranges in their order, and markers anywhere. -/
inductive SlotsText : List Bytes → List SlotRange → Prop
  | nil : SlotsText [] []
  | range {f : Bytes} {r : SlotRange} {fs : List Bytes} {rs : List SlotRange} (hf : SlotText f r)
      (hfs : SlotsText fs rs) : SlotsText (f :: fs) (r :: rs)
  | marker {f : Bytes} {fs : List Bytes} {rs : List SlotRange} (hf : MarkerText f)
      (hfs : SlotsText fs rs) : SlotsText (f :: fs) rs

/-- A line that describes a master. -/
structure Master.Line (m : Master) (l : ServerLine) : Prop where
  id : l.id = m.id
  endpoint : l.endpoint = m.toEndpoint
  flags : l.Flagged "master"
  slots : SlotsText l.slots m.ranges

/-- The lines of a CLUSTER NODES reply, in any order: one for each master, and any replicas. -/
def Topology.NodesLines {tcpHost : Bytes} (t : Topology tcpHost) (lines : List ServerLine) : Prop :=
  ∃ masters replicas, List.Forall₂ Master.Line t.masters masters ∧
    (∀ l ∈ replicas, l.Flagged "slave") ∧ lines.Perm (masters ++ replicas)

/-- The whole reply: every line ends with a newline. -/
def nodesText (lines : List ServerLine) : Reply := .string (terminated (lines.map ServerLine.text))

/-! ## Reading a line -/

theorem Endpoint.notMem_host (e : Endpoint) {b : UInt8} (hb : b = 0 ∨ b = 10 ∨ b = 32 ∨ b = 64) :
    b ∉ e.host := by
  intro hmem
  obtain ⟨h0, h10, h32, h64⟩ := e.plain b hmem
  rcases hb with rfl | rfl | rfl | rfl
  · exact h0 rfl
  · exact h10 rfl
  · exact h32 rfl
  · exact h64 rfl

namespace ServerLine

variable (l : ServerLine)

theorem notMem_address {b : UInt8} (hb : b = 10 ∨ b = 32) : b ∉ l.address := by
  have hsuffix := l.plain l.suffix (by simp)
  have hdigit : b ∉ decimal l.endpoint.port := by
    intro hmem
    have := isDigit_of_mem_decimal hmem
    rcases hb with rfl | rfl
    · cases this
    · cases this
  rw [address, List.mem_append, List.mem_append, List.mem_cons]
  rintro ((hmem | rfl | hmem) | hmem)
  · exact l.endpoint.notMem_host (by tauto) hmem
  · rcases hb with hb | hb
    · cases hb
    · cases hb
  · exact hdigit hmem
  · rcases hb with rfl | rfl
    · exact hsuffix.1 hmem
    · exact hsuffix.2 hmem

theorem plain_fields : ∀ f ∈ l.fields, 10 ∉ f ∧ 32 ∉ f := by
  intro f hf
  rw [fields, List.mem_cons, List.mem_cons, List.mem_cons] at hf
  rcases hf with rfl | rfl | rfl | hf
  · exact l.plain _ (by simp)
  · exact ⟨l.notMem_address (Or.inl rfl), l.notMem_address (Or.inr rfl)⟩
  · exact l.plain _ (by simp)
  · exact l.plain f (by simp [List.mem_append.mp hf])

theorem text_ne_nil : l.text ≠ [] := by
  rw [text, fields, List.intercalate_cons_cons]
  simp

/-- The fields are found again. -/
theorem split_text : sdssplitlen l.text 32 = l.fields := by
  rw [sdssplitlen, if_neg l.text_ne_nil, text,
    List.splitOn_intercalate 32 (fun f hf => (l.plain_fields f hf).2) (by simp [fields])]

theorem noNewline : 10 ∉ l.text := by
  have hall : ∀ fs : List Bytes, (∀ f ∈ fs, 10 ∉ f) → (10 : UInt8) ∉ ([32] : Bytes).intercalate fs := by
    intro fs
    induction fs with
    | nil => simp
    | cons f fs ih =>
      intro h
      obtain ⟨hf, hfs⟩ := List.forall_mem_cons.mp h
      cases fs with
      | nil => rwa [List.intercalate_singleton]
      | cons f' fs =>
        rw [List.intercalate_cons_cons, List.mem_append, List.mem_append, List.mem_singleton]
        rintro ((hmem | hmem) | hmem)
        · exact hf hmem
        · cases hmem
        · exact ih hfs hmem
  exact hall l.fields fun f hf => (l.plain_fields f hf).1

theorem eight_le : 8 ≤ l.fields.length := by
  have := l.middle_length
  simp only [fields, List.length_cons, List.length_append]
  omega

theorem fields_address : l.fields.getD 1 [] = l.address := rfl

theorem fields_flags : l.fields.getD 2 [] = l.flags := rfl

theorem drop_fields : l.fields.drop 8 = l.slots := by
  show (l.middle ++ l.slots).drop 5 = l.slots
  rw [← l.middle_length, List.drop_left]

/-- Only the host decides whether a line is stepped over. -/
theorem skipped_iff : (ascii ":0").isPrefixOf l.address = (ascii ":0").isPrefixOf l.endpoint.host := by
  have hzero := head?_decimal_ne l.endpoint.port_pos
  have hcolon : ascii ":0" = [58, 48] := by decide
  rw [address, hcolon]
  rcases l.endpoint.host with _ | ⟨b, _ | ⟨b', host⟩⟩
  · obtain ⟨d, ds, hd⟩ := List.exists_cons_of_ne_nil (decimal_ne_nil l.endpoint.port)
    rw [hd] at hzero ⊢
    have hne : ¬ (48 == d) = true := fun h => hzero (by rw [← beq_iff_eq.mp h]; rfl)
    simpa [List.isPrefixOf] using hne
  · simp [List.isPrefixOf]
  · simp [List.isPrefixOf]

/-- The address as the parser takes it apart. -/
def endpointText : EndpointText where
  host := l.endpoint.host
  digits := decimal l.endpoint.port
  suffix := l.suffix
  noNul := l.endpoint.notMem_host (Or.inl rfl)
  noAt := l.endpoint.notMem_host (by tauto)
  allDigits _ hb := isDigit_of_mem_decimal hb
  port_pos := by
    rw [numeral_decimal]
    exact l.endpoint.port_pos
  port_le := by
    rw [numeral_decimal]
    exact l.endpoint.port_le
  suffix_eq := l.suffix_eq

theorem addr_endpointText (tcpHost : Bytes) :
    l.endpointText.addr tcpHost = l.endpoint.addr tcpHost := by
  have hport : l.endpointText.port = l.endpoint.port := numeral_decimal _
  unfold EndpointText.addr Endpoint.addr Endpoint.hostFor
  rw [hport]
  show (if l.endpoint.host = [] then _ else l.endpoint.host ++ 58 :: decimal l.endpoint.port) = _
  split
  · rfl
  · rfl

/-- The node of a line. -/
theorem nodeOfFields_fields (tcpHost : Bytes) (role : Role) :
    nodeOfFields tcpHost l.fields role = .ok
      { name := some l.id, addr := l.endpoint.addr tcpHost, host := l.endpoint.hostFor tcpHost
        port := l.endpoint.port, role, slots := if role = .master then some [] else none } := by
  have hport : l.endpointText.port = l.endpoint.port := numeral_decimal _
  have hfield : l.fields.getD 1 [] = l.endpointText.text := rfl
  rw [l.endpointText.nodeOfFields_text tcpHost hfield role, hport, addr_endpointText]
  rfl

variable {l}

/-- Without `myself,` the flags are the kind and what follows. -/
theorem Flagged.role {kind : String} (h : l.Flagged kind)
    (hkind : ∀ more, (ascii "myself,").isPrefixOf (ascii kind ++ more) = false) :
    ∃ more, roleField l.flags = ascii kind ++ more := by
  obtain ⟨more, h | h⟩ := h
  · refine ⟨more, ?_⟩
    rw [h, roleField, hkind more]
    rfl
  · refine ⟨more, ?_⟩
    rw [h, List.append_assoc, roleField, if_pos (List.isPrefixOf_iff_prefix.mpr ⟨_, rfl⟩)]
    exact List.drop_left' rfl

end ServerLine

/-- Three parts and more are no range. -/
theorem slotField_of_marker {f : Bytes} (h : MarkerText f) : slotField f = none := by
  have hparts : ∀ (a b c : Bytes), slotField (a ++ 45 :: (b ++ 45 :: c)) = none := by
    intro a b c
    have hne : a ++ 45 :: (b ++ 45 :: c) ≠ [] := by simp
    have hpos : ∀ x : Bytes, 1 ≤ (x.splitOn 45).length := fun x =>
      List.length_pos_iff.mpr (List.splitOn_ne_nil 45 x)
    have hlen : 3 ≤ ((a ++ 45 :: (b ++ 45 :: c)).splitOn 45).length := by
      rw [List.splitOn_append_cons_self, List.splitOn_append_cons_self, List.length_append,
        List.length_append]
      have := hpos a
      have := hpos b
      have := hpos c
      omega
    have hbounds : slotBounds ((a ++ 45 :: (b ++ 45 :: c)).splitOn 45) = (-1, -1) := by
      generalize (a ++ 45 :: (b ++ 45 :: c)).splitOn 45 = parts at hlen
      unfold slotBounds
      split
      · simp at hlen
      · simp at hlen
      · rfl
    rw [slotField, sdssplitlen, if_neg hne, hbounds]
    rfl
  cases h with
  | migrating slot id =>
    have h := hparts (91 :: decimal slot) [62] (id ++ [93])
    simpa using h
  | importing slot id =>
    have h := hparts (91 :: decimal slot) [60] (id ++ [93])
    simpa using h

/-- The markers are stepped over. -/
theorem slotFields_of_text {fs : List Bytes} {rs : List SlotRange} (h : SlotsText fs rs) :
    slotFields fs = rs := by
  induction h with
  | nil => rfl
  | range hf _ ih =>
    rw [slotFields, List.filterMap_cons_some (slotField_of_text hf), ← slotFields, ih]
  | marker hf _ ih =>
    rw [slotFields, List.filterMap_cons_none (slotField_of_marker hf), ← slotFields, ih]

/-- The node that is made for a master line. -/
def Master.node (m : Master) (tcpHost : Bytes) : Node :=
  { name := some m.id, addr := m.addr tcpHost, host := m.hostFor tcpHost, port := m.port
    role := .master, slots := some [] }

/-- **The line of a master is read as it is meant.** -/
theorem Master.Line.read {m : Master} {l : ServerLine} (h : m.Line l) (tcpHost : Bytes)
    (addSlave : Bool) :
    readNodesLine tcpHost addSlave l.text = .master (m.node tcpHost) l.slots := by
  obtain ⟨more, hrole⟩ := h.flags.role fun more => rfl
  have hshown : ¬ (ascii ":0").isPrefixOf l.address = true := by
    rw [l.skipped_iff, h.endpoint, m.shown]
    exact Bool.false_ne_true
  have hmaster : (ascii "master").isPrefixOf (roleField l.flags) = true := by
    rw [hrole]
    exact List.isPrefixOf_iff_prefix.mpr ⟨more, rfl⟩
  unfold readNodesLine
  rw [l.split_text]
  dsimp only
  rw [l.fields_address, l.fields_flags, if_neg (Nat.not_lt.mpr l.eight_le), if_neg hshown,
    if_pos hmaster, l.nodeOfFields_fields, l.drop_fields, h.id, h.endpoint]
  rfl

/-- The line of a replica is accepted, and makes no master. -/
theorem ServerLine.Flagged.read {l : ServerLine} (h : l.Flagged "slave") (tcpHost : Bytes)
    (addSlave : Bool) : (∀ c node, readNodesLine tcpHost addSlave l.text ≠ .bad c node) ∧
      ∀ node fields, readNodesLine tcpHost addSlave l.text ≠ .master node fields := by
  obtain ⟨more, hrole⟩ := h.role fun more => rfl
  have hnot : ¬ (ascii "master").isPrefixOf (roleField l.flags) = true := by
    rw [hrole]
    exact Bool.false_ne_true
  unfold readNodesLine
  rw [l.split_text]
  dsimp only
  rw [l.fields_address, l.fields_flags, if_neg (Nat.not_lt.mpr l.eight_le), if_neg hnot]
  split
  · simp
  · split
    · rw [l.nodeOfFields_fields]
      simp
    · simp

/-! ## Reading an entry -/

/-- The number of a slot survives the conversions. -/
theorem toUint32_slot {s : ℕ} (h : s < redisClusterSlots) : toUint32 (toInt32 (s : ℤ)) = s := by
  have hlt : s < 16384 := h
  rw [toInt32_of_lt (by omega), toUint32]
  omega

theorem Endpoint.Entry.read {e : Endpoint} {x : Reply} (h : e.Entry x) (tcpHost : Bytes) :
    slotsEndpoint tcpHost x = .ok (e.hostFor tcpHost, (e.port : ℤ)) := by
  have hpos := e.port_pos
  have hle := e.port_le
  have hport : toInt32 (e.port : ℤ) = e.port := toInt32_of_lt (by omega)
  have hvalid : hiValidPort (e.port : ℤ) = true := by
    simp only [hiValidPort, Bool.and_eq_true, decide_eq_true_eq]
    omega
  cases h with
  | named more =>
    have hhost : slotsHost tcpHost (.string e.host) = some (e.hostFor tcpHost) := by
      rw [slotsHost, cstr_of_noNul (e.notMem_host (Or.inl rfl)), Endpoint.hostFor]
      by_cases hnil : e.host = []
      · rw [if_pos hnil, hnil]
        rfl
      · rw [if_neg hnil, if_pos (List.length_pos_iff.mpr hnil)]
    unfold slotsEndpoint
    simp only [hhost, hport, hvalid, if_true]
  | absent hnil more =>
    have hhost : slotsHost tcpHost .nil = some (e.hostFor tcpHost) := by
      rw [slotsHost, Endpoint.hostFor, if_pos hnil]
    unfold slotsEndpoint
    simp only [hhost, hport, hvalid, if_true]

/-- The replicas of an entry are accepted. -/
theorem surveyReplicas_accepted {replicas : List Reply} (h : ∀ x ∈ replicas, ∃ e : Endpoint, e.Entry x)
    (tcpHost : Bytes) (addSlave : Bool) : (surveyReplicas tcpHost addSlave replicas).2 = none := by
  induction replicas with
  | nil => rfl
  | cons x xs ih =>
    obtain ⟨⟨e, he⟩, hxs⟩ := List.forall_mem_cons.mp h
    unfold surveyReplicas readSlotsNode
    rw [he.read tcpHost]
    exact ih hxs

theorem slotsRange_read {r : SlotRange} (hr : r.start ≤ r.stop ∧ r.stop < redisClusterSlots) :
    slotsRange (.integer (r.start : ℤ)) (.integer (r.stop : ℤ)) = .ok r := by
  have hstart : r.start < redisClusterSlots := Nat.lt_of_le_of_lt hr.1 hr.2
  have hle : ¬ r.start > r.stop := Nat.not_lt.mpr hr.1
  simp only [slotsRange, toUint32_slot hstart, toUint32_slot hr.2, if_neg hle]

/-- The slot region that an entry for range `r` of master `m` is read as. -/
def Master.region (m : Master) (r : SlotRange) (tcpHost : Bytes) (entry : Reply)
    (rest : List Reply) : SlotsRegion :=
  ⟨r, ⟨entry, .master, m.hostFor tcpHost, m.port⟩, rest⟩

theorem readSlotsRegion_eq {m : Master} {r : SlotRange} {b e master : Reply} {tcpHost : Bytes}
    (hrange : slotsRange b e = .ok r)
    (hmaster : slotsEndpoint tcpHost master = .ok (m.hostFor tcpHost, (m.port : ℤ)))
    (rest : List Reply) : readSlotsRegion tcpHost (.array (b :: e :: master :: rest)) =
      .ok (m.region r tcpHost master rest) := by
  unfold readSlotsRegion
  simp only [hrange, readSlotsNode, hmaster, Master.region]

/-- **The entry of a range is read as it is meant.** -/
theorem Master.Region.read {m : Master} {r : SlotRange} {x : Reply} (h : m.Region r x)
    (hr : r.start ≤ r.stop ∧ r.stop < redisClusterSlots) (tcpHost : Bytes) (addSlave : Bool) :
    ∃ entry rest, readSlotsRegion tcpHost x = .ok (m.region r tcpHost entry rest) ∧
      (surveyReplicas tcpHost addSlave rest).2 = none := by
  cases h with
  | @mk master replicas hm hreplicas =>
    exact ⟨master, replicas, readSlotsRegion_eq (slotsRange_read hr) (hm.read tcpHost) replicas,
      surveyReplicas_accepted hreplicas tcpHost addSlave⟩
