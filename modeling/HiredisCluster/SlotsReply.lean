/-
# What a CLUSTER SLOTS reply says

`parse_cluster_slots` takes one slot region after the other until one is refused.  A region
whose master is known adds its range to that master and is read no further; the first
region of a master creates it, and its replicas when these are asked for.

`surveySlots` says which nodes are created, for which entries of the reply, and which
ranges are accepted; `SlotsScanned` what the nodes look like then.
-/
import HiredisCluster.NodesReply

open Creation Program

variable {ω : Type}

/-! ## Entries and regions -/

/-- A node to be created, with the entry of the reply that describes it. -/
structure SlotsNode where
  entry : Reply
  role : Role
  host : Bytes
  port : ℤ

/-- The address of its node. -/
def SlotsNode.addr (x : SlotsNode) : Bytes := hostPort x.host x.port

/-- The node object. -/
def SlotsNode.node (x : SlotsNode) : Node :=
  { addr := x.addr, host := x.host, port := toUint16 x.port, role := x.role
    slots := if x.role = .master then some [] else none }

/-- A slot region: its range, its master, and what stands behind the master. -/
structure SlotsRegion where
  range : SlotRange
  master : SlotsNode
  rest : List Reply

/-- How an entry is read. -/
def readSlotsNode (tcpHost : Bytes) (role : Role) (entry : Reply) : Except Complaint SlotsNode :=
  match slotsEndpoint tcpHost entry with
  | .error c => .error c
  | .ok (host, port) => .ok ⟨entry, role, host, port⟩

/-- How a region is read. -/
def readSlotsRegion (tcpHost : Bytes) : Reply → Except Complaint SlotsRegion
  | .array (b :: e :: m :: rest) =>
    match slotsRange b e with
    | .error c => .error c
    | .ok range =>
      match readSlotsNode tcpHost .master m with
      | .error c => .error c
      | .ok master => .ok ⟨range, master, rest⟩
  | _ => .error (.other,
      "Command(cluster slots) reply error: first sub_reply is not an array.")

theorem readSlotsRegion_other {tcpHost : Bytes} {region : Reply}
    (h : ∀ b e m rest, region = .array (b :: e :: m :: rest) → False) :
    readSlotsRegion tcpHost region = .error (.other,
      "Command(cluster slots) reply error: first sub_reply is not an array.") := by
  unfold readSlotsRegion
  split
  · exact (h _ _ _ _ rfl).elim
  · rfl

/-- The replicas of a region, up to the first entry that is refused. -/
def surveyReplicas (tcpHost : Bytes) (addSlave : Bool) :
    List Reply → List SlotsNode × Option Complaint
  | [] => ([], none)
  | e :: es =>
    match readSlotsNode tcpHost .slave e with
    | .error c => ([], some c)
    | .ok x =>
      let s := surveyReplicas tcpHost addSlave es
      (if addSlave then x :: s.1 else s.1, s.2)

/-- What has been accepted: the nodes in the order of their creation, and the regions. -/
structure SlotsSurvey where
  made : List SlotsNode := []
  /-- A region with its range and the address of its master. -/
  regions : List (Reply × SlotRange × Bytes) := []

/-- A master with address `a` is known. -/
def SlotsSurvey.knows (s : SlotsSurvey) (a : Bytes) : Bool :=
  s.made.any fun x => x.role = .master && x.addr = a

/-- The ranges of the master with address `a`. -/
def SlotsSurvey.rangesAt (s : SlotsSurvey) (a : Bytes) : List SlotRange :=
  (s.regions.filter fun g => g.2.2 = a).map fun g => g.2.1

/-- Accept one region. -/
def surveyRegion (tcpHost : Bytes) (addSlave : Bool) (s : SlotsSurvey) (region : Reply) :
    SlotsSurvey × Option Complaint :=
  match readSlotsRegion tcpHost region with
  | .error c => (s, some c)
  | .ok g =>
    let regions := s.regions ++ [(region, g.range, g.master.addr)]
    if s.knows g.master.addr then (⟨s.made, regions⟩, none)
    else
      let replicas := surveyReplicas tcpHost addSlave g.rest
      (⟨s.made ++ g.master :: replicas.1, regions⟩, replicas.2)

/-- Accept the regions one after the other. -/
def surveySlots (tcpHost : Bytes) (addSlave : Bool) (s : SlotsSurvey) :
    List Reply → SlotsSurvey × Option Complaint
  | [] => (s, none)
  | region :: rest =>
    match surveyRegion tcpHost addSlave s region with
    | (s', some c) => (s', some c)
    | (s', none) => surveySlots tcpHost addSlave s' rest

/-! ## What the parse has built -/

/-- **The nodes of the accepted entries.** -/
structure SlotsScanned (w₀ w : World ω) (s : SlotsSurvey) (nodes : NodeDict) : Prop where
  world : w = { w₀ with heap := w.heap, nextNode := w₀.nextNode + s.made.length }
  old : ∀ n < w₀.nextNode, w.heap n = w₀.heap n
  filed : ∀ a n, nodes.find a = some n ↔
    ∃ x, MadeFor w₀.nextNode s.made n x ∧ x.role = .master ∧ x.addr = a
  node : ∀ {n x}, MadeFor w₀.nextNode s.made n x → ∃ kids, w.heap n = { x.node with
    slots := if x.role = .master then some (s.rangesAt x.addr) else none, slaves := kids }
  role : ∀ x ∈ s.made, x.role = .master ∨ x.role = .slave
  covered : ∀ g ∈ s.regions, s.knows g.2.2 = true

theorem slotsScanned_empty (w : World ω) : SlotsScanned w w {} HashTable.empty where
  world := rfl
  old _ _ := rfl
  filed a n := by simp [not_madeFor_nil, HashTable.find, HashTable.empty]
  node h := absurd h not_madeFor_nil
  role := by simp
  covered := by simp

theorem SlotsSurvey.knows_iff {s : SlotsSurvey} {a : Bytes} :
    s.knows a = true ↔ ∃ x ∈ s.made, x.role = .master ∧ x.addr = a := by
  simp only [knows, List.any_eq_true, Bool.and_eq_true, decide_eq_true_eq]

theorem SlotsScanned.nextNode {w₀ w : World ω} {s : SlotsSurvey} {nodes : NodeDict}
    (h : SlotsScanned w₀ w s nodes) : w.nextNode = w₀.nextNode + s.made.length := by
  rw [h.world]

theorem SlotsScanned.lt {w₀ w : World ω} {s : SlotsSurvey} {nodes : NodeDict} {n : NodeId}
    {x : SlotsNode} (h : SlotsScanned w₀ w s nodes) (hn : MadeFor w₀.nextNode s.made n x) :
    n < w.nextNode := by
  rw [h.nextNode]
  exact hn.lt

theorem SlotsScanned.knows_iff {w₀ w : World ω} {s : SlotsSurvey} {nodes : NodeDict}
    (h : SlotsScanned w₀ w s nodes) (a : Bytes) : s.knows a = true ↔ nodes.find a ≠ none := by
  rw [SlotsSurvey.knows_iff]
  constructor
  · rintro ⟨x, hx, hrole, ha⟩
    obtain ⟨n, hn⟩ := MadeFor.of_mem w₀.nextNode hx
    rw [(h.filed a n).mpr ⟨x, hn, hrole, ha⟩]
    simp
  · intro hne
    obtain ⟨n, hn⟩ := Option.ne_none_iff_exists'.mp hne
    obtain ⟨x, hmade, hrole, ha⟩ := (h.filed a n).mp hn
    exact ⟨x, hmade.mem, hrole, ha⟩

/-! ## One step -/

theorem SlotsSurvey.rangesAt_concat (made : List SlotsNode) (regions : List (Reply × SlotRange × Bytes))
    (region : Reply) (r : SlotRange) (a b : Bytes) :
    SlotsSurvey.rangesAt ⟨made, regions ++ [(region, r, a)]⟩ b =
      SlotsSurvey.rangesAt ⟨made, regions⟩ b ++ if a = b then [r] else [] := by
  unfold rangesAt
  rw [List.filter_append, List.map_append]
  congr 1
  rw [List.filter_cons]
  by_cases hab : a = b
  · rw [if_pos hab, if_pos (decide_eq_true hab)]
    rfl
  · rw [if_neg hab, if_neg (by simpa using hab)]
    rfl

theorem SlotsSurvey.rangesAt_made (made made' : List SlotsNode)
    (regions : List (Reply × SlotRange × Bytes)) (a : Bytes) :
    SlotsSurvey.rangesAt ⟨made, regions⟩ a = SlotsSurvey.rangesAt ⟨made', regions⟩ a := rfl

section Steps

variable {w₀ w : World ω} {s : SlotsSurvey} {nodes : NodeDict}

/-- A range for a master that is known. -/
theorem SlotsScanned.range (h : SlotsScanned w₀ w s nodes) (region : Reply) (r : SlotRange)
    {a : Bytes} {m : NodeId} (hm : nodes.find a = some m) :
    SlotsScanned w₀ (w.place m { w.heap m with slots := some ((w.heap m).slots.getD [] ++ [r]) })
      ⟨s.made, s.regions ++ [(region, r, a)]⟩ nodes := by
  obtain ⟨y, hy, hyrole, hyaddr⟩ := (h.filed a m).mp hm
  exact
  { world := by
      show w.place m _ = { w₀ with heap := (w.place m _).heap, nextNode := _ }
      conv_lhs => rw [World.place, h.world]
      rfl
    old := by
      intro n hn
      rw [World.place_heap_of_ne _ (Nat.ne_of_lt (Nat.lt_of_lt_of_le hn hy.1)), h.old n hn]
    filed := h.filed
    node := by
      intro n x hx
      obtain ⟨kids, heq⟩ := h.node hx
      by_cases hnm : n = m
      · subst hnm
        obtain rfl := hx.unique hy
        refine ⟨kids, ?_⟩
        rw [World.place_heap_self, heq, SlotsSurvey.rangesAt_concat, if_pos hyaddr.symm, if_pos hyrole,
          if_pos hyrole]
        rfl
      · refine ⟨kids, ?_⟩
        rw [World.place_heap_of_ne _ hnm, heq, SlotsSurvey.rangesAt_concat]
        by_cases hrole : x.role = .master
        · have hne : ¬ a = x.addr := by
            intro hax
            have hfind := (h.filed a n).mpr ⟨x, hx, hrole, hax.symm⟩
            exact hnm (Option.some.inj (hfind.symm.trans hm))
          rw [if_neg hne, List.append_nil]
        · rw [if_neg hrole, if_neg hrole]
    role := h.role
    covered := by
      intro g hg
      rcases List.mem_append.mp hg with hg | hg
      · exact h.covered g hg
      · obtain rfl := List.mem_singleton.mp hg
        exact SlotsSurvey.knows_iff.mpr ⟨y, hy.mem, hyrole, hyaddr⟩ }

/-- A new master, with its first range. -/
theorem SlotsScanned.master (h : SlotsScanned w₀ w s nodes) (region : Reply) (r : SlotRange)
    {x : SlotsNode} (hx : x.role = .master) {nodes' : NodeDict}
    (hadd : nodes.add x.addr w.nextNode = some nodes') :
    SlotsScanned w₀ ((w.creating x.node).place w.nextNode { x.node with slots := some [r] })
      ⟨s.made ++ [x], s.regions ++ [(region, r, x.addr)]⟩ nodes' := by
  have hN := h.nextNode
  have hfree : nodes.find x.addr = none :=
    (HashTable.add_isSome_iff _ _ w.nextNode).mp (by rw [hadd]; rfl)
  have hunknown : s.rangesAt x.addr = [] := by
    unfold SlotsSurvey.rangesAt
    rw [List.map_eq_nil_iff, List.filter_eq_nil_iff]
    intro g hg ha
    have hknown := (h.knows_iff _).mp (h.covered g hg)
    rw [of_decide_eq_true ha] at hknown
    exact hknown hfree
  exact
  { world := by
      show (w.creating x.node).place w.nextNode _ =
        { w₀ with heap := ((w.creating x.node).place w.nextNode _).heap, nextNode := _ }
      rw [List.length_append, List.length_singleton, ← Nat.add_assoc, ← hN]
      conv_lhs => rw [World.place, World.creating]
      conv_rhs => rw [World.place, World.creating]
      rw [h.world]
    old := by
      intro n hn
      have hlt : n < w.nextNode := by omega
      rw [World.place_heap_of_ne _ (Nat.ne_of_lt hlt), w.creating_heap_of_lt _ hlt, h.old n hn]
    filed := by
      intro a n
      rw [HashTable.find_add hadd]
      constructor
      · intro hfind
        split at hfind
        · obtain rfl := Option.some.inj hfind
          exact ⟨x, madeFor_concat.mpr (Or.inr ⟨hN, rfl⟩), hx, (‹_› : a = x.addr).symm⟩
        · obtain ⟨y, hy, hrest⟩ := (h.filed a n).mp hfind
          exact ⟨y, madeFor_concat.mpr (Or.inl hy), hrest⟩
      · rintro ⟨y, hy, hrole, ha⟩
        rcases madeFor_concat.mp hy with hy | ⟨rfl, rfl⟩
        · have hfind := (h.filed a n).mpr ⟨y, hy, hrole, ha⟩
          rw [if_neg]
          · exact hfind
          · rintro rfl
            rw [hfree] at hfind
            cases hfind
        · rw [if_pos ha.symm, hN]
    node := by
      intro n y hy
      rw [SlotsSurvey.rangesAt_concat, SlotsSurvey.rangesAt_made _ s.made]
      rcases madeFor_concat.mp hy with hy | ⟨rfl, rfl⟩
      · have hlt := h.lt hy
        obtain ⟨kids, heq⟩ := h.node hy
        refine ⟨kids, ?_⟩
        rw [World.place_heap_of_ne _ (Nat.ne_of_lt hlt), w.creating_heap_of_lt _ hlt, heq]
        by_cases hrole : y.role = .master
        · have hne : ¬ x.addr = y.addr := by
            intro hax
            have hfind := (h.filed y.addr n).mpr ⟨y, hy, hrole, rfl⟩
            rw [← hax, hfree] at hfind
            cases hfind
          rw [if_neg hne, List.append_nil]
        · rw [if_neg hrole, if_neg hrole]
      · rw [← hN, World.place_heap_self, if_pos rfl, if_pos hx]
        refine ⟨y.node.slaves, ?_⟩
        rw [show SlotsSurvey.rangesAt ⟨s.made, s.regions⟩ y.addr = [] from hunknown]
        rfl
    role := by
      intro y hy
      rcases List.mem_append.mp hy with hy | hy
      · exact h.role y hy
      · obtain rfl := List.mem_singleton.mp hy
        exact Or.inl hx
    covered := by
      intro g hg
      rw [SlotsSurvey.knows_iff]
      rcases List.mem_append.mp hg with hg | hg
      · obtain ⟨y, hy, hrest⟩ := SlotsSurvey.knows_iff.mp (h.covered g hg)
        exact ⟨y, List.mem_append_left _ hy, hrest⟩
      · obtain rfl := List.mem_singleton.mp hg
        exact ⟨x, List.mem_append_right _ (List.mem_singleton_self x), hx, rfl⟩ }

/-- A new replica, in the list of its master. -/
theorem SlotsScanned.replica (h : SlotsScanned w₀ w s nodes) {x : SlotsNode} (hx : x.role = .slave)
    {m : NodeId} {y : SlotsNode} (hm : MadeFor w₀.nextNode s.made m y) (kids : List NodeId) :
    SlotsScanned w₀ ((w.creating x.node).place m { w.heap m with slaves := some kids })
      ⟨s.made ++ [x], s.regions⟩ nodes := by
  have hN := h.nextNode
  have hmlt := h.lt hm
  have hnot : ¬ x.role = .master := by rw [hx]; decide
  exact
  { world := by
      show (w.creating x.node).place m _ =
        { w₀ with heap := ((w.creating x.node).place m _).heap, nextNode := _ }
      rw [List.length_append, List.length_singleton, ← Nat.add_assoc, ← hN]
      conv_lhs => rw [World.place, World.creating]
      conv_rhs => rw [World.place, World.creating]
      rw [h.world]
    old := by
      intro n hn
      have hlt : n < w.nextNode := by omega
      have hne : n ≠ m := Nat.ne_of_lt (Nat.lt_of_lt_of_le hn hm.1)
      rw [World.place_heap_of_ne _ hne, w.creating_heap_of_lt _ hlt, h.old n hn]
    filed := by
      intro a n
      rw [h.filed]
      refine exists_congr fun z => ?_
      rw [madeFor_concat]
      constructor
      · exact fun hz => ⟨Or.inl hz.1, hz.2⟩
      · rintro ⟨hz | ⟨-, rfl⟩, hrole, ha⟩
        · exact ⟨hz, hrole, ha⟩
        · exact absurd hrole hnot
    node := by
      intro n z hz
      rw [SlotsSurvey.rangesAt_made _ s.made]
      rcases madeFor_concat.mp hz with hz | ⟨rfl, rfl⟩
      · have hlt := h.lt hz
        obtain ⟨kids', heq⟩ := h.node hz
        by_cases hnm : n = m
        · subst hnm
          rw [World.place_heap_self, heq]
          exact ⟨some kids, rfl⟩
        · rw [World.place_heap_of_ne _ hnm, w.creating_heap_of_lt _ hlt]
          exact ⟨kids', heq⟩
      · rw [← hN, World.place_heap_of_ne _ (Nat.ne_of_gt hmlt), w.creating_heap_self, if_neg hnot]
        refine ⟨z.node.slaves, ?_⟩
        rw [SlotsNode.node, if_neg hnot]
    role := by
      intro z hz
      rcases List.mem_append.mp hz with hz | hz
      · exact h.role z hz
      · obtain rfl := List.mem_singleton.mp hz
        exact Or.inr hx
    covered := by
      intro g hg
      obtain ⟨z, hz, hrest⟩ := SlotsSurvey.knows_iff.mp (h.covered g hg)
      exact SlotsSurvey.knows_iff.mpr ⟨z, List.mem_append_left _ hz, hrest⟩ }

end Steps

/-! ## All regions -/

theorem readSlotsNode_ok {tcpHost : Bytes} {role : Role} {entry : Reply} {x : SlotsNode}
    (h : readSlotsNode tcpHost role entry = .ok x) :
    slotsEndpoint tcpHost entry = .ok (x.host, x.port) ∧ x.entry = entry ∧ x.role = role := by
  unfold readSlotsNode at h
  split at h
  · cases h
  · rename_i hep
    obtain rfl := Except.ok.inj h
    exact ⟨hep, rfl, rfl⟩

theorem nodeGetWithSlots_eq (host : Bytes) (port : ℤ) (role : Role) (entry : Reply) :
    (nodeGetWithSlots host port role : Prog ω NodeId) =
      newNode (SlotsNode.node ⟨entry, role, host, port⟩) := rfl

theorem parseSlotsReplicas_scanned {w₀ : World ω} {nodes : NodeDict} (tcpHost : Bytes) {m : NodeId}
    (es : List Reply) : ∀ {w : World ω} {s : SlotsSurvey}, SlotsScanned w₀ w s nodes →
      (∃ y, MadeFor w₀.nextNode s.made m y) →
      wp (parseSlotsReplicas tcpHost m es) (fun r w' =>
        r = (surveyReplicas tcpHost w₀.cc.addSlave es).2 ∧
        SlotsScanned w₀ w' ⟨s.made ++ (surveyReplicas tcpHost w₀.cc.addSlave es).1, s.regions⟩ nodes)
        w := by
  induction es with
  | nil =>
    intro w s h _
    refine ⟨rfl, ?_⟩
    rw [surveyReplicas, List.append_nil]
    exact h
  | cons e es ih =>
    intro w s h hm
    have hcc : w.cc.addSlave = w₀.cc.addSlave := by rw [h.world]
    unfold parseSlotsReplicas surveyReplicas readSlotsNode
    cases hep : slotsEndpoint tcpHost e with
    | error c =>
      refine ⟨rfl, ?_⟩
      rw [List.append_nil]
      exact h
    | ok ep =>
      obtain ⟨host, port⟩ := ep
      dsimp only
      rw [wp_bind, wp_get]
      by_cases hflag : w.cc.addSlave = true
      · rw [if_pos hflag, if_pos (hcc ▸ hflag), nodeGetWithSlots_eq host port .slave e, wp_bind,
          wp_newNode_creating, wp_bind, addSlave, wp_modifyNode]
        obtain ⟨y, hy⟩ := hm
        have hlt := h.lt hy
        rw [w.creating_heap_of_lt _ hlt]
        have hstep := h.replica (x := ⟨e, .slave, host, port⟩) rfl hy
          ((w.heap m).slaves.getD [] ++ [w.nextNode])
        refine wp_mono (ih hstep ⟨y, madeFor_concat.mpr (Or.inl hy)⟩) fun r w' hr => ?_
        refine ⟨hr.1, ?_⟩
        have hs := hr.2
        rw [List.append_assoc, List.singleton_append] at hs
        exact hs
      · rw [if_neg hflag, if_neg (hcc ▸ hflag)]
        exact ih h hm

theorem parseSlotsRegion_scanned {w₀ w : World ω} {s : SlotsSurvey} {nodes : NodeDict}
    (tcpHost : Bytes) (region : Reply) (h : SlotsScanned w₀ w s nodes) :
    wp (parseSlotsRegion tcpHost nodes region) (fun r w' =>
      r.2 = (surveyRegion tcpHost w₀.cc.addSlave s region).2 ∧
      SlotsScanned w₀ w' (surveyRegion tcpHost w₀.cc.addSlave s region).1 r.1) w := by
  unfold parseSlotsRegion surveyRegion
  split
  · rename_i b e m rest
    dsimp only [readSlotsRegion]
    cases hrange : slotsRange b e with
    | error c => exact ⟨rfl, h⟩
    | ok r =>
      unfold readSlotsNode
      cases hep : slotsEndpoint tcpHost m with
      | error c => exact ⟨rfl, h⟩
      | ok ep =>
        obtain ⟨host, port⟩ := ep
        dsimp only
        cases hfind : nodes.find (hostPort host port) with
        | some master =>
          rw [if_pos ((h.knows_iff _).mpr (by rw [SlotsNode.addr, hfind]; simp))]
          exact ⟨rfl, h.range _ r hfind⟩
        | none =>
          have hnew : ¬ s.knows (SlotsNode.addr ⟨m, .master, host, port⟩) = true :=
            fun hk => (h.knows_iff _).mp hk hfind
          rw [if_neg hnew]
          dsimp only
          rw [nodeGetWithSlots_eq host port .master m, wp_bind, wp_newNode_creating]
          split
          · rename_i hadd
            have := (HashTable.add_isSome_iff _ _ w.nextNode).mpr hfind
            rw [hadd] at this
            cases this
          · rename_i nodes' hadd
            rw [wp_bind, addSlotRange, wp_modifyNode, wp_bind, w.creating_heap_self]
            have hstep := h.master (.array (b :: e :: m :: rest)) r
              (x := ⟨m, .master, host, port⟩) rfl hadd
            have hN : MadeFor w₀.nextNode (s.made ++ [⟨m, .master, host, port⟩]) w.nextNode
                ⟨m, .master, host, port⟩ := madeFor_concat.mpr (Or.inr ⟨h.nextNode, rfl⟩)
            refine wp_mono (parseSlotsReplicas_scanned tcpHost rest hstep ⟨_, hN⟩) fun res w' hr => ?_
            refine ⟨hr.1, ?_⟩
            have hs := hr.2
            rw [List.append_assoc, List.singleton_append] at hs
            exact hs
  · rename_i hno
    rw [readSlotsRegion_other hno]
    exact ⟨rfl, h⟩

/-- **The regions are accepted one after the other, up to the first that is refused.** -/
theorem parseSlotsRegions_scanned {w₀ : World ω} (tcpHost : Bytes) (regions : List Reply) :
    ∀ {w : World ω} {s : SlotsSurvey} {nodes : NodeDict}, SlotsScanned w₀ w s nodes →
      wp (parseSlotsRegions tcpHost nodes regions) (fun r w' =>
        r.2 = (surveySlots tcpHost w₀.cc.addSlave s regions).2 ∧
        SlotsScanned w₀ w' (surveySlots tcpHost w₀.cc.addSlave s regions).1 r.1) w := by
  induction regions with
  | nil => exact fun h => ⟨rfl, h⟩
  | cons region rest ih =>
    intro w s nodes h
    unfold parseSlotsRegions surveySlots
    rw [wp_bind]
    refine wp_mono (parseSlotsRegion_scanned tcpHost region h) fun r w' hr => ?_
    obtain ⟨nodes', err⟩ := r
    obtain ⟨herr, hs⟩ := hr
    generalize surveyRegion tcpHost w₀.cc.addSlave s region = res at herr hs
    obtain ⟨s', err'⟩ := res
    obtain rfl : err = err' := herr
    cases err with
    | some c => exact ⟨rfl, hs⟩
    | none => exact ih hs

/-- The regions of a reply; an empty or other reply is refused. -/
def slotsRegions : Reply → Option (List Reply)
  | .array (e :: es) => some (e :: es)
  | _ => none

/-- **A reply is accepted when no region is refused.** -/
theorem parseClusterSlots_scanned (tcpHost : Bytes) {reply : Reply} {regions : List Reply}
    (hreply : slotsRegions reply = some regions) (w : World ω) :
    wp (parseClusterSlots tcpHost reply) (fun r w' => ∃ nodes w₁,
      SlotsScanned w w₁ (surveySlots tcpHost w.cc.addSlave {} regions).1 nodes ∧
      match (surveySlots tcpHost w.cc.addSlave {} regions).2 with
      | none => r = some nodes ∧ w' = w₁
      | some c => r = none ∧ w' = (parseFailed nodes c w₁).2) w := by
  unfold slotsRegions at hreply
  split at hreply
  · obtain rfl := Option.some.inj hreply
    unfold parseClusterSlots
    rw [wp_bind]
    refine wp_mono (parseSlotsRegions_scanned tcpHost _ (slotsScanned_empty w)) fun r w₁ hr => ?_
    obtain ⟨nodes, err⟩ := r
    obtain ⟨herr, hs⟩ := hr
    refine ⟨nodes, w₁, hs, ?_⟩
    rw [← show err = _ from herr]
    cases err with
    | none => exact ⟨rfl, rfl⟩
    | some c => exact ⟨rfl, rfl⟩
  · cases hreply

theorem parseClusterSlots_refused (tcpHost : Bytes) {reply : Reply}
    (hreply : slotsRegions reply = none) (w : World ω) :
    (parseClusterSlots tcpHost reply w).1 = none := by
  unfold slotsRegions at hreply
  split at hreply
  · cases hreply
  · rename_i hno
    unfold parseClusterSlots
    split
    · exact (hno _ _ rfl).elim
    · rfl
