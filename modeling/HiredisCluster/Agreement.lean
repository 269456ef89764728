/-
# CLUSTER SLOTS and CLUSTER NODES give the same routing

Whichever reply describes a topology, and in whichever order, the parser builds a set of
masters that stands for the topology (`Represents`), and installing that set gives a table
that leads every slot to the address of its master, and the other slots nowhere.
-/
import HiredisCluster.Lib.Matching
import HiredisCluster.Rendering

open Creation Matching Program

variable {ω : Type} {tcpHost : Bytes}

/-! ## Topologies -/

namespace Topology

variable (t : Topology tcpHost)

/-- Two masters with one address are one master. -/
theorem eq_of_addr {m m' : Master} (hm : m ∈ t.masters) (hm' : m' ∈ t.masters)
    (ha : m.addr tcpHost = m'.addr tcpHost) : m = m' := by
  by_contra hne
  have : Std.Symm fun m m' : Master => m.addr tcpHost ≠ m'.addr tcpHost := ⟨fun m m' h => h.symm⟩
  exact t.addrs.forall hm hm' hne ha

/-- A slot has one master. -/
theorem eq_of_slot {m m' : Master} (hm : m ∈ t.masters) (hm' : m' ∈ t.masters) {s : ℕ}
    (hs : s ∈ m.slots) (hs' : s ∈ m'.slots) : m = m' := by
  by_contra hne
  have : Std.Symm fun m m' : Master =>
      ∀ r ∈ m.ranges, ∀ r' ∈ m'.ranges, r.slots.Disjoint r'.slots :=
    ⟨fun m m' h r hr r' hr' s hs hs' => h r' hr' r hr hs' hs⟩
  obtain ⟨r, hr, hsr⟩ := List.mem_flatMap.mp hs
  obtain ⟨r', hr', hsr'⟩ := List.mem_flatMap.mp hs'
  exact (List.pairwise_flatMap.mp t.disjoint).2.forall hm hm' hne r hr r' hr' hsr hsr'

theorem nodup_slots {m : Master} (hm : m ∈ t.masters) : m.slots.Nodup :=
  List.nodup_flatMap.mpr ⟨fun _ _ => List.nodup_range', (List.pairwise_flatMap.mp t.disjoint).1 m hm⟩

theorem mem_regions {m : Master} {r : SlotRange} :
    (m, r) ∈ t.regions ↔ m ∈ t.masters ∧ r ∈ m.ranges := by
  simp only [regions, List.mem_flatMap, List.mem_map, Prod.mk.injEq]
  constructor
  · rintro ⟨m', hm, r', hr, rfl, rfl⟩
    exact ⟨hm, hr⟩
  · rintro ⟨hm, hr⟩
    exact ⟨m, hm, r, hr, rfl, rfl⟩

/-- The ranges at an address are those of its master. -/
theorem rangesAt_eq {m : Master} (hm : m ∈ t.masters) :
    (t.regions.filter fun p => p.1.addr tcpHost = m.addr tcpHost).map Prod.snd = m.ranges := by
  have hown : ∀ ms : List Master, (ms.flatMap fun m' => m'.ranges.map fun r => (m', r)).filter
      (fun p => p.1.addr tcpHost = m.addr tcpHost) = (ms.filter fun m' =>
        m'.addr tcpHost = m.addr tcpHost).flatMap fun m' => m'.ranges.map fun r => (m', r) := by
    intro ms
    induction ms with
    | nil => rfl
    | cons m' ms ih =>
      rw [List.flatMap_cons, List.filter_append, ih, List.filter_map, List.filter_cons]
      by_cases heq : m'.addr tcpHost = m.addr tcpHost
      · simp [heq, Function.comp_def]
      · simp [heq, Function.comp_def]
  have hone : t.masters.filter (fun m' => m'.addr tcpHost = m.addr tcpHost) = [m] := by
    obtain ⟨l₁, l₂, hsplit⟩ := List.append_of_mem hm
    have haddrs := t.addrs
    rw [hsplit] at haddrs ⊢
    obtain ⟨-, h₂, h₁⟩ := List.pairwise_append.mp haddrs
    have hbefore : l₁.filter (fun m' => m'.addr tcpHost = m.addr tcpHost) = [] :=
      List.filter_eq_nil_iff.mpr fun m' hm' => by
        simpa using h₁ m' hm' m List.mem_cons_self
    have hafter : l₂.filter (fun m' => m'.addr tcpHost = m.addr tcpHost) = [] :=
      List.filter_eq_nil_iff.mpr fun m' hm' => by
        simpa using ((List.pairwise_cons.mp h₂).1 m' hm').symm
    rw [List.filter_append, List.filter_cons, hbefore, hafter]
    simp
  rw [regions, hown, hone]
  simp

end Topology

/-! ## Node sets -/

/-- A dictionary of nodes stands for a topology.  Masters without slots may be missing. -/
structure Represents (t : Topology tcpHost) (heap : NodeId → Node) (d : NodeDict) : Prop where
  master : ∀ a n, d.find a = some n → ∃ m ∈ t.masters, a = m.addr tcpHost ∧
    (heap n).role = .master ∧ (heap n).endpoint = (m.addr tcpHost, m.hostFor tcpHost, m.port) ∧
    ((heap n).slots.getD []).Perm m.ranges
  filed : ∀ m ∈ t.masters, m.ranges ≠ [] → d.find (m.addr tcpHost) ≠ none

section Represents

variable {t : Topology tcpHost} {heap : NodeId → Node} {d : NodeDict} (h : Represents t heap d)

include h

/-- A node holds the slots of its master. -/
theorem Represents.slotsHeld {a : Bytes} {n : NodeId} (hn : d.find a = some n) :
    ∃ m ∈ t.masters, a = m.addr tcpHost ∧
      (heap n).endpoint = (m.addr tcpHost, m.hostFor tcpHost, m.port) ∧
      (heap n).slotsHeld.Perm m.slots := by
  obtain ⟨m, hm, ha, -, hend, hslots⟩ := h.master a n hn
  exact ⟨m, hm, ha, hend, hslots.flatMap_right _⟩

/-- **There is a table for the set.** -/
theorem Represents.fillable : Fillable heap d.vals where
  masters n hn := by
    obtain ⟨a, ha⟩ := (d.mem_vals_iff n).mp hn
    obtain ⟨m, -, -, hrole, -⟩ := h.master a n ha
    exact hrole
  ranges n hn r hr := by
    obtain ⟨a, ha⟩ := (d.mem_vals_iff n).mp hn
    obtain ⟨m, -, -, -, -, hslots⟩ := h.master a n ha
    exact m.bounded r (hslots.mem_iff.mp hr)
  once := by
    have hkeys : d.vals.Nodup := d.nodup_vals (fun n => (heap n).addr) fun a n hmem => by
      obtain ⟨m, -, ha, -, hend, -⟩ := h.master a n ((d.find_eq_some_iff a n).mpr hmem)
      rw [ha]
      exact congrArg Prod.fst hend
    refine List.nodup_flatMap.mpr ⟨fun n hn => ?_, hkeys.imp_of_mem fun {n n'} hn hn' hne => ?_⟩
    · obtain ⟨a, ha⟩ := (d.mem_vals_iff n).mp hn
      obtain ⟨m, hm, -, -, hheld⟩ := h.slotsHeld ha
      exact hheld.nodup_iff.mpr (t.nodup_slots hm)
    · obtain ⟨a, ha⟩ := (d.mem_vals_iff n).mp hn
      obtain ⟨a', ha'⟩ := (d.mem_vals_iff n').mp hn'
      obtain ⟨m, hm, rfl, -, hheld⟩ := h.slotsHeld ha
      obtain ⟨m', hm', rfl, -, hheld'⟩ := h.slotsHeld ha'
      refine List.disjoint_left.mpr fun s hs hs' => hne ?_
      obtain rfl := t.eq_of_slot hm hm' (hheld.mem_iff.mp hs) (hheld'.mem_iff.mp hs')
      exact Option.some.inj (ha.symm.trans ha')

/-- The table leads where the topology says. -/
theorem Represents.route_eq {table : SlotTable}
    (ht : ∀ s n, table s = some n ↔ n ∈ d.vals ∧ s ∈ (heap n).slotsHeld) (s : ℕ) :
    (table s).map (fun n => (heap n).endpoint) = t.route s := by
  have howner : ∀ m ∈ t.masters, s ∈ m.slots →
      t.route s = some (m.addr tcpHost, m.hostFor tcpHost, m.port) := by
    intro m hm hs
    obtain ⟨m', hfind⟩ := Option.isSome_iff_exists.mp
      (List.find?_isSome.mpr ⟨m, hm, decide_eq_true hs⟩ :
        (t.masters.find? fun m => decide (s ∈ m.slots)).isSome = true)
    have hfound : decide (s ∈ m'.slots) = true := by simpa using List.find?_some hfind
    have hs' : s ∈ m'.slots := of_decide_eq_true hfound
    obtain rfl := t.eq_of_slot hm (List.mem_of_find?_eq_some hfind) hs hs'
    rw [Topology.route, hfind]
    rfl
  cases hts : table s with
  | some n =>
    obtain ⟨hn, hs⟩ := (ht s n).mp hts
    obtain ⟨a, ha⟩ := (d.mem_vals_iff n).mp hn
    obtain ⟨m, hm, -, hend, hheld⟩ := h.slotsHeld ha
    rw [howner m hm (hheld.mem_iff.mp hs), Option.map_some, hend]
  | none =>
    symm
    rw [Topology.route, Option.map_none, Option.map_eq_none_iff, List.find?_eq_none]
    intro m hm hs
    have hs : s ∈ m.slots := of_decide_eq_true hs
    have hne : m.ranges ≠ [] := by
      intro hnil
      rw [Master.slots, hnil] at hs
      cases hs
    obtain ⟨n, hn⟩ := Option.ne_none_iff_exists'.mp (h.filed m hm hne)
    obtain ⟨m', hm', ha, -, hheld⟩ := h.slotsHeld hn
    obtain rfl := t.eq_of_addr hm hm' ha
    have hsome := (ht s n).mpr ⟨(d.mem_vals_iff n).mpr ⟨_, hn⟩, hheld.mem_iff.mpr hs⟩
    rw [hts] at hsome
    cases hsome

end Represents

/-! ## Installing -/

/-- Where a slot leads: address, host and port of its node. -/
def World.routeOf (w : World ω) (s : ℕ) : Option (Bytes × Bytes × ℕ) :=
  (w.cc.table.bind fun table => table s).map fun n => (w.heap n).endpoint

/-- The slot table of a context leads where a topology says. -/
def World.RoutesBy (w : World ω) (t : Topology tcpHost) : Prop :=
  w.cc.table.isSome = true ∧ ∀ s, w.routeOf s = t.route s

/-- **A set that stands for a topology is installed.** -/
theorem updateNodesAndSlotmap_represents {t : Topology tcpHost} {d : NodeDict} {w : World ω}
    (h : Represents t w.heap d) :
    wp (updateNodesAndSlotmap (some d)) (fun r w' => r = .ok ∧ w'.RoutesBy t) w := by
  obtain ⟨table, hfill⟩ := h.fillable.exists_table
  have hroute := h.route_eq (fillTable_eq_ok_iff.mp hfill).2
  have hinstalled : ∀ w' : World ω, w'.cc.table = some table →
      (∀ n, (w'.heap n).endpoint = (w.heap n).endpoint) → w'.RoutesBy t := by
    intro w' ht hend
    refine ⟨by rw [ht]; rfl, fun s => ?_⟩
    rw [← hroute s, World.routeOf, ht]
    simp only [Option.bind_some, hend]
  have hinstall : wp (installNodes d) (fun r w' => r = .ok ∧ w'.cc.table = some table ∧
      ∀ n, (w'.heap n).endpoint = (w.heap n).endpoint) w := by
    unfold installNodes
    rw [wp_bind, wp_get, hfill]
    dsimp only
    rw [wp_bind, wp_modifyCc]
    cases w.cc.nodes with
    | none => exact ⟨rfl, rfl, fun _ => rfl⟩
    | some old =>
      dsimp only
      rw [wp_bind]
      refine wp_mono (Within.wp (swapped_clusterNodesSwapCtx old d.vals) _) fun _ w₁ hs => ?_
      rw [wp_bind, wp_modifyCc, wp_bind, wp_dictRelease, wp_pure]
      exact ⟨rfl, congrArg Context.table hs.cc, hs.endpoint⟩
  unfold updateNodesAndSlotmap
  dsimp only
  rw [wp_bind]
  refine wp_mono hinstall fun r w₁ h₁ => ?_
  obtain ⟨rfl, ht, hend⟩ := h₁
  dsimp only
  rw [wp_bind]
  exact ⟨rfl, hinstalled _ ht hend⟩

/-! ## The set that CLUSTER SLOTS gives -/

theorem surveyReplicas_role (tcpHost : Bytes) (addSlave : Bool) (es : List Reply) :
    ∀ x ∈ (surveyReplicas tcpHost addSlave es).1, x.role = .slave := by
  induction es with
  | nil => exact fun x hx => by cases hx
  | cons e es ih =>
    unfold surveyReplicas
    cases hread : readSlotsNode tcpHost .slave e with
    | error c => exact fun x hx => by cases hx
    | ok y =>
      intro x hx
      dsimp only at hx
      split at hx
      · rcases List.mem_cons.mp hx with rfl | hx
        · exact (readSlotsNode_ok hread).2.2
        · exact ih x hx
      · exact ih x hx

/-- The entry of a range adds the range to its master, and at most that master. -/
theorem surveyRegion_read (tcpHost : Bytes) {m : Master} {r : SlotRange} {x : Reply} (h : m.Region r x)
    (hr : r.start ≤ r.stop ∧ r.stop < redisClusterSlots) (addSlave : Bool) (s : SlotsSurvey) :
    ∃ s', surveyRegion tcpHost addSlave s x = (s', none) ∧
      s'.regions.map Prod.snd = s.regions.map Prod.snd ++ [(r, m.addr tcpHost)] ∧
      ∀ y ∈ s'.made, y.role = .master →
        y ∈ s.made ∨ y.host = m.hostFor tcpHost ∧ y.port = m.port := by
  obtain ⟨entry, rest, hread, hrest⟩ := h.read hr tcpHost addSlave
  have hregions : ∀ (rs : List (Reply × SlotRange × Bytes)),
      (rs ++ [(x, r, m.addr tcpHost)]).map Prod.snd = rs.map Prod.snd ++ [(r, m.addr tcpHost)] :=
    fun rs => List.map_append
  unfold surveyRegion
  rw [hread]
  dsimp only
  split
  · exact ⟨_, rfl, hregions _, fun y hy _ => Or.inl hy⟩
  · refine ⟨_, congrArg (Prod.mk _) hrest, hregions _, fun y hy hrole => ?_⟩
    rcases List.mem_append.mp hy with hy | hy
    · exact Or.inl hy
    · rcases List.mem_cons.mp hy with rfl | hy
      · exact Or.inr ⟨rfl, rfl⟩
      · cases hrole.symm.trans (surveyReplicas_role tcpHost addSlave rest y hy)

/-- **All entries are accepted.** -/
theorem surveySlots_read (tcpHost : Bytes) {ps : List (Master × SlotRange)} {es : List Reply}
    (h : List.Forall₂ (fun p x => Master.Region p.1 p.2 x) ps es)
    (hps : ∀ p ∈ ps, p.2.start ≤ p.2.stop ∧ p.2.stop < redisClusterSlots) (addSlave : Bool) :
    ∀ s, ∃ s', surveySlots tcpHost addSlave s es = (s', none) ∧
      s'.regions.map Prod.snd =
        s.regions.map Prod.snd ++ ps.map (fun p => (p.2, p.1.addr tcpHost)) ∧
      ∀ y ∈ s'.made, y.role = .master →
        y ∈ s.made ∨ ∃ p ∈ ps, y.host = p.1.hostFor tcpHost ∧ y.port = p.1.port := by
  induction h with
  | nil => exact fun s => ⟨s, rfl, by simp, fun y hy _ => Or.inl hy⟩
  | @cons p x ps es hx _ ih =>
    intro s
    obtain ⟨hp, hps⟩ := List.forall_mem_cons.mp hps
    obtain ⟨s₁, hs₁, hregions₁, hmade₁⟩ := surveyRegion_read tcpHost hx hp addSlave s
    obtain ⟨s₂, hs₂, hregions₂, hmade₂⟩ := ih hps s₁
    refine ⟨s₂, ?_, ?_, fun y hy hrole => ?_⟩
    · rw [surveySlots, hs₁]
      exact hs₂
    · rw [hregions₂, hregions₁, List.append_assoc, List.map_cons, List.singleton_append]
    · rcases hmade₂ y hy hrole with hy | ⟨q, hq, hy⟩
      · rcases hmade₁ y hy hrole with hy | hy
        · exact Or.inl hy
        · exact Or.inr ⟨p, List.mem_cons_self, hy⟩
      · exact Or.inr ⟨q, List.mem_cons_of_mem _ hq, hy⟩

theorem SlotsSurvey.rangesAt_eq (s : SlotsSurvey) (a : Bytes) :
    s.rangesAt a = ((s.regions.map Prod.snd).filter fun g => g.2 = a).map Prod.fst := by
  rw [rangesAt, List.filter_map, List.map_map]
  rfl

/-- **CLUSTER SLOTS gives a set that stands for the topology.** -/
theorem parseClusterSlots_represents (t : Topology tcpHost) {entries : List Reply}
    (h : t.SlotsEntries entries) (w : World ω) :
    wp (parseClusterSlots tcpHost (.array entries))
      (fun r w' => ∃ d, r = some d ∧ Represents t w'.heap d) w := by
  obtain ⟨regions, hregions, hperm⟩ := h
  obtain ⟨ps, hps, hread⟩ := exists_perm hregions hperm
  have hmem : ∀ {m : Master} {r : SlotRange}, (m, r) ∈ ps ↔ m ∈ t.masters ∧ r ∈ m.ranges :=
    hps.mem_iff.trans (t.mem_regions)
  obtain ⟨s, hs, hranges, hmade⟩ := surveySlots_read tcpHost hread
    (fun p hp => p.1.bounded p.2 (hmem.mp hp).2) w.cc.addSlave {}
  have hne : slotsRegions (.array entries) = some entries := by
    obtain ⟨m, hm, hne⟩ := t.covered
    obtain ⟨r, hr⟩ := List.exists_mem_of_ne_nil _ hne
    obtain ⟨x, hx, -⟩ := exists_right hread (hmem.mpr ⟨hm, hr⟩)
    cases entries with
    | nil => cases hx
    | cons e es => rfl
  refine wp_mono (parseClusterSlots_scanned tcpHost hne w) fun r w' h' => ?_
  obtain ⟨d, w₁, hscan, hres⟩ := h'
  rw [hs] at hscan hres
  obtain ⟨rfl, rfl⟩ := hres
  have hat : ∀ m ∈ t.masters, (s.rangesAt (m.addr tcpHost)).Perm m.ranges := by
    intro m hm
    have hfilter : s.rangesAt (m.addr tcpHost) =
        (ps.filter fun p => p.1.addr tcpHost = m.addr tcpHost).map Prod.snd := by
      rw [s.rangesAt_eq, hranges, List.map_nil, List.nil_append, List.filter_map, List.map_map]
      rfl
    rw [hfilter, ← t.rangesAt_eq hm]
    exact (hps.filter _).map _
  refine ⟨d, rfl, fun a n hfind => ?_, fun m hm hne => ?_⟩
  · obtain ⟨x, hx, hrole, rfl⟩ := (hscan.filed a n).mp hfind
    obtain ⟨kids, hnode⟩ := hscan.node hx
    rcases hmade x hx.mem hrole with hx' | ⟨p, hp, hhost, hport⟩
    · cases hx'
    · have haddr : x.addr = p.1.addr tcpHost := by rw [SlotsNode.addr, hhost, hport]; rfl
      have hport' : toUint16 (p.1.port : ℤ) = p.1.port := by
        have := p.1.port_le
        rw [toUint16]
        omega
      have hm := (hmem.mp hp).1
      refine ⟨p.1, hm, haddr, ?_, ?_, ?_⟩
      · rw [hnode]
        exact hrole
      · rw [hnode, ← haddr, ← hhost, ← hport']
        show (x.addr, x.host, toUint16 x.port) = _
        rw [hport]
      · rw [hnode]
        dsimp only
        rw [if_pos hrole, Option.getD_some, haddr]
        exact hat p.1 hm
  · obtain ⟨r, hr⟩ := List.exists_mem_of_ne_nil _ hne
    have hregion : (r, m.addr tcpHost) ∈ s.regions.map Prod.snd := by
      rw [hranges]
      exact List.mem_append_right _ (List.mem_map_of_mem
        (f := fun p : Master × SlotRange => (p.2, p.1.addr tcpHost)) (hmem.mpr ⟨hm, hr⟩))
    obtain ⟨g, hg, hgr⟩ := List.mem_map.mp hregion
    have hknown := hscan.covered g hg
    rw [hgr] at hknown
    exact (hscan.knows_iff _).mp hknown

/-! ## The set that CLUSTER NODES gives -/

/-- A line as the parser reads it. -/
def ServerLine.read (tcpHost : Bytes) (addSlave : Bool) (l : ServerLine) : NodesLine :=
  readNodesLine tcpHost addSlave l.text

theorem readNodesReply_text (tcpHost : Bytes) (addSlave : Bool) (lines : List ServerLine) :
    readNodesReply tcpHost addSlave (nodesText lines) = lines.map (·.read tcpHost addSlave) := by
  have hlines : ∀ l ∈ lines.map ServerLine.text, l ≠ [] ∧ 10 ∉ l := by
    intro l hl
    obtain ⟨x, -, rfl⟩ := List.mem_map.mp hl
    exact ⟨x.text_ne_nil, x.noNewline⟩
  rw [readNodesReply, nodesText, Reply.text, nodesLines_terminated hlines, List.map_map]
  rfl

theorem NodesLine.compatible_of_ne {x y : NodesLine} (h : ∀ node fields, y ≠ .master node fields) :
    x.Compatible y ∧ y.Compatible x := by
  cases y with
  | master node fields => exact absurd rfl (h node fields)
  | bad c node => exact ⟨by cases x <;> trivial, trivial⟩
  | skipped => exact ⟨by cases x <;> trivial, trivial⟩
  | slave node k => exact ⟨by cases x <;> trivial, trivial⟩

theorem NodesLine.Compatible.symm {x y : NodesLine} (h : x.Compatible y) : y.Compatible x := by
  cases x with
  | master node fields =>
    cases y with
    | master node' fields' => exact ⟨h.1.symm, h.2.symm⟩
    | _ => trivial
  | _ => cases y <;> trivial

section Lines

variable {t : Topology tcpHost} {lines : List ServerLine} (h : t.NodesLines lines)

include h

/-- A line describes a master, or it makes none. -/
theorem Topology.NodesLines.cases {l : ServerLine} (hl : l ∈ lines) :
    (∃ m ∈ t.masters, m.Line l) ∨ l.Flagged "slave" := by
  obtain ⟨masters, replicas, hmasters, hreplicas, hperm⟩ := h
  rcases List.mem_append.mp (hperm.mem_iff.mp hl) with hl | hl
  · obtain ⟨m, hm, hline⟩ := exists_left hmasters hl
    exact Or.inl ⟨m, hm, hline⟩
  · exact Or.inr (hreplicas l hl)

theorem Topology.NodesLines.exists_line {m : Master} (hm : m ∈ t.masters) :
    ∃ l ∈ lines, m.Line l := by
  obtain ⟨masters, replicas, hmasters, -, hperm⟩ := h
  obtain ⟨l, hl, hline⟩ := exists_right hmasters hm
  exact ⟨l, hperm.mem_iff.mpr (List.mem_append_left _ hl), hline⟩

theorem Topology.NodesLines.read_eq_master {l : ServerLine} (hl : l ∈ lines) {addSlave : Bool}
    {node : Node} {fields : List Bytes} (hread : l.read tcpHost addSlave = .master node fields) :
    ∃ m ∈ t.masters, node = m.node tcpHost ∧ slotFields fields = m.ranges := by
  rcases h.cases hl with ⟨m, hm, hline⟩ | hslave
  · obtain ⟨rfl, rfl⟩ := NodesLine.master.inj (hread.symm.trans (hline.read tcpHost addSlave))
    exact ⟨m, hm, rfl, slotFields_of_text hline.slots⟩
  · exact absurd hread ((hslave.read tcpHost addSlave).2 node fields)

/-- **All lines are accepted.** -/
theorem Topology.NodesLines.survey_eq (addSlave : Bool) :
    survey addSlave [] (lines.map (·.read tcpHost addSlave)) =
      ((lines.map (·.read tcpHost addSlave)).filter NodesLine.isNode, none) := by
  have hcases := @h.cases
  obtain ⟨masters, replicas, hmasters, hreplicas, hperm⟩ := h
  refine survey_compatible addSlave _ ?_ (by simp) ?_
  · intro x hx c node
    obtain ⟨l, hl, rfl⟩ := List.mem_map.mp hx
    rcases hcases hl with ⟨m, -, hline⟩ | hslave
    · rw [ServerLine.read, hline.read]
      simp
    · exact (hslave.read tcpHost addSlave).1 c node
  · -- masters differ in id and address, and replicas collide with nobody
    have hother : ∀ l ∈ replicas, ∀ node fields,
        l.read tcpHost addSlave ≠ .master node fields :=
      fun l hl => ((hreplicas l hl).read tcpHost addSlave).2
    rw [List.pairwise_map]
    refine hperm.symm.pairwise (List.pairwise_append.mpr ⟨?_, ?_, ?_⟩)
      fun hxy => NodesLine.Compatible.symm hxy
    · refine Matching.pairwise hmasters ?_ (t.ids.and t.addrs)
      rintro m m' l l' hl hl' ⟨hid, haddr⟩
      rw [ServerLine.read, ServerLine.read, hl.read, hl'.read]
      exact ⟨haddr, hid⟩
    · refine List.pairwise_of_forall_mem_list ?_
      exact fun l _ l' hl' => (NodesLine.compatible_of_ne (hother l' hl')).1
    · exact fun l _ l' hl' => (NodesLine.compatible_of_ne (hother l' hl')).1

/-- **CLUSTER NODES gives a set that stands for the topology.** -/
theorem parseClusterNodes_represents (w : World ω) :
    wp (parseClusterNodes tcpHost (nodesText lines))
      (fun r w' => ∃ d, r = some d ∧ Represents t w'.heap d) w := by
  refine wp_mono (parseClusterNodes_ended tcpHost (nodesText lines) w) fun r w' h' => ?_
  obtain ⟨scan, w₁, hend, hres⟩ := h'
  rw [readNodesReply_text, h.survey_eq] at hend hres
  set made := (lines.map (·.read tcpHost w.cc.addSlave)).filter NodesLine.isNode
  have hscan : Scanned w w₁ made scan := hend
  have hmade : ∀ {m : Master} {l : ServerLine}, l ∈ lines → m.Line l →
      .master (m.node tcpHost) l.slots ∈ made := by
    intro m l hl hline
    refine List.mem_filter.mpr ⟨List.mem_map.mpr ⟨l, hl, hline.read tcpHost w.cc.addSlave⟩, rfl⟩
  have hrange : 0 < rangeCount made := by
    obtain ⟨m, hm, hne⟩ := t.covered
    obtain ⟨l, hl, hline⟩ := h.exists_line hm
    refine List.sum_pos_iff_exists_pos_nat.mpr ⟨_, List.mem_map_of_mem (hmade hl hline), ?_⟩
    rw [NodesLine.ranges, slotFields_of_text hline.slots]
    exact List.length_pos_iff.mpr hne
  rw [if_pos ⟨rfl, hrange⟩] at hres
  obtain ⟨rfl, rfl⟩ := hres
  refine ⟨scan.nodes, rfl, fun a n hfind => ?_, fun m hm _ => ?_⟩
  · obtain ⟨node, fields, hn, rfl⟩ := (hscan.filed a n).mp hfind
    obtain ⟨l, hl, hread⟩ := List.mem_map.mp (List.mem_filter.mp hn.mem).1
    obtain ⟨m, hm, rfl, hfields⟩ := h.read_eq_master hl hread
    obtain ⟨kids, mig, imp, hnode⟩ := (hscan.master hn).1
    refine ⟨m, hm, rfl, ?_, ?_, ?_⟩
    · rw [hnode]
      rfl
    · rw [hnode]
      rfl
    · rw [hnode, hfields]
      rfl
  · obtain ⟨l, hl, hline⟩ := h.exists_line hm
    obtain ⟨n, hn⟩ := MadeFor.of_mem w.nextNode (hmade hl hline)
    rw [(hscan.filed (m.addr tcpHost) n).mpr ⟨_, _, hn, rfl⟩]
    simp

end Lines

/-! ## The two formats -/

/-- A set that stands for the topology is parsed and installed. -/
theorem update_represents {t : Topology tcpHost} {m : Prog ω (Option NodeDict)} {w : World ω}
    (h : wp m (fun r w' => ∃ d, r = some d ∧ Represents t w'.heap d) w) :
    wp (m >>= updateNodesAndSlotmap) (fun r w' => r = .ok ∧ w'.RoutesBy t) w := by
  rw [wp_bind]
  refine wp_mono h fun r w₁ h₁ => ?_
  obtain ⟨d, rfl, hd⟩ := h₁
  exact updateNodesAndSlotmap_represents hd

/-- **CLUSTER SLOTS and CLUSTER NODES give the same routing.**  Entries and lines that describe
one topology, in any order, are accepted in any two states, and both tables lead every slot to
the address of its master, or nowhere if it has none. -/
theorem clusterSlots_clusterNodes_agree (t : Topology tcpHost) {entries : List Reply}
    {lines : List ServerLine} (hs : t.SlotsEntries entries) (hn : t.NodesLines lines)
    (w w' : World ω) :
    let p := (parseClusterSlots tcpHost (.array entries) >>= updateNodesAndSlotmap) w
    let q := (parseClusterNodes tcpHost (nodesText lines) >>= updateNodesAndSlotmap) w'
    p.1 = .ok ∧ q.1 = .ok ∧ p.2.cc.table.isSome = true ∧ q.2.cc.table.isSome = true ∧
      ∀ s, p.2.routeOf s = t.route s ∧ q.2.routeOf s = p.2.routeOf s := by
  intro p q
  obtain ⟨hp, hptable, hproute⟩ := update_represents (parseClusterSlots_represents t hs w)
  obtain ⟨hq, hqtable, hqroute⟩ := update_represents (parseClusterNodes_represents hn w')
  exact ⟨hp, hq, hptable, hqtable, fun s => ⟨hproute s, (hqroute s).trans (hproute s).symm⟩⟩

/-! ### Two masters -/

section Two

/-- The node that is asked. -/
def askedMaster : Master where
  host := []
  port := 7000
  plain := by decide +kernel
  port_pos := by decide +kernel
  port_le := by decide +kernel
  id := ascii "m"
  ranges := [⟨0, 5⟩]
  named := by decide +kernel
  shown := by decide +kernel
  bounded := by decide +kernel

/-- A node at an IPv6 address, with a single slot and a range. -/
def ipv6Master : Master where
  host := ascii "::1"
  port := 7001
  plain := by decide +kernel
  port_pos := by decide +kernel
  port_le := by decide +kernel
  id := ascii "n"
  ranges := [⟨7, 7⟩, ⟨9, 10⟩]
  named := by decide +kernel
  shown := by decide +kernel
  bounded := by decide +kernel

/-- A replica. -/
def replicaEndpoint : Endpoint where
  host := ascii "r"
  port := 7002
  plain := by decide +kernel
  port_pos := by decide +kernel
  port_le := by decide +kernel

def twoMasters : Topology (ascii "h") where
  masters := [askedMaster, ipv6Master]
  ids := List.pairwise_pair.mpr (by decide +kernel)
  addrs := List.pairwise_pair.mpr (by decide +kernel)
  disjoint := by
    show [SlotRange.mk 0 5, ⟨7, 7⟩, ⟨9, 10⟩].Pairwise _
    rw [List.pairwise_cons, List.pairwise_pair, List.forall_mem_cons, List.forall_mem_singleton]
    exact ⟨⟨SlotRange.slots_disjoint (by decide), SlotRange.slots_disjoint (by decide)⟩,
      SlotRange.slots_disjoint (by decide)⟩
  covered := ⟨askedMaster, List.mem_cons_self, by decide +kernel⟩

/-- The entries, the last one in front. -/
def twoEntries : List Reply :=
  let ipv6 := Reply.array [.string (ascii "::1"), .integer 7001, .string (ascii "n")]
  [.array [.integer 9, .integer 10, ipv6],
    .array [.integer 0, .integer 5, .array [.nil, .integer 7000],
      .array [.string (ascii "r"), .integer 7002]],
    .array [.integer 7, .integer 7, ipv6]]

def askedLine : ServerLine where
  id := ascii "m"
  endpoint := askedMaster.toEndpoint
  suffix := ascii "@17000"
  flags := ascii "myself,master"
  middle := [ascii "-", ascii "0", ascii "0", ascii "1", ascii "connected"]
  slots := [ascii "0-5", ascii "[5->-n]"]
  suffix_eq := Or.inr ⟨ascii "17000", by decide +kernel⟩
  middle_length := rfl
  plain := by decide +kernel

theorem noSuffix : ([] : Bytes) = [] ∨ ∃ s, ([] : Bytes) = 64 :: s := Or.inl rfl

def ipv6Line : ServerLine where
  id := ascii "n"
  endpoint := ipv6Master.toEndpoint
  suffix := []
  flags := ascii "master"
  middle := [ascii "-", ascii "0", ascii "0", ascii "1", ascii "connected"]
  slots := [ascii "7", ascii "9-10"]
  suffix_eq := noSuffix
  middle_length := rfl
  plain := by decide +kernel

def replicaLine : ServerLine where
  id := ascii "r"
  endpoint := replicaEndpoint
  suffix := []
  flags := ascii "slave"
  middle := [ascii "m", ascii "0", ascii "0", ascii "1", ascii "connected"]
  slots := []
  suffix_eq := noSuffix
  middle_length := rfl
  plain := by decide +kernel

theorem twoEntries_describe : twoMasters.SlotsEntries twoEntries := by
  refine ⟨[_, _, _], .cons ?_ (.cons ?_ (.cons ?_ .nil)), (List.perm_append_singleton _ [_, _]).symm⟩
  · refine .mk (.absent rfl []) fun x hx => ⟨replicaEndpoint, ?_⟩
    obtain rfl := List.mem_singleton.mp hx
    exact .named []
  · exact .mk (.named _) fun x hx => by cases hx
  · exact .mk (.named _) fun x hx => by cases hx

theorem twoLines_describe : twoMasters.NodesLines [ipv6Line, replicaLine, askedLine] := by
  refine ⟨[askedLine, ipv6Line], [replicaLine], .cons ?_ (.cons ?_ .nil), ?_,
    List.perm_append_singleton askedLine [ipv6Line, replicaLine]⟩
  · refine ⟨rfl, rfl, ⟨[], Or.inr (by decide +kernel)⟩, ?_⟩
    exact .range (.range (ascii "0") (ascii "5") (by decide +kernel) (by decide +kernel)
      (by decide +kernel) (by decide +kernel) (by decide +kernel) (by decide +kernel))
      (.marker (.migrating 5 (ascii "n")) .nil)
  · refine ⟨rfl, rfl, ⟨[], Or.inl (by decide +kernel)⟩, ?_⟩
    exact .range (.one (ascii "7") (by decide +kernel) (by decide +kernel) (by decide +kernel))
      (.range (.range (ascii "9") (ascii "10") (by decide +kernel) (by decide +kernel)
        (by decide +kernel) (by decide +kernel) (by decide +kernel) (by decide +kernel)) .nil)
  · intro l hl
    obtain rfl := List.mem_singleton.mp hl
    exact ⟨[], Or.inl (by decide +kernel)⟩

/-- Slot 9 leads to the IPv6 address, and slot 6 nowhere. -/
theorem clusterSlots_clusterNodes_agree_two :
    let w : World Unit := { env := () }
    let q := (parseClusterNodes (ascii "h") (nodesText [ipv6Line, replicaLine, askedLine]) >>=
      updateNodesAndSlotmap) w
    q.2.routeOf 9 = some (ascii "::1:7001", ascii "::1", 7001) ∧ q.2.routeOf 6 = none := by
  intro w q
  obtain ⟨-, -, -, -, h⟩ := clusterSlots_clusterNodes_agree twoMasters twoEntries_describe
    twoLines_describe w w
  constructor
  · rw [(h 9).2, (h 9).1]
    decide +kernel
  · rw [(h 6).2, (h 6).1]
    decide +kernel

end Two
