/-
# Replacing the node set

`updateNodesAndSlotmap` either installs a node set with its slot table, hands the connections
over by address and releases what is left, or it releases the new node set and changes nothing:
`updateNodesAndSlotmap_allOrNothing`.
-/
import HiredisCluster.Handover

open Program

variable {ω : Type}

/-! ## Node sets in order -/

/-- The node that `cc->nodes` has for an address. -/
def World.nodeAt (w : World ω) (k : Bytes) : Option NodeId := w.cc.nodes.bind fun d => d.find k

/-- The nodes of a context are filed under their addresses, no connection belongs to two of
them, and the replicas in their lists, which the library never talks to, have none. -/
structure World.Tidy (w : World ω) : Prop where
  filed : ∀ d, w.cc.nodes = some d → ∀ k n, (k, n) ∈ d.entries → (w.heap n).addr = k
  con : ∀ n ∈ w.nodeList, ∀ m ∈ w.nodeList, ∀ c, (w.heap n).con = some c →
    (w.heap m).con = some c → n = m
  acon : ∀ n ∈ w.nodeList, ∀ m ∈ w.nodeList, ∀ a, (w.heap n).acon = some a →
    (w.heap m).acon = some a → n = m
  replicas : ∀ n ∈ w.nodeList, ∀ r ∈ w.slavesOf n, w.Bare r ∧ r ∉ w.nodeList

/-- A freshly parsed node set: new objects without connections, filed under their addresses. -/
structure World.FreshSet (w : World ω) (nodes : NodeDict) : Prop where
  filed : ∀ k n, (k, n) ∈ nodes.entries → (w.heap n).addr = k
  bare : ∀ n ∈ w.holdings nodes, w.Bare n
  new : ∀ n ∈ nodes.vals, n ∉ w.nodeList ∧ ∀ m ∈ w.nodeList, n ∉ w.slavesOf m

/-- Node `f` belongs to an address that the new node set does not have. -/
def World.Removed (w : World ω) (nodes : NodeDict) (f : NodeId) : Prop :=
  ∃ k, w.nodeAt k = some f ∧ nodes.find k = none

/-- The blocking connections that are closed, in order. -/
def closedIn (events : List Event) : List ConnId :=
  events.filterMap fun
    | .closed c => some c
    | _ => none

/-! ## Success and failure -/

/-- **The node set took over.**  `released`: the connections of removed addresses, each once. -/
structure Installed (nodes : NodeDict) (w w' : World ω) : Prop where
  nodeSet : w'.cc.nodes = some nodes
  version : w'.cc.routeVersion = w.cc.routeVersion + 1
  table : ∃ t, w'.cc.table = some t ∧
    ∀ s n, t s = some n ↔ n ∈ nodes.vals ∧ s ∈ (w.heap n).slotsHeld
  kept : ∀ k f t, w.nodeAt k = some f → nodes.find k = some t →
    (w'.heap t).con = (w.heap f).con ∧ (w'.heap t).acon = (w.heap f).acon
  keptCon : ∀ k f t c, w.nodeAt k = some f → nodes.find k = some t → (w.heap f).con = some c →
    w'.conns c = w.conns c
  keptAcon : ∀ k f t a, w.nodeAt k = some f → nodes.find k = some t → (w.heap f).acon = some a →
    w'.aconns a = { w.aconns a with data := some t }
  added : ∀ k t, w.nodeAt k = none → nodes.find k = some t → w'.Bare t
  released : ∃ events, w'.trace = w.trace ++ events ∧ (closedIn events).Nodup ∧
    ∀ c, c ∈ closedIn events ↔ ∃ f, w.Removed nodes f ∧ (w.heap f).con = some c
  detached : ∃ as, w'.closing = w.closing ++ as ∧ as.Nodup ∧
    ∀ a, a ∈ as ↔ ∃ f, w.Removed nodes f ∧ (w.heap f).acon = some a

/-- **Nothing changed** but the error. -/
structure Untouched (w w' : World ω) : Prop where
  nodeSet : w'.cc.nodes = w.cc.nodes
  table : w'.cc.table = w.cc.table
  version : w'.cc.routeVersion = w.cc.routeVersion
  heap : w'.heap = w.heap
  conns : w'.conns = w.conns
  aconns : w'.aconns = w.aconns
  closing : w'.closing = w.closing
  released : ∃ events, w'.trace = w.trace ++ events ∧ closedIn events = []

/-! ## What is released -/

theorem closedIn_freeing (w : World ω) (ns : List NodeId) :
    closedIn (ns.flatMap fun n => (w.heap n).con.toList.map Event.closed ++ [Event.released n]) =
      w.consOf ns := by
  induction ns with
  | nil => rfl
  | cons n ns ih =>
    unfold closedIn World.consOf at ih ⊢
    rw [List.flatMap_cons, List.filterMap_append, ih, List.filterMap_cons]
    cases (w.heap n).con <;> rfl

theorem filterMap_holdings {α : Type} {w : World ω} {d : NodeDict} {f : NodeId → Option α}
    (h : ∀ n ∈ d.vals, ∀ r ∈ w.slavesOf n, f r = none) :
    (w.holdings d).filterMap f = d.vals.filterMap f := by
  unfold World.holdings
  revert h
  induction d.vals with
  | nil => exact fun _ => rfl
  | cons n ns ih =>
    intro h
    rw [List.forall_mem_cons] at h
    have hslaves : (w.slavesOf n).filterMap f = [] := List.filterMap_eq_nil_iff.mpr h.1
    rw [List.flatMap_cons, List.filterMap_append, ih h.2, List.filterMap_cons, List.filterMap_cons,
      hslaves]
    cases f n <;> rfl

theorem nodup_filterMap {α β : Type} {f : α → Option β} {l : List α} (h : l.Nodup)
    (hf : ∀ x ∈ l, ∀ y ∈ l, ∀ b, f x = some b → f y = some b → x = y) : (l.filterMap f).Nodup := by
  refine List.pairwise_filterMap.mpr (h.imp_of_mem fun hx hy hne b hb b' hb' heq => ?_)
  exact hne (hf _ hx _ hy b hb (heq ▸ hb'))

section Replacing

variable {w : World ω} {old nodes : NodeDict}

theorem World.nodeList_of_some (hold : w.cc.nodes = some old) : w.nodeList = old.vals := by
  rw [World.nodeList, hold]
  rfl

theorem World.nodeAt_of_some (hold : w.cc.nodes = some old) (k : Bytes) :
    w.nodeAt k = old.find k := by
  rw [World.nodeAt, hold]
  rfl

theorem World.nodeAt_mem {k : Bytes} {f : NodeId} (h : w.nodeAt k = some f) : f ∈ w.nodeList := by
  obtain ⟨d, hd, hf⟩ := Option.bind_eq_some_iff.mp h
  rw [World.nodeList_of_some hd]
  exact (d.mem_vals_iff f).mpr ⟨k, hf⟩

theorem World.Removed.mem {f : NodeId} (h : w.Removed nodes f) : f ∈ w.nodeList := by
  obtain ⟨k, hk, -⟩ := h
  exact World.nodeAt_mem hk

/-- The node of an address that both sets have is not removed. -/
theorem World.Tidy.not_removed (hw : w.Tidy) {k : Bytes} {f t : NodeId} (hf : w.nodeAt k = some f)
    (ht : nodes.find k = some t) : ¬ w.Removed nodes f := by
  rintro ⟨k', hk', hno⟩
  obtain ⟨d, hd, hfd⟩ := Option.bind_eq_some_iff.mp hf
  rw [World.nodeAt_of_some hd] at hk'
  have hnodup := d.nodup_vals (fun n => (w.heap n).addr) (hw.filed d hd)
  rw [d.find_inj hnodup hk' hfd, ht] at hno
  cases hno

variable (hw : w.Tidy) (hd : w.FreshSet nodes) (hold : w.cc.nodes = some old)

include hw hd hold

theorem World.FreshSet.heirs : Heirs old nodes.vals w where
  nodup := nodes.nodup_vals (fun n => (w.heap n).addr) hd.filed
  bare t ht := hd.bare t (mem_holdings.mpr ⟨t, ht, Or.inl rfl⟩)
  new t ht := by
    rw [← World.nodeList_of_some hold]
    exact (hd.new t ht).1
  addr t ht t' ht' heq := by
    obtain ⟨k, hk⟩ := (nodes.mem_vals_iff t).mp ht
    obtain ⟨k', hk'⟩ := (nodes.mem_vals_iff t').mp ht'
    rw [hd.filed k t ((nodes.find_eq_some_iff k t).mp hk),
      hd.filed k' t' ((nodes.find_eq_some_iff k' t').mp hk')] at heq
    rw [heq, hk'] at hk
    exact (Option.some.inj hk).symm
  filed := old.nodup_vals (fun n => (w.heap n).addr) (hw.filed old hold)
  owner := by
    rw [← World.nodeList_of_some hold]
    exact hw.acon

omit hw in
/-- The heir of an address finds the old node with it. -/
theorem World.FreshSet.mate_eq {k : Bytes} {t : NodeId} (ht : nodes.find k = some t) :
    w.mate old t = w.nodeAt k := by
  rw [World.nodeAt_of_some hold, World.mate, hd.filed k t ((nodes.find_eq_some_iff k t).mp ht)]

theorem World.FreshSet.removed_iff {f : NodeId} :
    w.Removed nodes f ↔ f ∈ old.vals ∧ ∀ t ∈ nodes.vals, w.mate old t ≠ some f := by
  constructor
  · rintro ⟨k, hk, hno⟩
    rw [World.nodeAt_of_some hold] at hk
    refine ⟨(old.mem_vals_iff f).mpr ⟨k, hk⟩, fun t ht hmate => ?_⟩
    obtain ⟨k', hk'⟩ := (nodes.mem_vals_iff t).mp ht
    rw [hd.mate_eq hold hk', World.nodeAt_of_some hold] at hmate
    rw [← old.find_inj (hd.heirs hw hold).filed hmate hk, hk'] at hno
    cases hno
  · rintro ⟨hf, hno⟩
    obtain ⟨k, hk⟩ := (old.mem_vals_iff f).mp hf
    refine ⟨k, by rwa [World.nodeAt_of_some hold], ?_⟩
    cases ht : nodes.find k with
    | none => rfl
    | some t =>
      refine absurd ?_ (hno t ((nodes.mem_vals_iff t).mpr ⟨k, ht⟩))
      rw [hd.mate_eq hold ht, World.nodeAt_of_some hold, hk]

section After

variable {w' : World ω} (hs : Handover old nodes.vals w w')

include hs

omit hw in
theorem Handover.replica {f r : NodeId} (hf : f ∈ old.vals) (hr : r ∈ w.slavesOf f)
    (hno : r ∉ old.vals) : w'.heap r = w.heap r := by
  refine hs.other r (fun hnew => ?_) fun t ht hmate => hno (World.mate_mem hmate)
  rw [← World.nodeList_of_some hold] at hf
  exact absurd hr ((hd.new r hnew).2 f hf)

/-- **What is left with the old nodes** belongs to removed addresses, for either kind of
connection. -/
theorem Handover.leftBehind {α : Type} (kind : Node → Option α)
    (hbare : ∀ node : Node, node.con = none → node.acon = none → kind node = none)
    (howner : ∀ n ∈ w.nodeList, ∀ m ∈ w.nodeList, ∀ x, kind (w.heap n) = some x →
      kind (w.heap m) = some x → n = m) :
    ((w'.holdings old).filterMap fun n => kind (w'.heap n)).Nodup ∧
      ∀ x, x ∈ ((w'.holdings old).filterMap fun n => kind (w'.heap n)) ↔
        ∃ f, w.Removed nodes f ∧ kind (w.heap f) = some x := by
  rw [World.nodeList_of_some hold] at howner
  have hheirs := hd.heirs hw hold
  have hreplicas : ∀ f ∈ old.vals, ∀ r ∈ w'.slavesOf f, kind (w'.heap r) = none := by
    intro f hf r hr
    rw [hs.slavesOf_eq] at hr
    obtain ⟨hnone, hno⟩ := hw.replicas f (by rwa [World.nodeList_of_some hold]) r hr
    rw [World.nodeList_of_some hold] at hno
    rw [hs.replica hd hold hf hr hno]
    exact hbare _ hnone.1 hnone.2
  rw [filterMap_holdings hreplicas]
  have hleft : ∀ f ∈ old.vals, ∀ x, kind (w'.heap f) = some x ↔
      w.Removed nodes f ∧ kind (w.heap f) = some x := by
    intro f hf x
    rw [hd.removed_iff hw hold]
    by_cases hmate : ∃ t ∈ nodes.vals, w.mate old t = some f
    · obtain ⟨t, ht, hf'⟩ := hmate
      rw [(hs.takes t ht f hf').2, hbare _ rfl rfl]
      refine iff_of_false (by simp) fun h => h.1.2 t ht hf'
    · have hno : ∀ t ∈ nodes.vals, w.mate old t ≠ some f := fun t ht hf' => hmate ⟨t, ht, hf'⟩
      rw [hs.other f (fun hnew => absurd hf (hheirs.new f hnew)) hno]
      exact (and_iff_right ⟨hf, hno⟩).symm
  constructor
  · refine nodup_filterMap hheirs.filed fun f hf f' hf' x hx hx' => ?_
    exact howner f hf f' hf' x ((hleft f hf x).mp hx).2 ((hleft f' hf' x).mp hx').2
  · intro x
    rw [List.mem_filterMap]
    constructor
    · rintro ⟨f, hf, hx⟩
      exact ⟨f, (hleft f hf x).mp hx⟩
    · rintro ⟨f, hremoved, hx⟩
      have hf := ((hd.removed_iff hw hold).mp hremoved).1
      exact ⟨f, hf, (hleft f hf x).mpr ⟨hremoved, hx⟩⟩

end After

end Replacing

/-! ## The update -/

section Update

variable {w : World ω} {nodes : NodeDict} (hw : w.Tidy) (hd : w.FreshSet nodes)

include hd

theorem installNodes_refused {e : Complaint}
    (hfill : fillTable w.heap (fun _ => none) nodes.vals = .error e) :
    wp (installNodes nodes) (fun r w' => r = .err ∧ Untouched w w') w := by
  unfold installNodes
  rw [wp_bind, wp_get, hfill]
  dsimp only
  rw [wp_bind, wp_setError, wp_bind, wp_dictRelease, wp_pure,
    World.freeing_of_bare]
  · refine ⟨rfl, rfl, rfl, rfl, rfl, rfl, rfl, rfl, _, rfl, ?_⟩
    exact List.filterMap_eq_nil_iff.mpr fun e he => by
      obtain ⟨n, -, rfl⟩ := List.mem_map.mp he
      rfl
  · exact hd.bare

include hw

omit hw in
/-- The first node set of a context. -/
theorem installNodes_first {t : SlotTable} (hold : w.cc.nodes = none)
    (hfill : fillTable w.heap (fun _ => none) nodes.vals = .ok t) :
    wp (installNodes nodes) (fun r w' => r = .ok ∧ Installed nodes w w') w := by
  unfold installNodes
  rw [wp_bind, wp_get, hfill]
  dsimp only
  rw [hold, wp_bind, wp_modifyCc]
  dsimp only
  rw [wp_bind, wp_modifyCc, wp_pure]
  have hnone : ∀ k, w.nodeAt k = none := fun k => by rw [World.nodeAt, hold]; rfl
  have hremoved : ∀ f, ¬ w.Removed nodes f := by
    rintro f ⟨k, hk, -⟩
    cases (hnone k).symm.trans hk
  refine ⟨rfl, rfl, rfl, ⟨t, rfl, (fillTable_eq_ok_iff.mp hfill).2⟩, ?_, ?_, ?_, ?_, ?_, ?_⟩
  · intro k f _ hk
    cases (hnone k).symm.trans hk
  · intro k f _ _ hk
    cases (hnone k).symm.trans hk
  · intro k f _ _ hk
    cases (hnone k).symm.trans hk
  · intro k n _ hn
    exact hd.bare n (mem_holdings.mpr ⟨n, (nodes.mem_vals_iff n).mpr ⟨k, hn⟩, Or.inl rfl⟩)
  · exact ⟨[], (List.append_nil _).symm, List.nodup_nil,
      fun c => iff_of_false List.not_mem_nil fun ⟨f, hf, _⟩ => hremoved f hf⟩
  · exact ⟨[], (List.append_nil _).symm, List.nodup_nil,
      fun a => iff_of_false List.not_mem_nil fun ⟨f, hf, _⟩ => hremoved f hf⟩

/-- A node set takes over from another one. -/
theorem installNodes_over {t : SlotTable} {old : NodeDict} (hold : w.cc.nodes = some old)
    (hfill : fillTable w.heap (fun _ => none) nodes.vals = .ok t) :
    wp (installNodes nodes) (fun r w' => r = .ok ∧ Installed nodes w w') w := by
  unfold installNodes
  rw [wp_bind, wp_get, hfill]
  dsimp only
  rw [hold, wp_bind, wp_modifyCc]
  dsimp only
  set w₁ : World ω := { w with
    cc := { w.cc with table := some t, routeVersion := w.cc.routeVersion + 1 } } with hw₁
  have htidy : w₁.Tidy := ⟨hw.filed, hw.con, hw.acon, hw.replicas⟩
  have hset : w₁.FreshSet nodes := ⟨hd.filed, hd.bare, hd.new⟩
  have hheirs := hset.heirs htidy hold
  rw [wp_bind]
  refine wp_mono (clusterNodesSwapCtx_handover nodes.vals hheirs) fun _ w₂ hs => ?_
  rw [wp_bind, wp_modifyCc, wp_bind, wp_dictRelease, wp_pure]
  have hcc : w₂.cc = w₁.cc := by rw [hs.rest]
  have hconns : w₂.conns = w₁.conns := by rw [hs.rest]
  have hclosing : w₂.closing = w₁.closing := by rw [hs.rest]
  have htrace : w₂.trace = w₁.trace := by rw [hs.rest]
  obtain ⟨hcons, hcon⟩ := hs.leftBehind htidy hset hold Node.con (fun _ h _ => h) hw.con
  obtain ⟨hacons, hacon⟩ := hs.leftBehind htidy hset hold Node.acon (fun _ _ h => h) hw.acon
  have hmate : ∀ k n, nodes.find k = some n → n ∈ nodes.vals ∧ w₁.mate old n = w.nodeAt k :=
    fun k n hn => ⟨(nodes.mem_vals_iff n).mpr ⟨k, hn⟩, hset.mate_eq hold hn⟩
  refine ⟨rfl, rfl, ?_, ⟨t, ?_, (fillTable_eq_ok_iff.mp hfill).2⟩, ?_, ?_, ?_, ?_, ?_, ?_⟩
  · show w₂.cc.routeVersion = _
    rw [hcc]
  · show w₂.cc.table = _
    rw [hcc]
  · intro k f n hf hn
    obtain ⟨hmem, hnf⟩ := hmate k n hn
    have htakes := (hs.takes n hmem f (hnf.trans hf)).1
    show (w₂.heap n).con = _ ∧ (w₂.heap n).acon = _
    rw [htakes]
    exact ⟨rfl, rfl⟩
  · intro k f n c hf hn hc
    have hkept : c ∉ w₂.consOf (w₂.holdings old) := by
      intro hmem
      obtain ⟨f', hremoved, hc'⟩ := (hcon c).mp hmem
      obtain rfl := hw.con f' hremoved.mem f (World.nodeAt_mem hf) c hc' hc
      exact hw.not_removed hf hn hremoved
    show (if c ∈ w₂.consOf (w₂.holdings old) then _ else w₂.conns c) = _
    rw [if_neg hkept, hconns]
  · intro k f n a hf hn ha
    obtain ⟨hmem, hnf⟩ := hmate k n hn
    exact hs.points n hmem f a (hnf.trans hf) ha
  · intro k n hf hn
    obtain ⟨hmem, hnf⟩ := hmate k n hn
    have hsame : w₂.heap n = w.heap n := hs.other n (fun _ => hnf.trans hf)
      fun m _ hm => hheirs.new n hmem (World.mate_mem hm)
    show (w₂.heap n).con = none ∧ (w₂.heap n).acon = none
    rw [hsame]
    exact hheirs.bare n hmem
  · refine ⟨_, congrArg (· ++ _) htrace, ?_⟩
    have hclosed := closedIn_freeing w₂ (w₂.holdings old)
    exact ⟨hclosed ▸ hcons, fun c => hclosed ▸ hcon c⟩
  · exact ⟨_, congrArg (· ++ _) hclosing, hacons, hacon⟩

omit hw hd in
theorem Installed.announce {w' : World ω} (h : Installed nodes w w') :
    wp announceSlotmap (fun _ w'' => Installed nodes w w'') w' := by
  obtain ⟨events, htrace, hnodup, hmem⟩ := h.released
  have hclosed : closedIn (events ++ [Event.callback w'.view]) = closedIn events := by
    simp [closedIn]
  refine ⟨h.nodeSet, h.version, h.table, h.kept, h.keptCon, h.keptAcon, h.added,
    ⟨events ++ [Event.callback w'.view], ?_, hclosed ▸ hnodup, hclosed ▸ hmem⟩, h.detached⟩
  show w'.trace ++ [Event.callback w'.view] = _
  rw [htrace, List.append_assoc]

/-- **A slot map update is all or nothing.**  It succeeds exactly if a slot table exists. -/
theorem updateNodesAndSlotmap_allOrNothing :
    ((updateNodesAndSlotmap (some nodes) w).1 = .ok ↔ Fillable w.heap nodes.vals) ∧
    ((updateNodesAndSlotmap (some nodes) w).1 = .ok →
      Installed nodes w (updateNodesAndSlotmap (some nodes) w).2) ∧
    ((updateNodesAndSlotmap (some nodes) w).1 = .err →
      Untouched w (updateNodesAndSlotmap (some nodes) w).2) := by
  cases hfill : fillTable w.heap (fun _ => none) nodes.vals with
  | error e =>
    have hrefused : wp (updateNodesAndSlotmap (some nodes))
        (fun r w' => r = .err ∧ Untouched w w') w := by
      unfold updateNodesAndSlotmap
      rw [wp_bind]
      refine wp_mono (installNodes_refused hd hfill) ?_
      rintro r w' ⟨rfl, hu⟩
      exact ⟨rfl, hu⟩
    obtain ⟨hstatus, hu⟩ := hrefused
    have hno : ¬ Fillable w.heap nodes.vals := by
      intro h
      obtain ⟨t, ht⟩ := h.exists_table
      cases hfill.symm.trans ht
    rw [hstatus]
    exact ⟨iff_of_false (by decide) hno, fun h => (by cases h), fun _ => hu⟩
  | ok t =>
    have hinstalled : wp (updateNodesAndSlotmap (some nodes))
        (fun r w' => r = .ok ∧ Installed nodes w w') w := by
      have hinstall : wp (installNodes nodes) (fun r w' => r = .ok ∧ Installed nodes w w') w := by
        cases hold : w.cc.nodes with
        | none => exact installNodes_first hd hold hfill
        | some old => exact installNodes_over hw hd hold hfill
      unfold updateNodesAndSlotmap
      rw [wp_bind]
      refine wp_mono hinstall ?_
      rintro r w' ⟨rfl, hi⟩
      dsimp only
      rw [wp_bind]
      exact wp_mono hi.announce fun _ w'' hi => ⟨rfl, hi⟩
    obtain ⟨hstatus, hi⟩ := hinstalled
    rw [hstatus]
    exact ⟨iff_of_true rfl (fillTable_eq_ok_iff.mp hfill).1, fun _ => hi, fun h => (by cases h)⟩

end Update

/-! ## An update with an address that stays, one that goes and one that comes -/

/-- Two nodes with connections are known, and two new ones have been parsed. -/
def twoConnected : World Unit where
  env := ()
  cc := { nodes := some (nodeDict [(ascii "a:1", 0), (ascii "b:2", 1)]) }
  heap := fun n => [{ addr := ascii "a:1", con := some 0, acon := some 0 },
    { addr := ascii "b:2", con := some 1, acon := some 1 },
    { addr := ascii "a:1", role := .master, slots := some [⟨0, 1⟩, ⟨5, 5⟩] },
    { addr := ascii "c:3", role := .master, slots := some [⟨2, 4⟩] }].getD n {}
  nextNode := 4
  nextConn := 2
  nextAConn := 2

def parsedNodes : NodeDict := nodeDict [(ascii "a:1", 2), (ascii "c:3", 3)]

theorem entries_twoConnected : ∀ d, twoConnected.cc.nodes = some d →
    d.entries = [(ascii "a:1", 0), (ascii "b:2", 1)] := by
  intro d hd
  obtain rfl := Option.some.inj hd
  decide +kernel

theorem entries_parsedNodes : parsedNodes.entries = [(ascii "c:3", 3), (ascii "a:1", 2)] := by
  decide +kernel

theorem tidy_twoConnected : twoConnected.Tidy where
  filed d hd k n hn := by
    rw [entries_twoConnected d hd] at hn
    simp only [List.mem_cons, Prod.mk.injEq, List.not_mem_nil, or_false] at hn
    rcases hn with ⟨rfl, rfl⟩ | ⟨rfl, rfl⟩ <;> rfl
  con := by
    have hcon : ∀ n ∈ twoConnected.nodeList, (twoConnected.heap n).con = some n := by
      decide +kernel
    intro n hn m hm c hc hc'
    rw [hcon n hn] at hc
    rw [hcon m hm] at hc'
    exact Option.some.inj (hc.trans hc'.symm)
  acon := by
    have hacon : ∀ n ∈ twoConnected.nodeList, (twoConnected.heap n).acon = some n := by
      decide +kernel
    intro n hn m hm a ha ha'
    rw [hacon n hn] at ha
    rw [hacon m hm] at ha'
    exact Option.some.inj (ha.trans ha'.symm)
  replicas := by
    have hnone : ∀ n ∈ twoConnected.nodeList, twoConnected.slavesOf n = [] := by decide +kernel
    intro n hn r hr
    rw [hnone n hn] at hr
    cases hr

theorem fresh_parsedNodes : twoConnected.FreshSet parsedNodes where
  filed k n hn := by
    rw [entries_parsedNodes] at hn
    simp only [List.mem_cons, Prod.mk.injEq, List.not_mem_nil, or_false] at hn
    rcases hn with ⟨rfl, rfl⟩ | ⟨rfl, rfl⟩ <;> rfl
  bare n hn := by
    have hbare : ∀ n ∈ twoConnected.holdings parsedNodes,
        (twoConnected.heap n).con = none ∧ (twoConnected.heap n).acon = none := by decide +kernel
    exact hbare n hn
  new := by decide +kernel

theorem updateNodesAndSlotmap_allOrNothing_installed :
    (updateNodesAndSlotmap (some parsedNodes) twoConnected).1 = .ok ∧
      Installed parsedNodes twoConnected
        (updateNodesAndSlotmap (some parsedNodes) twoConnected).2 := by
  have hfillable : Fillable twoConnected.heap parsedNodes.vals :=
    ⟨by decide +kernel, by decide +kernel, by decide +kernel⟩
  obtain ⟨hiff, hok, -⟩ := updateNodesAndSlotmap_allOrNothing tidy_twoConnected fresh_parsedNodes
  exact ⟨hiff.mpr hfillable, hok (hiff.mpr hfillable)⟩
