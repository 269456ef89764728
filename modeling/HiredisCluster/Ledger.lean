/-
# The ledger of nodes

A node is held by `cc->nodes`, or by the list of replicas of a node there, until it is released.
`Conserves` says that what a routine creates is held in one more place, or is released once more,
and that the balance of all other nodes stays as it is.  Most routines touch no node at all; a
parse puts every node that it creates into the new dictionary, or releases it.
-/
import HiredisCluster.Ownership
import HiredisCluster.Pairing

open Creation Program

variable {ω : Type}

/-! ## Counting -/

/-- Everything that the context holds. -/
def World.owned (w : World ω) : List NodeId := (w.cc.nodes.map w.holdings).getD []

theorem World.owned_of_some {w : World ω} {d : NodeDict} (h : w.cc.nodes = some d) :
    w.owned = w.holdings d := by
  rw [World.owned, h]
  rfl

theorem World.owned_of_none {w : World ω} (h : w.cc.nodes = none) : w.owned = [] := by
  rw [World.owned, h]
  rfl

/-- One for the nodes that were created between `first` and `last`. -/
def born (first last n : ℕ) : ℕ := if first ≤ n ∧ n < last then 1 else 0

@[simp] theorem born_self (first n : ℕ) : born first first n = 0 :=
  if_neg fun h => Nat.lt_irrefl _ (Nat.lt_of_le_of_lt h.1 h.2)

theorem born_trans {first mid last : ℕ} (h : first ≤ mid) (h' : mid ≤ last) (n : ℕ) :
    born first mid n + born mid last n = born first last n := by
  unfold born
  split_ifs <;> omega

theorem born_succ {first last : ℕ} (h : first ≤ last) (n : ℕ) :
    born first (last + 1) n = born first last n + [last].count n := by
  rw [List.count_singleton, born, born]
  by_cases hn : n = last
  · subst hn
    simp [h]
  · rw [if_neg fun heq => hn (beq_iff_eq.mp heq).symm]
    split_ifs <;> omega

theorem born_le_one (first last n : ℕ) : born first last n ≤ 1 := by
  unfold born
  split_ifs <;> omega

/-- The same nodes with the same replicas. -/
theorem World.holdings_congr {w w' : World ω} {d : NodeDict}
    (h : ∀ m ∈ d.vals, w'.slavesOf m = w.slavesOf m) : w'.holdings d = w.holdings d :=
  List.flatMap_congr fun m hm => congrArg (m :: ·) (h m hm)

theorem World.owned_congr {w w' : World ω} (hnodes : w'.cc.nodes = w.cc.nodes)
    (h : ∀ m ∈ w.nodeList, w'.slavesOf m = w.slavesOf m) : w'.owned = w.owned := by
  cases hd : w.cc.nodes with
  | none => rw [World.owned_of_none hd, World.owned_of_none (hnodes.trans hd)]
  | some d =>
    rw [World.owned_of_some hd, World.owned_of_some (hnodes.trans hd)]
    exact World.holdings_congr fun m hm => h m ((World.nodeList_of_some hd).symm ▸ hm)

/-- A node is filed, and holds no other. -/
theorem count_holdings_add {w : World ω} {d d' : NodeDict} {k : Bytes} {m : NodeId}
    (h : d.add k m = some d') (hm : w.slavesOf m = []) (n : NodeId) :
    (w.holdings d').count n = (w.holdings d).count n + [m].count n := by
  have hvals : d'.vals.Perm (m :: d.vals) := (HashTable.entries_add_perm h).map Prod.snd
  have hperm : (w.holdings d').Perm (m :: w.holdings d) := by
    have := hvals.flatMap_right fun x => x :: w.slavesOf x
    rwa [List.flatMap_cons, hm] at this
  rw [hperm.count_eq, ← List.singleton_append, List.count_append, Nat.add_comm]

/-- A node of the dictionary gets one more replica. -/
theorem count_holdings_slave {w w' : World ω} {d : NodeDict} {m r : NodeId} (hd : d.vals.Nodup)
    (hm : m ∈ d.vals) (hself : w'.slavesOf m = w.slavesOf m ++ [r])
    (hother : ∀ n, n ≠ m → w'.slavesOf n = w.slavesOf n) (n : NodeId) :
    (w'.holdings d).count n = (w.holdings d).count n + [r].count n := by
  obtain ⟨before, after, hsplit⟩ := List.append_of_mem hm
  unfold World.holdings
  rw [hsplit] at hd ⊢
  have hno := List.nodup_middle.mp hd
  have hsame : ∀ l : List NodeId, m ∉ l →
      l.flatMap (fun x => x :: w'.slavesOf x) = l.flatMap fun x => x :: w.slavesOf x := by
    intro l hl
    exact List.flatMap_congr fun x hx =>
      congrArg (x :: ·) (hother x fun heq => hl (heq ▸ hx))
  have hm' : m ∉ before ++ after := (List.nodup_cons.mp hno).1
  rw [List.mem_append, not_or] at hm'
  simp only [List.flatMap_append, List.flatMap_cons, hself, hsame before hm'.1, hsame after hm'.2,
    List.count_append, List.count_cons]
  omega

/-- What is released is counted. -/
theorem releases_freeing (w : World ω) (ns : List NodeId) (n : NodeId) :
    (w.freeing ns).releases n = w.releases n + ns.count n := by
  have hevents : ∀ l : List NodeId, (l.flatMap fun m =>
      (w.heap m).con.toList.map Event.closed ++ [Event.released m]).countP (Event.isRelease n) =
        l.count n := by
    intro l
    induction l with
    | nil => rfl
    | cons m l ih =>
      rw [List.flatMap_cons, List.countP_append, ih, List.count_cons]
      cases (w.heap m).con <;> simp [Event.isRelease, Nat.add_comm]
  rw [World.releases, World.freeing, List.countP_append, hevents]
  rfl

/-! ## What every routine respects -/

/-- How a client reads the topology. -/
structure Manner where
  useSlots : Bool
  addSlave : Bool
  deriving DecidableEq

def Context.manner (cc : Context) : Manner := ⟨cc.routeUseSlots, cc.addSlave⟩

abbrev World.manner (w : World ω) : Manner := w.cc.manner

/-- Every node that was created is held in one more place or has been released once more, and
nothing else has changed in that; queries for the topology are sent as the context asks. -/
structure Conserves (w w' : World ω) : Prop where
  nextNode : w.nextNode ≤ w'.nextNode
  count : ∀ n, w'.owned.count n + w'.releases n =
    w.owned.count n + w.releases n + born w.nextNode w'.nextNode n
  manner : w'.manner = w.manner
  pending : ∀ a b, (a, ACallback.topology b) ∈ w'.inflight →
    (a, ACallback.topology b) ∈ w.inflight ∨ b = w.manner.useSlots

theorem Conserves.refl (w : World ω) : Conserves w w :=
  ⟨le_rfl, fun n => by rw [born_self, Nat.add_zero], rfl, fun _ _ h => Or.inl h⟩

theorem Conserves.trans {w w' w'' : World ω} (h : Conserves w w') (h' : Conserves w' w'') :
    Conserves w w'' where
  nextNode := h.nextNode.trans h'.nextNode
  count n := by
    rw [h'.count, h.count, Nat.add_assoc, born_trans h.nextNode h'.nextNode]
  manner := h'.manner.trans h.manner
  pending a b hab := by
    rcases h'.pending a b hab with hab | hb
    · exact h.pending a b hab
    · right
      rw [hb, h.manner]

instance : Std.Refl (@Conserves ω) := ⟨Conserves.refl⟩

instance : IsTrans (World ω) Conserves := ⟨fun _ _ _ => Conserves.trans⟩

theorem conserves_of_eq {w w' : World ω} (hnext : w'.nextNode = w.nextNode)
    (hnodes : w'.cc.nodes = w.cc.nodes) (hmanner : w'.manner = w.manner)
    (hslaves : ∀ n, w'.slavesOf n = w.slavesOf n) (hinflight : w'.inflight = w.inflight)
    (htrace : w'.trace = w.trace) : Conserves w w' where
  nextNode := hnext.ge
  count n := by
    rw [World.owned_congr hnodes fun n _ => hslaves n, hnext, born_self, World.releases, htrace]
    rfl
  manner := hmanner
  pending a b hab := Or.inl (hinflight ▸ hab)

theorem conserves_record {e : Event} (he : ∀ n, e ≠ .released n) (w : World ω) :
    Conserves w (record e w).2 where
  nextNode := le_rfl
  count n := by
    have hno : Event.isRelease n e = false := by
      cases e with
      | released m => exact absurd rfl (he m)
      | _ => rfl
    have hreleases : (record e w).2.releases n = w.releases n := by
      show (w.trace ++ [e]).countP (Event.isRelease n) = _
      rw [List.countP_append, List.countP_singleton, hno]
      rfl
    rw [hreleases, @World.owned_congr _ w (record e w).2 rfl fun _ _ => rfl]
    show _ = _ + born w.nextNode w.nextNode n
    rw [born_self, Nat.add_zero]
  manner := rfl
  pending _ _ h := Or.inl h

theorem conserves_modifyNode (n : NodeId) {f : Node → Node} (hf : ∀ node, (f node).slaves = node.slaves) :
    Within Conserves (modifyNode n f : Prog ω Unit) := by
  intro w
  refine conserves_of_eq rfl rfl rfl (fun m => ?_) rfl rfl
  show ((Function.update w.heap n (f (w.heap n)) m).slaves.getD [] : List NodeId) = _
  rcases eq_or_ne m n with rfl | hm
  · rw [Function.update_self, hf]
    rfl
  · rw [Function.update_of_ne hm]
    rfl

theorem conserves_modifyCc {f : Context → Context} (hnodes : ∀ cc, (f cc).nodes = cc.nodes)
    (hmanner : ∀ cc, (f cc).manner = cc.manner) : Within Conserves (modifyCc f : Prog ω Unit) :=
  fun w => conserves_of_eq rfl (hnodes w.cc) (hmanner w.cc) (fun _ => rfl) rfl rfl

/-- An edit outside the context, the nodes and the callbacks that wait. -/
theorem conserves_of_edit {w w' : World ω} (hnext : w'.nextNode = w.nextNode) (hcc : w'.cc = w.cc)
    (hheap : w'.heap = w.heap) (hinflight : w'.inflight = w.inflight)
    (htrace : w'.trace = w.trace) : Conserves w w' :=
  conserves_of_eq hnext (by rw [hcc]) (by rw [World.manner, hcc])
    (fun n => by rw [World.slavesOf, hheap]; rfl) hinflight htrace

instance : CommandClosed (@Conserves ω) where
  ask _ _ := conserves_of_edit rfl rfl rfl rfl rfl
  modifyConn _ _ _ := conserves_of_edit rfl rfl rfl rfl rfl
  newConn _ _ _ _ := conserves_of_edit rfl rfl rfl rfl rfl
  setError _ _ := conserves_modifyCc (fun _ => rfl) fun _ => rfl
  wroteOwn _ _ _ w := conserves_record (fun _ h => by cases h) w
  wrote _ _ w := conserves_record (fun _ h => by cases h) w
  read _ _ _ _ w := conserves_record (fun _ h => by cases h) w
  closed _ w := conserves_record (fun _ h => by cases h) w
  userHook w := conserves_record (fun _ h => by cases h) w

theorem conserves_modifyAConn (a : AConnId) (f : AConn → AConn) :
    Within Conserves (modifyAConn a f : Prog ω Unit) :=
  fun _ => conserves_of_edit rfl rfl rfl rfl rfl

theorem conserves_modifyAcc (f : AsyncContext → AsyncContext) :
    Within Conserves (modifyAcc f : Prog ω Unit) :=
  fun _ => conserves_of_edit rfl rfl rfl rfl rfl

/-! ## A parse

A parse leaves alone what the context holds, and the new nodes are all in the new dictionary or
have been released. -/

/-- The nodes that a parse created are held by its result, or were released. -/
structure Filed (w : World ω) (r : Option NodeDict) (w' : World ω) : Prop where
  nextNode : w.nextNode ≤ w'.nextNode
  owned : w'.owned = w.owned
  count : ∀ n, ((r.map w'.holdings).getD []).count n + w'.releases n =
    w.releases n + born w.nextNode w'.nextNode n
  manner : w'.manner = w.manner
  inflight : w'.inflight = w.inflight

theorem Filed.of_newcomers {w w' : World ω} {r : Option NodeDict} (ho : Ordered w) (hcalm : Calm w w')
    (hnew : Newcomers w w') (hcount : ∀ n, ((r.map w'.holdings).getD []).count n + w'.releases n =
      w.releases n + born w.nextNode w'.nextNode n) : Filed w r w' where
  nextNode := hnew.nextNode
  owned := World.owned_congr hcalm.nodes fun m hm => hnew.slaves m (ho.routed.lt m hm)
  count := hcount
  manner := by
    obtain ⟨e, s, hcc⟩ := hcalm.cc
    rw [World.manner, hcc]
    rfl
  inflight := hcalm.inflight

/-! ### CLUSTER SLOTS -/

/-- The dictionary holds every node that was created from `w₀` on, once. -/
structure Gathered (w₀ w : World ω) (nodes : NodeDict) : Prop where
  later : w₀.nextNode ≤ w.nextNode
  held : ∀ n, (w.holdings nodes).count n = born w₀.nextNode w.nextNode n
  releases : ∀ n, w.releases n = w₀.releases n

theorem gathered_empty (w : World ω) : Gathered w w HashTable.empty where
  later := le_rfl
  held n := by
    rw [born_self]
    simp [World.holdings, HashTable.vals, HashTable.entries, HashTable.empty]
  releases _ := rfl

section Gathering

variable {w₀ w : World ω} {nodes : NodeDict} (h : Gathered w₀ w nodes)

include h

theorem Gathered.nodup_vals : nodes.vals.Nodup := by
  have hnodup : (w.holdings nodes).Nodup := by
    rw [List.nodup_iff_count_le_one]
    intro n
    rw [h.held]
    exact born_le_one _ _ _
  have hsub : nodes.vals.Sublist (w.holdings nodes) := by
    unfold World.holdings
    induction nodes.vals with
    | nil => exact List.nil_sublist _
    | cons m ms ih =>
      rw [List.flatMap_cons, List.cons_append]
      exact (ih.trans (List.sublist_append_right _ _)).cons_cons m
  exact hnodup.sublist hsub

theorem Gathered.lt {m : NodeId} (hm : m ∈ nodes.vals) : m < w.nextNode := by
  have hpos : 0 < (w.holdings nodes).count m :=
    List.count_pos_iff.mpr (mem_holdings.mpr ⟨m, hm, Or.inl rfl⟩)
  rw [h.held, born] at hpos
  split at hpos
  · exact (‹_› : _ ∧ _).2
  · exact absurd hpos (Nat.lt_irrefl 0)

/-- A node is edited, but not its replicas. -/
theorem Gathered.edit {m : NodeId} {node : Node} (hslaves : node.slaves = (w.heap m).slaves) :
    Gathered w₀ (w.place m node) nodes where
  later := h.later
  held n := by
    have hsame : (w.place m node).holdings nodes = w.holdings nodes := by
      refine World.holdings_congr fun x _ => ?_
      unfold World.slavesOf
      rcases eq_or_ne x m with rfl | hx
      · rw [World.place_heap_self, hslaves]
      · rw [World.place_heap_of_ne w hx]
    rw [hsame]
    exact h.held n
  releases := h.releases

/-- A new node is filed. -/
theorem Gathered.add {node : Node} (hslaves : node.slaves = none) {k : Bytes} {nodes' : NodeDict}
    (hadd : nodes.add k w.nextNode = some nodes') : Gathered w₀ (w.creating node) nodes' where
  later := h.later.trans (Nat.le_succ _)
  held n := by
    have hnone : (w.creating node).slavesOf w.nextNode = [] := by
      rw [World.slavesOf, w.creating_heap_self, hslaves]
      rfl
    have hsame : (w.creating node).holdings nodes = w.holdings nodes :=
      World.holdings_congr fun m hm =>
        congrArg (fun x : Node => x.slaves.getD []) (w.creating_heap_of_lt node (h.lt hm))
    rw [count_holdings_add hadd hnone, hsame, h.held]
    exact (born_succ h.later n).symm
  releases := h.releases

/-- A new node is a replica of one in the dictionary. -/
theorem Gathered.replica {node : Node} {m : NodeId} (hm : m ∈ nodes.vals) :
    Gathered w₀ ((w.creating node).place m { (w.creating node).heap m with
      slaves := some (((w.creating node).heap m).slaves.getD [] ++ [w.nextNode]) }) nodes where
  later := h.later.trans (Nat.le_succ _)
  held n := by
    have hold : ∀ x, x < w.nextNode → (w.creating node).slavesOf x = w.slavesOf x := fun x hx =>
      congrArg (fun x : Node => x.slaves.getD []) (w.creating_heap_of_lt node hx)
    have hsame : (w.creating node).holdings nodes = w.holdings nodes :=
      World.holdings_congr fun x hx => hold x (h.lt hx)
    rw [count_holdings_slave (w := w.creating node) h.nodup_vals hm ?_ ?_, hsame, h.held]
    · exact (born_succ h.later n).symm
    · rw [World.slavesOf, World.place_heap_self]
      rfl
    · intro x hx
      rw [World.slavesOf, World.place_heap_of_ne _ hx]
      rfl
  releases := h.releases

end Gathering

section Slots

variable {w₀ : World ω}

theorem parseSlotsReplicas_gathered (tcpHost : Bytes) {nodes : NodeDict} {m : NodeId}
    (hm : m ∈ nodes.vals) (es : List Reply) : ∀ {w : World ω}, Gathered w₀ w nodes →
      wp (parseSlotsReplicas tcpHost m es) (fun _ w' => Gathered w₀ w' nodes) w := by
  induction es with
  | nil => exact fun h => h
  | cons e es ih =>
    intro w h
    unfold parseSlotsReplicas
    cases slotsEndpoint tcpHost e with
    | error c => exact h
    | ok ep =>
      dsimp only
      rw [wp_bind, wp_get]
      split
      · unfold nodeGetWithSlots addSlave
        rw [wp_bind, wp_newNode_creating, wp_bind, wp_modifyNode]
        exact ih (h.replica hm)
      · exact ih h

theorem parseSlotsRegion_gathered (tcpHost : Bytes) {nodes : NodeDict} (region : Reply)
    {w : World ω} (h : Gathered w₀ w nodes) :
    wp (parseSlotsRegion tcpHost nodes region) (fun r w' => Gathered w₀ w' r.1) w := by
  unfold parseSlotsRegion
  split
  · split
    · exact h
    · split
      · exact h
      · rename_i host port _
        split
        · unfold addSlotRange
          rw [wp_bind, wp_modifyNode]
          exact h.edit rfl
        · rename_i hfind
          unfold nodeGetWithSlots
          rw [wp_bind, wp_newNode_creating]
          split
          · rename_i hadd
            have hsome := (HashTable.add_isSome_iff _ _ w.nextNode).mpr hfind
            rw [hadd] at hsome
            cases hsome
          · rename_i nodes' hadd
            unfold addSlotRange
            rw [wp_bind, wp_modifyNode, wp_bind]
            have hmem : w.nextNode ∈ nodes'.vals := by
              rw [HashTable.mem_vals_iff]
              exact ⟨hostPort host port, by rw [HashTable.find_add hadd, if_pos rfl]⟩
            refine wp_mono (parseSlotsReplicas_gathered tcpHost hmem _ ?_) fun _ w' h' => h'
            exact (h.add rfl hadd).edit rfl
  · exact h

theorem parseSlotsRegions_gathered (tcpHost : Bytes) (regions : List Reply) :
    ∀ {nodes : NodeDict} {w : World ω}, Gathered w₀ w nodes →
      wp (parseSlotsRegions tcpHost nodes regions) (fun r w' => Gathered w₀ w' r.1) w := by
  induction regions with
  | nil => exact fun h => h
  | cons region rest ih =>
    intro nodes w h
    unfold parseSlotsRegions
    rw [wp_bind]
    refine wp_mono (parseSlotsRegion_gathered tcpHost region h) fun r w' h' => ?_
    obtain ⟨nodes', err⟩ := r
    cases err with
    | some c => exact h'
    | none => exact ih h'

/-- An error is reported, and what was gathered is released. -/
theorem Gathered.failed {w : World ω} {nodes : NodeDict} (h : Gathered w₀ w nodes) (e : Complaint)
    (n : NodeId) : (parseFailed nodes e w).2.releases n =
      w₀.releases n + born w₀.nextNode (parseFailed nodes e w).2.nextNode n := by
  show (dictRelease nodes (w.complaining e)).2.releases n =
    w₀.releases n + born w₀.nextNode (dictRelease nodes (w.complaining e)).2.nextNode n
  rw [dictRelease_eq, releases_freeing]
  show w.releases n + (w.holdings nodes).count n = _ + born w₀.nextNode w.nextNode n
  rw [h.releases, h.held]

theorem parseClusterSlots_count (tcpHost : Bytes) (reply : Reply) (w : World ω) :
    wp (parseClusterSlots tcpHost reply) (fun r w' => ∀ n,
      ((r.map w'.holdings).getD []).count n + w'.releases n =
        w.releases n + born w.nextNode w'.nextNode n) w := by
  have hfailed : ∀ {w₁ : World ω} {nodes : NodeDict} (e : Complaint), Gathered w w₁ nodes →
      wp (parseFailed nodes e) (fun r w' => ∀ n,
        ((r.map w'.holdings).getD []).count n + w'.releases n =
          w.releases n + born w.nextNode w'.nextNode n) w₁ := by
    intro w₁ nodes e h n
    show ([] : List NodeId).count n + (parseFailed nodes e w₁).2.releases n = _
    rw [List.count_nil, Nat.zero_add]
    exact h.failed e n
  unfold parseClusterSlots
  split
  · rw [wp_bind]
    refine wp_mono (parseSlotsRegions_gathered tcpHost _ (gathered_empty w)) fun r w' h' => ?_
    obtain ⟨nodes, err⟩ := r
    cases err with
    | some c => exact hfailed c h'
    | none =>
      intro n
      show (w'.holdings nodes).count n + w'.releases n =
        w.releases n + born w.nextNode w'.nextNode n
      rw [h'.held, h'.releases, Nat.add_comm]
  · exact hfailed _ (gathered_empty w)

end Slots

/-! ### CLUSTER NODES -/

/-- With nothing to say about the nodes of other parses. -/
theorem Ended.outside {w₀ w : World ω} {made : List NodesLine} {scan : NodesScan}
    {stop : Option Stop} (h : Ended w₀ w made scan stop) {n : NodeId}
    (hn : ¬ (w₀.nextNode ≤ n ∧ n < w.nextNode)) :
    n ∉ w.holdings scan.nodes ∧ w.releases n = w₀.releases n := by
  have hlines : ∀ {w₁ : World ω} {scan₁ : NodesScan}, Scanned w₀ w₁ made scan₁ →
      w₁.nextNode ≤ w.nextNode → n ∉ w₁.holdings scan₁.nodes := by
    intro w₁ scan₁ hs hle hmem
    obtain ⟨l, hl⟩ := hs.made_of_mem_holdings hmem
    exact hn ⟨hl.1, Nat.lt_of_lt_of_le (hs.lt hl) hle⟩
  have hrefused : ∀ {w₁ : World ω} {scan₁ : NodesScan} {node : Node}, Scanned w₀ w₁ made scan₁ →
      w = w₁.refusing node → n ≠ w₁.nextNode ∧ w.releases n = w₀.releases n := by
    intro w₁ scan₁ node hs heq
    have hnext : w.nextNode = w₁.nextNode + 1 := by rw [heq]; rfl
    have hne : n ≠ w₁.nextNode := by
      rintro rfl
      refine hn ⟨?_, hnext ▸ Nat.lt_succ_self _⟩
      rw [hs.nextNode]
      exact Nat.le_add_right _ _
    refine ⟨hne, ?_⟩
    rw [heq, w₁.refusing_releases, hs.releases, List.count_singleton,
      if_neg fun h => hne (beq_iff_eq.mp h).symm]
    rfl
  cases stop with
  | none =>
    have hs : Scanned w₀ w made scan := h
    exact ⟨hlines hs le_rfl, hs.releases n⟩
  | some s =>
    cases s with
    | line c =>
      have hs : Scanned w₀ w made scan := h
      exact ⟨hlines hs le_rfl, hs.releases n⟩
    | node c =>
      obtain ⟨w₁, role, node, hd, hs, rfl⟩ := h
      rw [hs.holdings_refusing]
      exact ⟨hlines hs (Nat.le_succ _), (hrefused hs rfl).2⟩
    | name =>
      obtain ⟨w₁, scan₁, node, hd, hs, hadd, rfl⟩ := h
      obtain ⟨hne, hreleases⟩ := hrefused hs rfl
      refine ⟨fun hmem => ?_, hreleases⟩
      have hslaves : (w₁.refusing node).slavesOf w₁.nextNode = [] := by
        show ((w₁.creating node).heap w₁.nextNode).slaves.getD [] = []
        rw [w₁.creating_heap_self, hd.slaves]
        rfl
      have hcount := count_holdings_add hadd hslaves n
      rw [hs.holdings_refusing, List.count_eq_zero.mpr (hlines hs (Nat.le_succ _)),
        List.count_singleton, if_neg fun h => hne (beq_iff_eq.mp h).symm] at hcount
      exact List.count_eq_zero.mp hcount hmem

/-- Every node of an orderly reply is accounted for, and so are all others. -/
theorem parseClusterNodes_count (tcpHost : Bytes) {reply : Reply} {w : World ω}
    (h : OneOwner (survey w.cc.addSlave [] (readNodesReply tcpHost w.cc.addSlave reply))) :
    wp (parseClusterNodes tcpHost reply) (fun r w' => ∀ n,
      ((r.map w'.holdings).getD []).count n + w'.releases n =
        w.releases n + born w.nextNode w'.nextNode n) w := by
  intro n
  by_cases hn : w.nextNode ≤ n ∧ n < (parseClusterNodes tcpHost reply w).2.nextNode
  · rw [born, if_pos hn]
    exact (parseClusterNodes_accounted_iff tcpHost reply w).mpr h n hn.1 hn.2
  · rw [born, if_neg hn]
    obtain ⟨scan, w₁, hend, hres⟩ := parseClusterNodes_ended tcpHost reply w
    split at hres
    · obtain ⟨hr, hw⟩ := hres
      rw [hw] at hn
      obtain ⟨hno, hreleases⟩ := hend.outside hn
      rw [hr, hw, hreleases]
      show (w₁.holdings scan.nodes).count n + _ = _
      rw [List.count_eq_zero.mpr hno, Nat.zero_add]
      rfl
    · obtain ⟨hr, e, hw⟩ := hres
      rw [hw] at hn
      obtain ⟨hno, hreleases⟩ := hend.outside hn
      rw [hr, hw, releases_releasing, List.count_eq_zero.mpr hno]
      show 0 + (w₁.releases n + 0) = _
      rw [hreleases, Nat.zero_add]

/-! ### Either -/

/-- A reply by which no node is lost and none released twice. -/
def Manner.Orderly (s : Manner) (r : Reply) : Prop :=
  s.useSlots = true ∨ ∀ host, OneOwner (survey s.addSlave [] (readNodesReply host s.addSlave r))

/-- Without replicas no line is a stray one, and masters are not told apart by their names. -/
theorem oneOwner_survey (ls : List NodesLine) : ∀ made : List NodesLine,
    (∀ l ∈ made ++ ls, ∀ node k, l ≠ .slave node k) → OneOwner (survey false made ls) := by
  have hno : ∀ made : List NodesLine, (∀ l ∈ made, ∀ node k, l ≠ .slave node k) → NoStray made := by
    intro made h l hl hstray
    cases l with
    | slave node k => exact h _ hl node k rfl
    | _ => exact hstray
  induction ls with
  | nil =>
    intro made h
    exact ⟨trivial, hno made (by simpa using h)⟩
  | cons l ls ih =>
    intro made h
    have hmade : ∀ l ∈ made, ∀ node k, l ≠ .slave node k :=
      fun l hl => h l (List.mem_append_left _ hl)
    have hskip : ∀ l ∈ made ++ ls, ∀ node k, l ≠ .slave node k := by
      intro l hl
      apply h
      simp only [List.mem_append, List.mem_cons] at hl ⊢
      tauto
    cases l with
    | bad c node =>
      cases node with
      | none => exact ⟨trivial, hno made hmade⟩
      | some node => exact ⟨trivial, hno made hmade⟩
    | skipped => exact ih made hskip
    | master node fields =>
      unfold survey
      split
      · exact ⟨trivial, hno made hmade⟩
      · rw [Bool.false_and, if_neg (by decide)]
        apply ih
        simpa using h
    | slave node k => exact absurd rfl (h _ (by simp) node k)

theorem Manner.orderly_of_settings {s : Manner} (h : s.useSlots = true ∨ s.addSlave = false)
    (r : Reply) : s.Orderly r := by
  rcases h with h | h
  · exact Or.inl h
  · refine Or.inr fun host => ?_
    rw [h]
    apply oneOwner_survey
    intro l hl node k heq
    have hread : l ∈ readNodesReply host false r := by simpa using hl
    obtain ⟨line, -, rfl⟩ := List.mem_map.mp hread
    have hsane := readNodesLine_sane host false line
    rw [heq] at hsane
    exact absurd hsane.2 (by decide)

theorem parseTopology_filed {w : World ω} (ho : Ordered w) {r : Reply}
    (hr : w.manner.Orderly r) (host : Bytes) :
    wp (parseTopology w.manner.useSlots host r) (fun d w' => Filed w d w') w := by
  have hnew := parseTopology_newcomers w.manner.useSlots host r w
  have hcalm := (parseTopology_fresh w.manner.useSlots host r w).1
  refine Filed.of_newcomers ho hcalm hnew ?_
  show wp (parseTopology w.manner.useSlots host r) (fun d w' => ∀ n,
    ((d.map w'.holdings).getD []).count n + w'.releases n =
      w.releases n + born w.nextNode w'.nextNode n) w
  unfold parseTopology
  split
  · exact parseClusterSlots_count host r w
  · rename_i huse
    exact parseClusterNodes_count host (hr.resolve_left huse host)
