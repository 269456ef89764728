/-
# Links across an update of the slot map

A new node set takes over the connections of the addresses that stay, and the old nodes are
released with what is left.  The links are one to one before and after; the connections that
are let go were left behind by released nodes, and wait to be freed.
-/
import HiredisCluster.Newcomers
import HiredisCluster.Replacing

open Program

variable {ω : Type}

/-- Nodes that are not in use any more are released with their connections. -/
theorem Linked.freeing {w : World ω} (h : Linked none w) {ns : List NodeId}
    (hns : ∀ n ∈ ns, n < w.nextNode ∧ ¬ w.Known n) : Linked none (w.freeing ns) := by
  have hgone : ∀ a, w.LetGo a → (w.freeing ns).LetGo a := by
    rintro a ⟨n, hn, hacon, hreleased, hno⟩
    exact ⟨n, hn, hacon, List.mem_append_left _ hreleased, hno⟩
  refine ⟨h.young, h.live, h.named, h.held, h.owner, fun a ha hd hl => hgone a (h.letGo a ha hd hl),
    fun a ha => ?_, h.replicas, fun a ha => by cases ha⟩
  rcases List.mem_append.mp ha with ha | ha
  · exact ⟨(h.closing a ha).1, fun hlive => hgone a ((h.closing a ha).2 hlive)⟩
  · obtain ⟨n, hn, hacon⟩ := List.mem_filterMap.mp ha
    obtain ⟨hlt, hno⟩ := hns n hn
    refine ⟨h.young n hlt a hacon, fun _ => ⟨n, hlt, hacon, ?_, hno⟩⟩
    exact List.mem_append_right _ (List.mem_flatMap.mpr ⟨n, hn, by simp⟩)

/-- A dictionary of new nodes has been parsed. -/
structure ParsedSet (w₀ w : World ω) (d : NodeDict) : Prop where
  before : Ordered w₀
  linked : Paired none w₀
  newcomers : Newcomers w₀ w
  nodes : w.cc.nodes = w₀.cc.nodes
  fresh : AllFresh w₀.nextNode w d

section Installing

variable {w₀ w : World ω} {d : NodeDict} (h : ParsedSet w₀ w d)

include h

theorem ParsedSet.recent : Recent w₀ w d := by
  intro n hn
  obtain ⟨k, hk⟩ := (d.mem_vals_iff n).mp hn
  have hfresh := h.fresh k n ((d.find_eq_some_iff k n).mp hk)
  exact ⟨hfresh.lo_le, hfresh.lt⟩

theorem ParsedSet.stillLinked : Paired none w := h.linked.same h.newcomers.toSameLinks

theorem ParsedSet.acon_eq_none {n : NodeId} (hn : n ∈ d.vals) : (w.heap n).acon = none :=
  (h.newcomers.new n (h.recent n hn).1 (h.recent n hn).2).1

theorem ParsedSet.known {n : NodeId} : w.Known n ↔ w₀.Known n := by
  rw [World.Known, World.nodeList, h.nodes]
  rfl

/-- The nodes in use are older than those that were parsed. -/
theorem ParsedSet.lt_of_known {n : NodeId} (hn : w.Known n) : n < w₀.nextNode :=
  h.before.routed.lt n (h.known.mp hn)

theorem ParsedSet.notMem {n : NodeId} (hn : n < w₀.nextNode) : n ∉ d.vals := fun hmem =>
  absurd hn (not_lt.mpr (h.recent n hmem).1)

/-- Old nodes have old replicas. -/
theorem ParsedSet.oldReplicas {n r : NodeId} (hn : n < w₀.nextNode) (hr : r ∈ w.slavesOf n) :
    r < w₀.nextNode := by
  rw [h.newcomers.slaves n hn] at hr
  exact h.linked.replicas n hn r hr

variable {old : NodeDict} (hold : ∀ n, n ∈ old.vals ↔ w.Known n)

include hold

theorem ParsedSet.heirs (hfiled : old.vals.Nodup) : Heirs old d.vals w where
  nodup := d.nodup_vals (fun n => (w.heap n).addr) fun k n hn => (h.fresh k n hn).addr
  bare n hn := by
    obtain ⟨k, hk⟩ := (d.mem_vals_iff n).mp hn
    exact ⟨(h.fresh k n ((d.find_eq_some_iff k n).mp hk)).con, h.acon_eq_none hn⟩
  new n hn hmem := h.notMem (h.lt_of_known ((hold n).mp hmem)) hn
  addr n hn m hm heq := by
    obtain ⟨k, hk⟩ := (d.mem_vals_iff n).mp hn
    obtain ⟨k', hk'⟩ := (d.mem_vals_iff m).mp hm
    rw [(h.fresh k n ((d.find_eq_some_iff k n).mp hk)).addr,
      (h.fresh k' m ((d.find_eq_some_iff k' m).mp hk')).addr] at heq
    rw [heq, hk'] at hk
    exact (Option.some.inj hk).symm
  filed := hfiled
  owner n hn m hm a ha hma := by
    have hlt : ∀ x ∈ old.vals, x < w.nextNode := fun x hx =>
      lt_of_lt_of_le (h.lt_of_known ((hold x).mp hx)) h.newcomers.nextNode
    exact (h.stillLinked.unique (hlt n hn) (hlt m hm) ((hold n).mp hn) ha hma).symm

variable {w' : World ω} (hs : Handover old d.vals w w')

include hs

/-- **The new node set is linked** to the connections it has taken over. -/
theorem ParsedSet.retaken (cc : Context) (hcc : cc.nodes = some d) :
    Linked none ({ w' with cc := cc } : World ω) := by
  set w₃ : World ω := { w' with cc := cc }
  have hl := h.stillLinked
  have hnext : w'.nextNode = w.nextNode := by rw [hs.rest]
  have hnextA : w'.nextAConn = w.nextAConn := by rw [hs.rest]
  have hclosing : w'.closing = w.closing := by rw [hs.rest]
  have htrace : w'.trace = w.trace := by rw [hs.rest]
  have hknown : ∀ n, w₃.Known n ↔ n ∈ d.vals := fun n => by
    rw [World.Known, World.nodeList_of_some (w := w₃) hcc]
  -- the node that a new one takes over from is in use
  have hmate : ∀ t f, w.mate old t = some f → w.Known f ∧ f < w.nextNode := fun t f hf =>
    ⟨(hold f).mp (World.mate_mem hf),
      lt_of_lt_of_le (h.lt_of_known ((hold f).mp (World.mate_mem hf))) h.newcomers.nextNode⟩
  have halive : ∀ a, (w'.aconns a).alive = (w.aconns a).alive := by
    intro a
    rcases hs.aconn_cases a with ⟨t, -, f, -, -, heq⟩ | ⟨-, heq⟩
    · rw [heq]
    · rw [heq]
  have hbare : ∀ n a, (w.heap n).acon = some a → n ∉ d.vals := fun n a ha hmem => by
    cases (h.acon_eq_none hmem).symm.trans ha
  -- what a released node left behind stays left behind
  have hgone : ∀ a, w.LetGo a → w₃.LetGo a := by
    rintro a ⟨n, hn, hacon, hreleased, hno⟩
    have hnew := hbare n a hacon
    refine ⟨n, hnext.symm ▸ hn, ?_, htrace.symm ▸ hreleased, fun hk => hnew ((hknown n).mp hk)⟩
    show (w'.heap n).acon = some a
    rw [hs.other n (fun hmem => absurd hmem hnew) fun t _ hf => hno (hmate t n hf).1]
    exact hacon
  -- a node took over its connection, or it keeps both ends of its link
  have hheld : ∀ n < w.nextNode, ∀ a, (w'.heap n).acon = some a →
      (n ∈ d.vals ∧ (w'.aconns a).data = some n ∧ a < w.nextAConn) ∨
        n ∉ d.vals ∧ (w.heap n).acon = some a ∧ w'.aconns a = w.aconns a := by
    intro n hn a ha
    rcases hs.acon_cases ha with ⟨f, hmem, hf, hfa⟩ | ⟨hno, ha⟩
    · refine Or.inl ⟨hmem, ?_, hl.young f (hmate n f hf).2 a hfa⟩
      rw [hs.points n hmem f a hf hfa]
    · refine Or.inr ⟨hbare n a ha, ha, hs.keeps a fun t ht f hf hfa => ?_⟩
      obtain ⟨hkf, hflt⟩ := hmate t f hf
      obtain rfl := hl.unique hflt hn hkf hfa ha
      exact hno t ht hf
  refine ⟨fun n hn a ha => ?_, fun a ha => ?_, fun n hn a ha => ?_, fun n hn hk a ha => ?_,
    fun a n ha hd => ?_, fun a ha hd _ => ?_, fun a ha => ?_, fun n hn r hr => ?_,
    fun a ha => by cases ha⟩
  · show a < w'.nextAConn
    rw [hnextA]
    rcases hheld n (hnext ▸ hn) a ha with ⟨-, -, hlt⟩ | ⟨-, ha, -⟩
    · exact hlt
    · exact hl.young n (hnext ▸ hn) a ha
  · show a < w'.nextAConn
    rw [hnextA]
    exact hl.live a ((halive a).symm.trans ha)
  · show (w'.aconns a).data = some n ∨ (w'.aconns a).data = none
    rcases hheld n (hnext ▸ hn) a ha with ⟨-, hdata, -⟩ | ⟨-, ha, heq⟩
    · exact Or.inl hdata
    · rw [heq]
      exact hl.named n (hnext ▸ hn) a ha
  · rcases hheld n (hnext ▸ hn) a ha with ⟨-, hdata, -⟩ | ⟨hno, -⟩
    · exact hdata
    · exact absurd ((hknown n).mp hk) hno
  · show n < w'.nextNode ∧ (w'.heap n).acon = some a
    have hd : (w'.aconns a).data = some n := hd
    have ha : (w'.aconns a).alive = true := ha
    rw [halive] at ha
    rw [hnext]
    rcases hs.aconn_cases a with ⟨t, ht, f, hf, hfa, heq⟩ | ⟨hno, heq⟩
    · rw [heq] at hd
      obtain rfl := Option.some.inj hd
      rw [(hs.takes t ht f hf).1]
      exact ⟨(h.recent t ht).2, hfa⟩
    · rw [heq] at hd
      obtain ⟨hlt, hacon⟩ := hl.owner a n ha hd
      refine ⟨hlt, ?_⟩
      rw [hs.other n (fun hmem => absurd hmem (hbare n a hacon)) fun t ht hf =>
        hno t ht n hf hacon]
      exact hacon
  · have hd : (w'.aconns a).data = none := hd
    have ha : (w'.aconns a).alive = true := ha
    rw [halive] at ha
    rcases hs.aconn_cases a with ⟨t, -, f, -, -, heq⟩ | ⟨-, heq⟩
    · rw [heq] at hd
      cases hd
    · rw [heq] at hd
      exact hgone a (hl.letGo a ha hd (by simp))
  · have ha : a ∈ w.closing := hclosing ▸ ha
    show a < w'.nextAConn ∧ ((w'.aconns a).alive = true → w₃.LetGo a)
    rw [hnextA, halive]
    exact ⟨(hl.closing a ha).1, fun hlive => hgone a ((hl.closing a ha).2 hlive)⟩
  · have hr : r ∈ w'.slavesOf n := hr
    have hn : n < w.nextNode := hnext ▸ hn
    show r < w'.nextNode
    rw [hs.slavesOf_eq] at hr
    rw [hnext]
    exact hl.replicas n hn r hr

/-- A connection was taken over by a new node, or its node is released with it. -/
theorem ParsedSet.rehomed (cc : Context) (hcc : cc.nodes = some d) {a : AConnId} {m : NodeId}
    (ha : (w'.aconns a).alive = true) (hd : (w'.aconns a).data = some m) :
    (w'.aconns a).freeing = false ∧ (({ w' with cc := cc } : World ω).Known m ∨
      a ∈ w'.closing ++ w'.aconsOf (w'.holdings old)) := by
  have hl := h.stillLinked
  rcases hs.aconn_cases a with ⟨t, ht, f, hf, hfa, heq⟩ | ⟨hno, heq⟩
  · rw [heq] at ha hd ⊢
    obtain rfl := Option.some.inj hd
    have hkf : w.Known f := (hold f).mp (World.mate_mem hf)
    have hflt := lt_of_lt_of_le (h.lt_of_known hkf) h.newcomers.nextNode
    refine ⟨(hl.homed a f ha (hl.held f hflt hkf a hfa)).1, Or.inl ?_⟩
    rwa [World.Known, World.nodeList_of_some (w := { w' with cc := cc }) hcc]
  · rw [heq] at ha hd ⊢
    obtain ⟨hfreeing, hhome⟩ := hl.homed a m ha hd
    refine ⟨hfreeing, Or.inr (List.mem_append.mpr ?_)⟩
    rcases hhome with hk | hclosing
    · -- the old node still has the connection when it is released
      have hacon := (hl.owner a m ha hd).2
      have hkeeps : w'.heap m = w.heap m := by
        refine hs.other m (fun hmem => ?_) fun t ht hf => hno t ht m hf hacon
        cases (h.acon_eq_none hmem).symm.trans hacon
      refine Or.inr (List.mem_filterMap.mpr ⟨m, mem_holdings.mpr ⟨m, (hold m).mpr hk, Or.inl rfl⟩, ?_⟩)
      rw [hkeeps]
      exact hacon
    · left
      rw [hs.rest]
      exact hclosing

/-- **The old nodes are released** with what is left with them. -/
theorem ParsedSet.installed (cc : Context) (hcc : cc.nodes = some d) :
    Paired none (({ w' with cc := cc } : World ω).freeing (w'.holdings old)) := by
  refine ⟨(h.retaken hold hs cc hcc).freeing fun n hn => ?_,
    fun a m ha hd => h.rehomed hold hs cc hcc ha hd, fun a ha => by cases ha⟩
  have hlo : n < w₀.nextNode := by
    obtain ⟨m, hm, rfl | hr⟩ := mem_holdings.mp hn
    · exact h.lt_of_known ((hold n).mp hm)
    · rw [hs.slavesOf_eq] at hr
      exact h.oldReplicas (h.lt_of_known ((hold m).mp hm)) hr
  have hnext : w'.nextNode = w.nextNode := by rw [hs.rest]
  refine ⟨hnext.symm ▸ lt_of_lt_of_le hlo h.newcomers.nextNode, fun hk => h.notMem hlo ?_⟩
  rwa [World.Known, World.nodeList_of_some (w := { w' with cc := cc }) hcc] at hk

end Installing

section Handing

variable {w₀ w : World ω} {d : NodeDict}

/-- The slot table is set first. -/
theorem ParsedSet.tabled (h : ParsedSet w₀ w d) (t : SlotTable) : ParsedSet w₀ { w with
    cc := { w.cc with table := some t, routeVersion := w.cc.routeVersion + 1 } } d := by
  refine ⟨h.before, h.linked, ⟨h.newcomers.toSameLinks.trans ?_, h.newcomers.brood⟩, h.nodes,
    fun k n hn => ?_⟩
  · exact sameLinks_of_edit rfl rfl rfl rfl rfl rfl rfl
  · have hfresh := h.fresh k n hn
    exact ⟨hfresh.lo_le, hfresh.lt, hfresh.addr, hfresh.port, hfresh.con⟩

theorem World.mem_vals_iff_known {old : NodeDict} (hold : w.cc.nodes = some old) (n : NodeId) :
    n ∈ old.vals ↔ w.Known n := by
  rw [World.Known, World.nodeList_of_some hold]

/-- Then the connections are handed over. -/
theorem ParsedSet.handedOver (h : ParsedSet w₀ w d) {old : NodeDict} (hold : w.cc.nodes = some old)
    (hfiled : ∀ k n, (k, n) ∈ old.entries → (w.heap n).addr = k) :
    wp (clusterNodesSwapCtx old d.vals) (fun _ w' => Handover old d.vals w w') w :=
  clusterNodesSwapCtx_handover d.vals (h.heirs (World.mem_vals_iff_known hold)
    (old.nodup_vals (fun n => (w.heap n).addr) hfiled))

end Handing

/-- **Installing what was parsed keeps the links one to one.** -/
theorem paired_installNodes {w₀ w : World ω} {d : NodeDict} (h : ParsedSet w₀ w d) (ho : Ordered w) :
    Paired none (installNodes d w).2 := by
  show wp (installNodes d) (fun _ w' => Paired none w') w
  unfold installNodes
  rw [wp_bind, wp_get]
  split
  · rename_i e _
    have hfailed : Newcomers w₀ (parseFailed d e w).2 := h.newcomers.failed h.recent e
    exact h.linked.same hfailed.toSameLinks
  · rename_i t _
    rw [wp_bind, wp_modifyCc]
    split
    · -- nothing is handed over, and nothing is released
      rename_i hold
      have hnone : ∀ n, n ∈ (HashTable.empty : NodeDict).vals ↔ w.Known n := fun n => by
        rw [World.Known, World.nodeList, hold]
        simp [HashTable.vals, HashTable.entries, HashTable.empty]
      have hs : Handover HashTable.empty d.vals w w := by
        have hmate : ∀ t f, w.mate HashTable.empty t ≠ some f := fun t f hf => by
          have := World.mate_mem hf
          simp [HashTable.vals, HashTable.entries, HashTable.empty] at this
        exact ⟨fun t _ f hf => absurd hf (hmate t f), fun _ _ _ => rfl,
          fun t _ f _ hf => absurd hf (hmate t f), fun _ _ => rfl, rfl⟩
      have hl := h.installed hnone hs { w.cc with
        table := some t, routeVersion := w.cc.routeVersion + 1, nodes := some d } rfl
      have hheld : w.holdings HashTable.empty = [] := rfl
      rw [hheld, World.freeing_nil] at hl
      exact hl
    · rename_i old hold
      have h₁ := h.tabled t
      rw [wp_bind]
      refine wp_mono (h₁.handedOver hold (ho.routed.view.filed old hold)) fun _ w₂ hs => ?_
      rw [wp_bind, wp_modifyCc, wp_bind, wp_dictRelease, wp_pure]
      exact h₁.installed (World.mem_vals_iff_known hold) hs _ rfl
