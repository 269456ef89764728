/-
# Selecting a node

`selectNode` takes a random number modulo the size of the dictionary of nodes, so the
dictionary must not be empty.  A parse never yields an empty one, and a redirect and a
valid address add a node; but `redisClusterSetOptionAddNode` creates the dictionary
before it looks at the address.

`Reaches.selectable`: while no invalid address is the first to be added, no node is
selected from an empty dictionary.
-/
import HiredisCluster.Client
import HiredisCluster.NodesReply
import HiredisCluster.SlotsReply
import HiredisCluster.Updating

open Creation Program

variable {ω : Type}

/-! ## What a parse yields -/

theorem surveySlots_regions (tcpHost : Bytes) (addSlave : Bool) (regions : List Reply) :
    ∀ s : SlotsSurvey, (surveySlots tcpHost addSlave s regions).2 = none →
      (surveySlots tcpHost addSlave s regions).1.regions.length =
        s.regions.length + regions.length := by
  induction regions with
  | nil => exact fun _ _ => rfl
  | cons region rest ih =>
    intro s hs
    have hone : (surveyRegion tcpHost addSlave s region).2 = none →
        (surveyRegion tcpHost addSlave s region).1.regions.length = s.regions.length + 1 := by
      unfold surveyRegion
      split
      · intro h
        cases h
      · dsimp only
        split
        · exact fun _ => List.length_append
        · exact fun _ => List.length_append
    unfold surveySlots at hs ⊢
    split at hs
    · cases hs
    · rename_i s' hregion
      rw [hregion] at hone
      rw [ih s' hs, hone rfl, List.length_cons]
      omega

theorem parseClusterSlots_nonempty {tcpHost : Bytes} {reply : Reply} {w : World ω} {d : NodeDict}
    (h : (parseClusterSlots tcpHost reply w).1 = some d) : d.vals ≠ [] := by
  cases hreply : slotsRegions reply with
  | none =>
    rw [parseClusterSlots_refused tcpHost hreply w] at h
    cases h
  | some regions =>
    obtain ⟨nodes, w₁, hs, hres⟩ := parseClusterSlots_scanned tcpHost hreply w
    split at hres
    · rename_i hend
      obtain rfl := Option.some.inj (hres.1.symm.trans h)
      have hlen := surveySlots_regions tcpHost w.cc.addSlave regions {} hend
      have hpos : 0 < regions.length := by
        unfold slotsRegions at hreply
        split at hreply
        · obtain rfl := Option.some.inj hreply
          exact Nat.succ_pos _
        · cases hreply
      -- the master of the first region is filed
      obtain ⟨g, hg⟩ := List.exists_mem_of_length_pos (by rw [hlen]; omega)
      obtain ⟨x, hx, hrole, -⟩ := SlotsSurvey.knows_iff.mp (hs.covered g hg)
      obtain ⟨n, hn⟩ := MadeFor.of_mem w.nextNode hx
      exact List.ne_nil_of_mem ((HashTable.mem_vals_iff _ n).mpr ⟨_, (hs.filed _ n).mpr ⟨x, hn, hrole, rfl⟩⟩)
    · rw [hres.1] at h
      cases h

theorem parseClusterNodes_nonempty {tcpHost : Bytes} {reply : Reply} {w : World ω} {d : NodeDict}
    (h : (parseClusterNodes tcpHost reply w).1 = some d) : d.vals ≠ [] := by
  obtain ⟨scan, w₁, hend, hres⟩ := parseClusterNodes_ended tcpHost reply w
  split at hres
  · rename_i hfound
    obtain ⟨hnone, hranges⟩ := hfound
    obtain rfl := Option.some.inj (hres.1.symm.trans h)
    rw [Option.isNone_iff_eq_none.mp hnone] at hend
    have hs : Scanned w w₁ _ scan := hend
    -- ranges come from the line of a master
    obtain ⟨k, hk, hpos⟩ := List.sum_pos_iff_exists_pos_nat.mp hranges
    obtain ⟨l, hl, rfl⟩ := List.mem_map.mp hk
    cases l with
    | master node fields =>
      obtain ⟨n, hn⟩ := MadeFor.of_mem w.nextNode hl
      exact List.ne_nil_of_mem (hs.mem_vals.mpr ⟨node, fields, hn⟩)
    | bad c node => exact absurd hpos (Nat.lt_irrefl 0)
    | skipped => exact absurd hpos (Nat.lt_irrefl 0)
    | slave node k => exact absurd hpos (Nat.lt_irrefl 0)
  · rw [hres.1] at h
    cases h

/-! ## What leaves the dictionary alone -/

/-- The dictionary of nodes stays, and nothing has ended the process. -/
structure SameStock (w w' : World ω) : Prop where
  nodes : w'.cc.nodes = w.cc.nodes
  fatal : w'.acc.fatal = w.acc.fatal

instance : Std.Refl (@SameStock ω) := ⟨fun _ => ⟨rfl, rfl⟩⟩

instance : IsTrans (World ω) SameStock :=
  ⟨fun _ _ _ h h' => ⟨h'.nodes.trans h.nodes, h'.fatal.trans h.fatal⟩⟩

theorem Linking.sameStock {w w' : World ω} (h : Linking w w') : SameStock w w' := by
  obtain ⟨e, s, hcc⟩ := h.cc
  exact ⟨by rw [hcc], by rw [h.acc]⟩

theorem sameStock_modifyCc {f : Context → Context} (hf : ∀ cc, (f cc).nodes = cc.nodes) :
    Within SameStock (modifyCc f : Prog ω Unit) := fun _ => ⟨hf _, rfl⟩

theorem sameStock_dictRelease (d : NodeDict) : Within SameStock (dictRelease d : Prog ω Unit) :=
  (within_dictRelease (R := Calm) d).mono fun _ _ h => h.sameStock

theorem sameStock_redisAsyncCommand (H : Hiredis ω) (a : AConnId) (cb : ACallback) (q : Sent) :
    Within SameStock (redisAsyncCommand H a cb q) := by
  intro w
  have h := redisAsyncCommand_cases H a cb q w
  unfold wp at h
  rcases h with ⟨-, e, f, hw⟩ | ⟨-, e, hw⟩
  · rw [hw]
    exact ⟨rfl, rfl⟩
  · rw [hw]
    exact ⟨rfl, rfl⟩

instance (H : Hiredis ω) : OpenClosed H (@SameStock ω) where
  ask _ _ := ⟨rfl, rfl⟩
  failed _ _ _ := ⟨rfl, rfl⟩
  asyncSetError _ _ _ := ⟨rfl, rfl⟩
  sendNull a q := sameStock_redisAsyncCommand H a _ q
  attempted _ _ _ := ⟨rfl, rfl⟩
  newAConn _ _ _ _ := ⟨rfl, rfl⟩
  redisAsyncFree _ _ := ⟨rfl, rfl⟩
  linkAsync _ _ _ := ⟨rfl, rfl⟩

/-! ## The dictionary is not empty -/

/-- The dictionary of nodes, if there is one, has a node, and no node has been selected from
an empty one. -/
structure Selectable (w : World ω) : Prop where
  nodes : ∀ d, w.cc.nodes = some d → d.vals ≠ []
  fatal : w.acc.fatal ≠ some .emptyNodes

theorem Selectable.same {w w' : World ω} (hs : Selectable w) (hnodes : w'.cc.nodes = w.cc.nodes)
    (hfatal : w'.acc.fatal = w.acc.fatal) : Selectable w' :=
  ⟨fun d hd => hs.nodes d (hnodes.symm.trans hd), fun hf => hs.fatal (hfatal.symm.trans hf)⟩

theorem SameStock.stillSelectable {w w' : World ω} (h : SameStock w w') (hs : Selectable w) :
    Selectable w' := hs.same h.nodes h.fatal

theorem keeps_of_sameStock {α : Type} {m : Prog ω α} (h : Within SameStock m) :
    Keeps Selectable m := h.mono fun _ _ h => h.stillSelectable

/-- A dictionary with a node is installed. -/
theorem Selectable.installed {w w' : World ω} {d : NodeDict} (h : Selectable w)
    (hd : d.vals ≠ []) (hnodes : w'.cc.nodes = some d) (hfatal : w'.acc.fatal = w.acc.fatal) :
    Selectable w' :=
  ⟨fun d' hd' => by
    obtain rfl := Option.some.inj (hnodes.symm.trans hd')
    exact hd, fun hf => h.fatal (hfatal.symm.trans hf)⟩

theorem selectable_installNodes {d : NodeDict} (hd : d.vals ≠ []) :
    Keeps Selectable (installNodes d : Prog ω Status) := by
  refine within_bind within_get fun w => ?_
  split
  · exact keeps_of_sameStock (within_bind (fun _ => ⟨rfl, rfl⟩) fun _ =>
      within_bind (sameStock_dictRelease d) fun _ => within_pure _)
  · refine within_bind (keeps_of_sameStock (sameStock_modifyCc fun _ => rfl)) fun _ => ?_
    have hset : Keeps Selectable
        (modifyCc fun cc => { cc with nodes := some d } : Prog ω Unit) :=
      fun w hs => hs.installed hd rfl rfl
    split
    · exact within_bind hset fun _ => within_pure _
    · rename_i old _
      refine within_bind (fun w hs => ?_) fun _ => within_bind hset fun _ =>
        within_bind (keeps_of_sameStock (sameStock_dictRelease old)) fun _ => within_pure _
      have hw := swapped_clusterNodesSwapCtx old d.vals w
      exact hs.same (by rw [hw.cc]) (by rw [hw.async.1])

theorem selectable_updateNodesAndSlotmap {nodes : Option NodeDict}
    (h : ∀ d, nodes = some d → d.vals ≠ []) :
    Keeps Selectable (updateNodesAndSlotmap nodes : Prog ω Status) := by
  unfold updateNodesAndSlotmap
  split
  · exact within_pure _
  · refine within_bind (selectable_installNodes (h _ rfl)) fun s => ?_
    cases s with
    | err => exact within_pure _
    | ok =>
      refine within_bind (keeps_of_sameStock (within_bind (fun _ => ⟨rfl, rfl⟩) fun _ => ?_))
        fun _ => within_pure _
      exact sameStock_modifyCc fun _ => rfl

/-- What a parse yields is installed. -/
theorem selectable_parsed {m : Prog ω (Option NodeDict)} (hm : Within Calm m)
    (hd : ∀ w d, (m w).1 = some d → d.vals ≠ []) :
    Keeps Selectable (do
      let nodes ← m
      updateNodesAndSlotmap nodes : Prog ω Status) := by
  intro w hs
  show wp _ (fun _ w' => Selectable w') w
  rw [wp_bind]
  exact selectable_updateNodesAndSlotmap (hd w) _ ((hm w).sameStock.stillSelectable hs)

section Calls

variable (H : Hiredis ω)

theorem selectable_lawful {α : Type} {m : Prog ω α} (h : Within Linking m) : Keeps Selectable m :=
  keeps_of_sameStock (h.mono fun _ _ h => h.sameStock)

/-- An accepted redirect leads to a node in the dictionary. -/
theorem Selectable.learns {w w' : World ω} {d : NodeDict} {k : Bytes} {n : NodeId}
    (h : Selectable w) (hl : Learns w w') (hd : w'.cc.nodes = some d) (hk : d.find k = some n) :
    Selectable w' :=
  h.installed (List.ne_nil_of_mem ((HashTable.mem_vals_iff d n).mpr ⟨k, hk⟩)) hd (by rw [hl.acc])

theorem selectable_handleMoved (str : Bytes) : Keeps Selectable (handleMoved str : Prog ω _) := by
  intro w hs
  have h := handleMoved_spec str w
  unfold wp at h
  split at h
  · exact h.2.sameStock.stillSelectable hs
  · rename_i slotText endpoint _
    obtain ⟨n, d', w₁, -, hl, hd', hfind, hw'⟩ := h
    have hp := storeSlot_pointed (hiAtoi slotText) n w₁
    obtain ⟨t, hcc, -⟩ := hp.cc
    rw [hw']
    exact (hs.learns hl hd' hfind).same (by rw [hcc]) (by rw [hp.async.1])

theorem selectable_handleAsk (str : Bytes) : Keeps Selectable (handleAsk str : Prog ω _) := by
  intro w hs
  have h := handleAsk_spec str w
  unfold wp at h
  split at h
  · exact h.2.sameStock.stillSelectable hs
  · obtain ⟨n, d', -, hl, hd', hfind⟩ := h
    exact hs.learns hl hd' hfind

instance : CommandClosed (Keeping (@Selectable ω)) where
  ask _ := keeps_of_sameStock fun _ => ⟨rfl, rfl⟩
  modifyConn _ _ := keeps_of_sameStock fun _ => ⟨rfl, rfl⟩
  newConn _ _ _ := keeps_of_sameStock fun _ => ⟨rfl, rfl⟩
  setError _ _ := keeps_of_sameStock fun _ => ⟨rfl, rfl⟩
  wroteOwn _ _ _ := keeps_of_sameStock fun _ => ⟨rfl, rfl⟩
  wrote _ _ := keeps_of_sameStock fun _ => ⟨rfl, rfl⟩
  read _ _ _ _ := keeps_of_sameStock fun _ => ⟨rfl, rfl⟩
  closed _ := keeps_of_sameStock fun _ => ⟨rfl, rfl⟩
  userHook := keeps_of_sameStock fun _ => ⟨rfl, rfl⟩

instance : EditClosed (Keeping (@Selectable ω)) where
  looked _ _ := keeps_of_sameStock fun _ => ⟨rfl, rfl⟩
  deferred _ _ := keeps_of_sameStock fun _ => ⟨rfl, rfl⟩
  modifyCc hf := keeps_of_sameStock (sameStock_modifyCc fun cc => by
    obtain ⟨r, q, n, heq⟩ := hf.same cc
    rw [heq])
  cmdId _ _ := fun hs => ⟨hs.nodes, hs.fatal⟩
  disconnect _ := keeps_of_sameStock fun _ => ⟨rfl, rfl⟩
  handleMoved := selectable_handleMoved
  handleAsk := selectable_handleAsk

theorem selectable_handleReply (c : ConnId) : Keeps Selectable (clusterUpdateRouteHandleReply H c) :=
  within_handleReply H (within_redisGetReply H) (fun type => TalkClosed.setError (some type))
    (fun _ _ => selectable_parsed (within_parseClusterSlots _ _) fun _ _ => parseClusterSlots_nonempty)
    (fun _ _ => selectable_parsed (within_parseClusterNodes _ _) fun _ _ => parseClusterNodes_nonempty)
    c

instance : CallClosed H (Keeping (@Selectable ω)) where
  ctxGetByNode n := selectable_lawful fun w => (ctxGetByNode_links H n w).1.1
  updateSlotmap := within_redisClusterUpdateSlotmap H (selectable_handleReply H)
  handleReply := selectable_handleReply H

/-! ## Updates of the slot map -/

/-- **A node is selected from a dictionary that has one.** -/
theorem selectable_updateTarget (a : Option AConnId) : Keeps Selectable (updateTarget H a) := by
  unfold updateTarget
  split
  · exact within_pure _
  · intro w hs
    show wp _ (fun _ w' => Selectable w') w
    rw [wp_bind, wp_get]
    split
    · exact hs.same rfl rfl
    · rename_i nodes hnodes
      have hne := hs.nodes nodes hnodes
      unfold selectNode
      simp only [wp_bind, wp_ask, if_neg hne, wp_get, wp_pure]
      split
      · exact hs.same rfl rfl
      · exact keeps_of_sameStock (within_actxGetByNode H _) _ (hs.same rfl rfl)

theorem selectable_stampSlotmapUpdate : Keeps Selectable (stampSlotmapUpdate H) :=
  keeps_of_sameStock (within_bind (fun _ => ⟨rfl, rfl⟩) fun _ _ => ⟨rfl, rfl⟩)

theorem selectable_updateSlotMapAsync (a : Option AConnId) :
    Keeps Selectable (updateSlotMapAsync H a) := by
  have hfail : Keeps Selectable (do
      stampSlotmapUpdate H
      pure Status.err) :=
    within_bind (selectable_stampSlotmapUpdate H) fun _ => within_pure _
  refine within_bind within_get fun w => within_ite (within_pure _)
    (within_bind (selectable_updateTarget H a) fun a => ?_)
  cases a with
  | none => exact hfail
  | some a =>
    have hsend : Keeps Selectable (submitTopologyQuery H a) := keeps_of_sameStock
      (within_bind within_get fun _ => sameStock_redisAsyncCommand H a _ _)
    refine within_bind hsend fun s => ?_
    cases s with
    | ok => exact within_bind (keeps_of_sameStock fun _ => ⟨rfl, rfl⟩) fun _ => within_pure _
    | err => exact hfail

theorem selectable_topologyReplyCallback (a : AConnId) (b : Bool) (reply : Option Reply) :
    Keeps Selectable (topologyReplyCallback H a b reply) := by
  have hagain : Keeps Selectable (do
      let _ ← updateSlotMapAsync H none
      pure false) :=
    within_bind (selectable_updateSlotMapAsync H none) fun _ => within_pure _
  refine within_bind (selectable_stampSlotmapUpdate H) fun _ => ?_
  split
  · exact hagain
  · rename_i r
    refine within_get_bind fun w hs => ?_
    show wp _ (fun _ w' => Selectable w') w
    rw [wp_bind]
    have hparse : Within Calm (parseTopology b (w.aconns a).host r : Prog ω _) :=
      within_ite (within_parseClusterSlots _ _) (within_parseClusterNodes _ _)
    have hne : ∀ d, (parseTopology b (w.aconns a).host r w).1 = some d → d.vals ≠ [] := by
      cases b with
      | true => exact fun d => parseClusterSlots_nonempty
      | false => exact fun d => parseClusterNodes_nonempty
    have hs₁ := (hparse w).sameStock.stillSelectable hs
    show wp _ (fun _ w' => Selectable w') (parseTopology b (w.aconns a).host r w).2
    generalize parseTopology b (w.aconns a).host r w = p at hne hs₁ ⊢
    obtain ⟨nodes, w₁⟩ := p
    cases nodes with
    | none => exact hagain w₁ hs₁
    | some d =>
      refine within_bind (selectable_installNodes (hne d rfl)) (fun s => ?_) w₁ hs₁
      cases s with
      | ok => exact within_pure _
      | err => exact hagain

instance : AsyncClosed H (Keeping (@Selectable ω)) where
  modifyAcc hf w hs := by
    obtain ⟨e, s, l, c, x, hx, heq⟩ := hf w.acc
    refine ⟨hs.nodes, fun hfatal => hs.fatal (hx ?_)⟩
    rwa [show (modifyAcc _ w).2.acc = _ from heq] at hfatal
  modifyCad _ _ := keeps_of_sameStock fun _ => ⟨rfl, rfl⟩
  newCad _ := keeps_of_sameStock fun _ => ⟨rfl, rfl⟩
  send a _ q _ := keeps_of_sameStock (sameStock_redisAsyncCommand H a _ q)
  actxGetByNode n := keeps_of_sameStock (within_actxGetByNode H n)
  updateSlotMapAsync := selectable_updateSlotMapAsync H
  shutdown _ := keeps_of_sameStock fun _ => ⟨rfl, rfl⟩
  disconnectNode n := keeps_of_sameStock (by
    refine within_bind within_get fun w => ?_
    split
    · exact within_pure _
    · exact fun _ => ⟨rfl, rfl⟩)

end Calls

/-! ## Whole runs -/

/-- An address with a host, and a port that is read as a number above zero. -/
def validAddress (addr : Bytes) : Prop :=
  match strrchr addr 58 with
  | none => False
  | some p => p ≠ 0 ∧ 0 < hiAtoi ((cstr addr).drop (p + 1))

instance (addr : Bytes) : Decidable (validAddress addr) := by
  unfold validAddress
  split <;> infer_instance

/-- An address that is added while there is no dictionary of nodes is valid. -/
def FirstAddressValid (c : Client ω) (x : ClientAction) : Prop :=
  ∀ addr, x = .call (.addNode addr) → c.world.cc.nodes = none → validAddress addr

theorem selectable_redisClusterSetOptionAddNode {addr : Bytes} {w : World ω} (hs : Selectable w)
    (hvalid : w.cc.nodes = none → validAddress addr) :
    Selectable (redisClusterSetOptionAddNode addr w).2 := by
  have hl := learns_redisClusterSetOptionAddNode addr w
  refine ⟨fun d' hd' => ?_, fun hf => hs.fatal (by rwa [hl.acc] at hf)⟩
  cases hd : w.cc.nodes with
  | some d =>
    -- the nodes that are there stay
    obtain ⟨d'', hd'', hsub⟩ := hl.grown d hd
    obtain rfl := Option.some.inj (hd''.symm.trans hd')
    obtain ⟨n, hn⟩ := List.exists_mem_of_ne_nil _ (hs.nodes d hd)
    obtain ⟨e, he, rfl⟩ := List.mem_map.mp hn
    exact List.ne_nil_of_mem (List.mem_map.mpr ⟨e, hsub e he, rfl⟩)
  | none =>
    have hok := hvalid hd
    revert d'
    show wp (redisClusterSetOptionAddNode addr)
      (fun _ w' => ∀ d', w'.cc.nodes = some d' → d'.vals ≠ []) w
    unfold validAddress at hok
    unfold redisClusterSetOptionAddNode
    rw [wp_bind, wp_get, hd]
    dsimp only
    rw [wp_bind, wp_modifyCc]
    cases hp : strrchr addr 58 with
    | none =>
      rw [hp] at hok
      exact hok.elim
    | some p =>
      rw [hp] at hok
      dsimp only at hok
      have hport : (cstr addr).drop (p + 1) ≠ [] := by
        intro hnil
        rw [hnil] at hok
        exact absurd hok.2 (by decide)
      simp only [if_neg hok.1, if_neg hport, if_neg (Int.not_le.mpr hok.2)]
      split
      · rename_i n hn
        simp [HashTable.find, HashTable.empty] at hn
      · rename_i hfind
        rw [wp_bind, wp_newNode_creating]
        split
        · rename_i hadd
          have := (HashTable.add_isSome_iff _ (cstr addr) w.nextNode).mpr hfind
          rw [show HashTable.add _ _ w.nextNode = none from hadd] at this
          cases this
        · rename_i d hadd
          intro d' hd'
          obtain rfl := Option.some.inj hd'
          refine List.ne_nil_of_mem ((HashTable.mem_vals_iff d w.nextNode).mpr ⟨cstr addr, ?_⟩)
          rw [HashTable.find_add hadd, if_pos rfl]

section Runs

variable (H : Hiredis ω)

theorem act_selectable {c : Client ω} {x : ClientAction} (hs : Selectable c.world)
    (hx : FirstAddressValid c x) : Selectable (act H c x).world := by
  cases x with
  | call op =>
    by_cases hadd : ∃ addr, op = .addNode addr
    · obtain ⟨addr, rfl⟩ := hadd
      exact selectable_redisClusterSetOptionAddNode hs (hx addr rfl)
    · refine Call.within_run (R := Keeping Selectable) H op (fun addr h => absurd ⟨addr, h⟩ hadd)
        (fun _ => ?_) _ hs
      refine within_bind (keeps_of_sameStock fun _ => ⟨rfl, rfl⟩) fun _ =>
        within_bind within_get fun w => within_bind (fun w hs => ⟨fun d hd => ?_, hs.fatal⟩) fun _ => ?_
      · cases hd
      · split
        · exact within_pure _
        · exact keeps_of_sameStock (sameStock_dictRelease _)
  | connected a => exact hs.same rfl rfl
  | failed a f => exact hs.same rfl rfl
  | deliver a reply =>
    unfold act
    dsimp only
    split
    · exact hs
    · exact within_runCallback (R := Keeping Selectable) H a reply
        (fun b _ => selectable_topologyReplyCallback H a b reply) _
        (hs.same rfl rfl)
  | free a => exact hs.same rfl rfl
  | closed a =>
    have hend : ∀ f : AConn → AConn, Within SameStock (modifyAConn a f : Prog ω Unit) :=
      fun _ _ => ⟨rfl, rfl⟩
    have hunlink : Within SameStock (unlinkAsyncContextAndNode a : Prog ω Unit) := by
      refine within_bind within_get fun w => ?_
      split
      · exact hend _
      · exact within_bind (fun _ => ⟨rfl, rfl⟩) fun _ => hend _
    exact keeps_of_sameStock hunlink _ hs
  | ret =>
    unfold act
    dsimp only
    split
    · exact hs
    · exact within_resume (R := Keeping Selectable) H _ _ hs

theorem World.Fresh.canSelect {w : World ω} (h : w.Fresh) : Selectable w where
  nodes d hd := by
    rw [h.nodes] at hd
    cases hd
  fatal hf := by
    rw [h.fatal] at hf
    cases hf

/-- **The number of nodes that a random number is taken modulo of is never zero**, in every
run in which the address that creates the dictionary is valid. -/
theorem Reaches.selectable {c : Client ω} (h : Reaches H FirstAddressValid c) :
    (∀ d, c.world.cc.nodes = some d → d.vals ≠ []) ∧ c.world.acc.fatal ≠ some .emptyNodes := by
  have hs : Selectable c.world :=
    Reaches.invariant H (I := fun c => Selectable c.world) (fun _ hw => hw.canSelect)
      (fun c _ _ hg hs => act_selectable H hs hg) h
  exact ⟨hs.nodes, hs.fatal⟩

/-- A client with one valid address, whose first query is on its way. -/
theorem asyncConnect_selectable :
    (∀ d, (perform Hiredis.atWork (newAsyncClient []) asyncConnect).world.cc.nodes = some d →
        d.vals ≠ []) ∧
      (perform Hiredis.atWork (newAsyncClient []) asyncConnect).world.acc.fatal ≠
        some .emptyNodes := by
  refine Reaches.selectable Hiredis.atWork
    (reaches_perform Hiredis.atWork (reaches_newAsyncClient _ _ _) asyncConnect ?_)
  refine ⟨⟨by decide +kernel, ?_⟩, ⟨by decide +kernel, ?_⟩, trivial⟩
  · intro addr haddr _
    obtain rfl := Call.addNode.inj (ClientAction.call.inj haddr)
    decide +kernel
  · intro addr haddr
    cases haddr

end Runs

/-- The address `a` has no port; then the client is to connect. -/
def badAddress : List ClientAction := [.call (.addNode (ascii "a")), .call .asyncConnect2]

/-- The dictionary that the failed call leaves is empty, and a node is selected from it. -/
theorem badAddress_selects_from_none :
    ∃ c : Client (List Reply), Reachable Hiredis.atWork c ∧
      (∃ d, c.world.cc.nodes = some d ∧ d.vals = []) ∧ c.world.acc.fatal = some .emptyNodes := by
  refine ⟨perform Hiredis.atWork (newAsyncClient []) badAddress,
    Reaches.perform _ (reaches_newAsyncClient _ _ _) badAddress (by decide +kernel),
    ⟨HashTable.empty, ?_, rfl⟩, by decide +kernel⟩
  rfl
