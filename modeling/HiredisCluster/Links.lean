/-
# Which node an asynchronous connection belongs to

`n.acon` and `a.data` are the two ends of a link: the node names its connection, and the
connection the node that is to forget it when hiredis frees it.  `Linked` says that the two
ends agree, up to the connection `loose` that `actx_get_by_node` is still preparing, and that
a live connection without a node was left behind by a node that has been released.  `Paired`
adds that a node which is named is in use, or its connection is about to be freed.

Almost every routine leaves the links alone (`SameLinks`).
-/
import HiredisCluster.Client
import HiredisCluster.NodesReply
import HiredisCluster.Updating

open Program

variable {ω : Type}

/-! ## The links -/

/-- Connection `a` was left behind by a node that has been released. -/
def World.LetGo (w : World ω) (a : AConnId) : Prop :=
  ∃ n < w.nextNode, (w.heap n).acon = some a ∧ Event.released n ∈ w.trace ∧ ¬ w.Known n

/-- **The links are one to one**, but for the connection `loose`, which has no node yet. -/
structure Linked (loose : Option AConnId) (w : World ω) : Prop where
  young : ∀ n < w.nextNode, ∀ a, (w.heap n).acon = some a → a < w.nextAConn
  live : ∀ a, (w.aconns a).alive = true → a < w.nextAConn
  /-- A connection never names another node than the one that has it. -/
  named : ∀ n < w.nextNode, ∀ a, (w.heap n).acon = some a →
    (w.aconns a).data = some n ∨ (w.aconns a).data = none
  held : ∀ n < w.nextNode, w.Known n → ∀ a, (w.heap n).acon = some a →
    (w.aconns a).data = some n
  owner : ∀ a n, (w.aconns a).alive = true → (w.aconns a).data = some n →
    n < w.nextNode ∧ (w.heap n).acon = some a
  letGo : ∀ a, (w.aconns a).alive = true → (w.aconns a).data = none → loose ≠ some a → w.LetGo a
  closing : ∀ a ∈ w.closing, a < w.nextAConn ∧ ((w.aconns a).alive = true → w.LetGo a)
  replicas : ∀ n < w.nextNode, ∀ r ∈ w.slavesOf n, r < w.nextNode
  apart : ∀ a, loose = some a → a < w.nextAConn ∧ (w.aconns a).data = none ∧ a ∉ w.closing ∧
    ∀ n < w.nextNode, (w.heap n).acon ≠ some a

/-- No other node object has the connection. -/
theorem Linked.unique {loose : Option AConnId} {w : World ω} (h : Linked loose w) {n m : NodeId}
    (hn : n < w.nextNode) (hm : m < w.nextNode) (hk : w.Known n) {a : AConnId}
    (ha : (w.heap n).acon = some a) (hma : (w.heap m).acon = some a) : m = n := by
  have hdata := h.held n hn hk a ha
  rcases h.named m hm a hma with hm' | hm'
  · exact Option.some.inj (hm'.symm.trans hdata)
  · cases hm'.symm.trans hdata

/-- Besides, the node that a live connection names is in use, unless the connection is waiting
to be freed; neither such a connection nor the loose one is being freed already. -/
structure Paired (loose : Option AConnId) (w : World ω) : Prop extends Linked loose w where
  homed : ∀ a n, (w.aconns a).alive = true → (w.aconns a).data = some n →
    (w.aconns a).freeing = false ∧ (w.Known n ∨ a ∈ w.closing)
  unfreed : ∀ a, loose = some a → (w.aconns a).freeing = false

/-! ## What leaves the links alone -/

/-- The links stay; new nodes have no connection, and the old nodes that are known stay the
same. -/
structure SameLinks (w w' : World ω) : Prop where
  nextNode : w.nextNode ≤ w'.nextNode
  known : ∀ n < w.nextNode, (w'.Known n ↔ w.Known n)
  acon : ∀ n < w.nextNode, (w'.heap n).acon = (w.heap n).acon
  slaves : ∀ n < w.nextNode, w'.slavesOf n = w.slavesOf n
  new : ∀ n, w.nextNode ≤ n → n < w'.nextNode →
    (w'.heap n).acon = none ∧ ∀ r ∈ w'.slavesOf n, r < w'.nextNode
  aconns : ∀ a, (w'.aconns a).data = (w.aconns a).data ∧
    (w'.aconns a).alive = (w.aconns a).alive ∧ (w'.aconns a).freeing = (w.aconns a).freeing
  nextAConn : w'.nextAConn = w.nextAConn
  closing : w'.closing = w.closing
  trace : ∃ new, w'.trace = w.trace ++ new

theorem SameLinks.refl (w : World ω) : SameLinks w w where
  nextNode := le_rfl
  known _ _ := Iff.rfl
  acon _ _ := rfl
  slaves _ _ := rfl
  new _ hlo hhi := absurd hhi (not_lt.mpr hlo)
  aconns _ := ⟨rfl, rfl, rfl⟩
  nextAConn := rfl
  closing := rfl
  trace := ⟨[], (List.append_nil _).symm⟩

theorem SameLinks.trans {w w' w'' : World ω} (h : SameLinks w w') (h' : SameLinks w' w'') :
    SameLinks w w'' where
  nextNode := h.nextNode.trans h'.nextNode
  known n hn := (h'.known n (lt_of_lt_of_le hn h.nextNode)).trans (h.known n hn)
  acon n hn := (h'.acon n (lt_of_lt_of_le hn h.nextNode)).trans (h.acon n hn)
  slaves n hn := (h'.slaves n (lt_of_lt_of_le hn h.nextNode)).trans (h.slaves n hn)
  new n hlo hhi := by
    rcases Nat.lt_or_ge n w'.nextNode with hmid | hmid
    · obtain ⟨hacon, hslaves⟩ := h.new n hlo hmid
      rw [h'.acon n hmid, h'.slaves n hmid]
      exact ⟨hacon, fun r hr => lt_of_lt_of_le (hslaves r hr) h'.nextNode⟩
    · exact h'.new n hmid hhi
  aconns a := ⟨(h'.aconns a).1.trans (h.aconns a).1, (h'.aconns a).2.1.trans (h.aconns a).2.1,
    (h'.aconns a).2.2.trans (h.aconns a).2.2⟩
  nextAConn := h'.nextAConn.trans h.nextAConn
  closing := h'.closing.trans h.closing
  trace := by
    obtain ⟨new, hnew⟩ := h.trace
    obtain ⟨new', hnew'⟩ := h'.trace
    exact ⟨new ++ new', by rw [hnew', hnew, List.append_assoc]⟩

instance : Std.Refl (@SameLinks ω) := ⟨SameLinks.refl⟩

instance : IsTrans (World ω) SameLinks := ⟨fun _ _ _ => SameLinks.trans⟩

theorem SameLinks.letGo {w w' : World ω} (h : SameLinks w w') {a : AConnId} (ha : w.LetGo a) :
    w'.LetGo a := by
  obtain ⟨n, hn, hacon, hreleased, hno⟩ := ha
  obtain ⟨new, hnew⟩ := h.trace
  refine ⟨n, lt_of_lt_of_le hn h.nextNode, (h.acon n hn).trans hacon, ?_,
    fun hk => hno ((h.known n hn).mp hk)⟩
  rw [hnew]
  exact List.mem_append_left _ hreleased

/-- **Routines that leave the links alone keep them one to one.** -/
theorem Linked.same {loose : Option AConnId} {w w' : World ω} (h : Linked loose w)
    (hs : SameLinks w w') : Linked loose w' := by
  -- a node with a connection is an old one
  have hold : ∀ n < w'.nextNode, ∀ a, (w'.heap n).acon = some a →
      n < w.nextNode ∧ (w.heap n).acon = some a := by
    intro n hn a ha
    rcases Nat.lt_or_ge n w.nextNode with hlt | hge
    · exact ⟨hlt, (hs.acon n hlt).symm.trans ha⟩
    · cases (hs.new n hge hn).1.symm.trans ha
  refine ⟨fun n hn a ha => ?_, fun a ha => ?_, fun n hn a ha => ?_, fun n hn hk a ha => ?_,
    fun a n ha hd => ?_, fun a ha hd hl => ?_, fun a ha => ?_, fun n hn r hr => ?_, fun a hl => ?_⟩
  · obtain ⟨hlt, ha⟩ := hold n hn a ha
    rw [hs.nextAConn]
    exact h.young n hlt a ha
  · rw [hs.nextAConn]
    exact h.live a ((hs.aconns a).2.1.symm.trans ha)
  · obtain ⟨hlt, ha⟩ := hold n hn a ha
    rw [(hs.aconns a).1]
    exact h.named n hlt a ha
  · obtain ⟨hlt, ha⟩ := hold n hn a ha
    rw [(hs.aconns a).1]
    exact h.held n hlt ((hs.known n hlt).mp hk) a ha
  · rw [(hs.aconns a).1] at hd
    rw [(hs.aconns a).2.1] at ha
    obtain ⟨hlt, hacon⟩ := h.owner a n ha hd
    exact ⟨lt_of_lt_of_le hlt hs.nextNode, (hs.acon n hlt).trans hacon⟩
  · rw [(hs.aconns a).1] at hd
    rw [(hs.aconns a).2.1] at ha
    exact hs.letGo (h.letGo a ha hd hl)
  · rw [hs.closing] at ha
    rw [hs.nextAConn, (hs.aconns a).2.1]
    exact ⟨(h.closing a ha).1, fun hlive => hs.letGo ((h.closing a ha).2 hlive)⟩
  · rcases Nat.lt_or_ge n w.nextNode with hlt | hge
    · rw [hs.slaves n hlt] at hr
      exact lt_of_lt_of_le (h.replicas n hlt r hr) hs.nextNode
    · exact (hs.new n hge hn).2 r hr
  · obtain ⟨hlt, hdata, hclosing, hno⟩ := h.apart a hl
    rw [hs.nextAConn, (hs.aconns a).1, hs.closing]
    refine ⟨hlt, hdata, hclosing, fun n hn ha => ?_⟩
    obtain ⟨hlt, ha⟩ := hold n hn a ha
    exact hno n hlt ha

theorem Paired.same {loose : Option AConnId} {w w' : World ω} (h : Paired loose w)
    (hs : SameLinks w w') : Paired loose w' := by
  refine ⟨h.toLinked.same hs, fun a n ha hd => ?_, fun a hl => ?_⟩
  · rw [(hs.aconns a).1] at hd
    rw [(hs.aconns a).2.1] at ha
    obtain ⟨hlt, -⟩ := h.owner a n ha hd
    rw [(hs.aconns a).2.2, hs.known n hlt, hs.closing]
    exact h.homed a n ha hd
  · rw [(hs.aconns a).2.2]
    exact h.unfreed a hl

/-! ## The primitives -/

/-- What the links depend on stays. -/
theorem sameLinks_of_eq {w w' : World ω} (hnext : w'.nextNode = w.nextNode)
    (hnodes : w'.cc.nodes = w.cc.nodes) (hheap : w'.heap = w.heap)
    (haconns : w'.aconns = w.aconns) (hacon : w'.nextAConn = w.nextAConn)
    (hclosing : w'.closing = w.closing) (htrace : ∃ new, w'.trace = w.trace ++ new) :
    SameLinks w w' where
  nextNode := hnext.ge
  known n _ := by
    rw [World.Known, World.Known, World.nodeList, hnodes]
    rfl
  acon n _ := by rw [hheap]
  slaves n _ := by rw [World.slavesOf, hheap]; rfl
  new n hlo hhi := absurd hhi (by omega)
  aconns a := by rw [haconns]; exact ⟨rfl, rfl, rfl⟩
  nextAConn := hacon
  closing := hclosing
  trace := htrace

theorem sameLinks_record (w : World ω) (e : Event) : SameLinks w (record e w).2 :=
  sameLinks_of_eq rfl rfl rfl rfl rfl rfl ⟨[e], rfl⟩

/-- Nothing is recorded, and nothing that matters for the links changes. -/
theorem sameLinks_of_edit {w w' : World ω} (hnext : w'.nextNode = w.nextNode)
    (hnodes : w'.cc.nodes = w.cc.nodes) (hheap : w'.heap = w.heap)
    (haconns : w'.aconns = w.aconns) (hacon : w'.nextAConn = w.nextAConn)
    (hclosing : w'.closing = w.closing) (htrace : w'.trace = w.trace) : SameLinks w w' :=
  sameLinks_of_eq hnext hnodes hheap haconns hacon hclosing ⟨[], by rw [htrace, List.append_nil]⟩

theorem sameLinks_modifyNode (n : NodeId) {f : Node → Node}
    (hf : ∀ node, (f node).acon = node.acon ∧ (f node).slaves = node.slaves) :
    Within SameLinks (modifyNode n f : Prog ω Unit) := by
  intro w
  have hsame : ∀ m, (Function.update w.heap n (f (w.heap n)) m).acon = (w.heap m).acon ∧
      (Function.update w.heap n (f (w.heap n)) m).slaves = (w.heap m).slaves := by
    intro m
    rcases eq_or_ne m n with rfl | hm
    · rw [Function.update_self]
      exact hf _
    · rw [Function.update_of_ne hm]
      exact ⟨rfl, rfl⟩
  exact
  { nextNode := le_rfl
    known := fun _ _ => Iff.rfl
    acon := fun m _ => (hsame m).1
    slaves := fun m _ => congrArg (Option.getD · []) (hsame m).2
    new := fun m hlo hhi => absurd hhi (not_lt.mpr hlo)
    aconns := fun _ => ⟨rfl, rfl, rfl⟩
    nextAConn := rfl
    closing := rfl
    trace := ⟨[], (List.append_nil _).symm⟩ }

theorem sameLinks_modifyAConn (a : AConnId) {f : AConn → AConn}
    (hf : ∀ conn, (f conn).data = conn.data ∧ (f conn).alive = conn.alive ∧
      (f conn).freeing = conn.freeing) :
    Within SameLinks (modifyAConn a f : Prog ω Unit) := by
  intro w
  refine ⟨le_rfl, fun _ _ => Iff.rfl, fun _ _ => rfl, fun _ _ => rfl,
    fun m hlo hhi => absurd hhi (not_lt.mpr hlo), fun b => ?_, rfl, rfl, [],
    (List.append_nil _).symm⟩
  show (Function.update w.aconns a (f (w.aconns a)) b).data = _ ∧
    (Function.update w.aconns a (f (w.aconns a)) b).alive = _ ∧
    (Function.update w.aconns a (f (w.aconns a)) b).freeing = _
  rcases eq_or_ne b a with rfl | hb
  · rw [Function.update_self]
    exact hf _
  · rw [Function.update_of_ne hb]
    exact ⟨rfl, rfl, rfl⟩

/-- A new node without connection and replicas, filed under its address if at all. -/
theorem sameLinks_creating (w : World ω) (cc : Context) {node : Node} (hacon : node.acon = none)
    (hslaves : node.slaves = none)
    (hknown : ∀ n < w.nextNode,
      (({ w.creating node with cc := cc } : World ω).Known n ↔ w.Known n)) :
    SameLinks w { w.creating node with cc := cc } where
  nextNode := Nat.le_succ _
  known := hknown
  acon n hn := congrArg Node.acon (w.creating_heap_of_lt node hn)
  slaves n hn := congrArg (fun node : Node => node.slaves.getD []) (w.creating_heap_of_lt node hn)
  new n hlo hhi := by
    have hn : n = w.nextNode := Nat.le_antisymm (Nat.lt_succ_iff.mp hhi) hlo
    rw [hn]
    show ((w.creating node).heap w.nextNode).acon = none ∧
      ∀ r ∈ ((w.creating node).heap w.nextNode).slaves.getD [], _
    rw [w.creating_heap_self, hacon, hslaves]
    exact ⟨rfl, by simp⟩
  aconns _ := ⟨rfl, rfl, rfl⟩
  nextAConn := rfl
  closing := rfl
  trace := ⟨[], (List.append_nil _).symm⟩

/-- The new node is filed. -/
theorem sameLinks_add (w : World ω) {node : Node} (hacon : node.acon = none)
    (hslaves : node.slaves = none) {d : NodeDict} {k : Bytes}
    (hadd : (w.cc.nodes.getD HashTable.empty).add k w.nextNode = some d) {cc : Context}
    (hnodes : cc.nodes = some d) : SameLinks w { w.creating node with cc := cc } := by
  refine sameLinks_creating w cc hacon hslaves fun n hn => ?_
  rw [World.known_iff (w := { w.creating node with cc := cc }) hnodes]
  constructor
  · rintro ⟨k', hk'⟩
    rcases (HashTable.mem_entries_add hadd _).mp hk' with heq | hmem
    · exact absurd (Prod.mk.inj heq).2 (Nat.ne_of_lt hn)
    · cases hd : w.cc.nodes with
      | none => simp [hd, HashTable.entries, HashTable.empty] at hmem
      | some d₀ =>
        rw [hd] at hmem
        exact (World.known_iff hd).mpr ⟨k', hmem⟩
  · intro hk
    cases hd : w.cc.nodes with
    | none =>
      rw [World.Known, World.nodeList, hd] at hk
      cases hk
    | some d₀ =>
      obtain ⟨k', hk'⟩ := (World.known_iff hd).mp hk
      rw [hd] at hadd
      exact ⟨k', (HashTable.mem_entries_add hadd _).mpr (Or.inr hk')⟩

instance : CommandClosed (@SameLinks ω) where
  ask _ _ := sameLinks_of_edit rfl rfl rfl rfl rfl rfl rfl
  modifyConn _ _ _ := sameLinks_of_edit rfl rfl rfl rfl rfl rfl rfl
  newConn _ _ _ _ := sameLinks_of_edit rfl rfl rfl rfl rfl rfl rfl
  setError _ _ _ := sameLinks_of_edit rfl rfl rfl rfl rfl rfl rfl
  wroteOwn _ _ _ w := sameLinks_record w _
  wrote _ _ w := sameLinks_record w _
  read _ _ _ _ w := sameLinks_record w _
  closed _ w := sameLinks_record w _
  userHook w := sameLinks_record w _

theorem sameLinks_ctxGetByNode (H : Hiredis ω) (n : NodeId) : Within SameLinks (ctxGetByNode H n) :=
  ctxGetByNode_within H fun _ => sameLinks_modifyNode n fun _ => ⟨rfl, rfl⟩

/-! ## Redirects, and adding a node -/

/-- The dictionary is created. -/
theorem sameLinks_dictionary (w : World ω) {cc : Context}
    (hnodes : cc.nodes = some (w.cc.nodes.getD HashTable.empty)) :
    SameLinks w { w with cc := cc } := by
  refine ⟨le_rfl, fun n _ => ?_, fun _ _ => rfl, fun _ _ => rfl,
    fun n hlo hhi => absurd hhi (not_lt.mpr hlo), fun _ => ⟨rfl, rfl, rfl⟩, rfl, rfl, [],
    (List.append_nil _).symm⟩
  rw [World.Known, World.Known, World.nodeList, World.nodeList, hnodes]
  cases hd : w.cc.nodes with
  | none => simp [HashTable.vals, HashTable.entries, HashTable.empty]
  | some d => exact Iff.rfl

/-- What a redirect does to the node set: nothing, or a new node is filed, unless there is an
error. -/
theorem getNodeFromRedirectReply_cases {P : World ω → Prop} {w : World ω} (hsame : P w)
    (herror : ∀ type str, P (setError type str w).2)
    (hadd : ∀ {node : Node} {k : Bytes} {d : NodeDict}, node.con = none → node.acon = none →
      node.slaves = none → (w.cc.nodes.getD HashTable.empty).add k w.nextNode = some d →
        P { w.creating node with cc := { w.cc with nodes := some d } }) (str : Bytes) :
    wp (getNodeFromRedirectReply str) (fun _ w' => P w') w := by
  unfold getNodeFromRedirectReply
  rw [wp_bind, wp_get]
  split
  · split
    · exact herror _ _
    · split
      · exact herror _ _
      · dsimp only
        split
        · exact hsame
        · rename_i hfind
          rw [wp_bind, wp_newNode]
          split
          · rename_i hfull
            have hroom := (HashTable.add_isSome_iff _ _ w.nextNode).mpr hfind
            rw [hfull] at hroom
            cases hroom
          · exact hadd rfl rfl rfl ‹_›
  · exact herror _ _

theorem sameLinks_getNodeFromRedirectReply (str : Bytes) :
    Within SameLinks (getNodeFromRedirectReply str : Prog ω _) :=
  fun w => getNodeFromRedirectReply_cases (SameLinks.refl w) (fun _ _ => TalkClosed.setError _ _ w)
    (fun _ hacon hslaves hadd => sameLinks_add w hacon hslaves hadd rfl) str

theorem sameLinks_storeSlot (slot : ℤ) (n : NodeId) :
    Within SameLinks (storeSlot slot n : Prog ω Unit) :=
  within_ite (within_pure _) (within_bind (fun w => sameLinks_record w _) fun _ =>
    within_ite (fun _ => sameLinks_of_edit rfl rfl rfl rfl rfl rfl rfl) (within_pure _))

theorem sameLinks_handleMoved (str : Bytes) : Within SameLinks (handleMoved str : Prog ω _) := by
  refine within_bind (sameLinks_getNodeFromRedirectReply str) fun r => ?_
  split
  · exact within_pure _
  · exact within_bind (sameLinks_storeSlot _ _) fun _ => within_pure _

theorem sameLinks_handleAsk (str : Bytes) : Within SameLinks (handleAsk str : Prog ω _) :=
  within_bind (sameLinks_getNodeFromRedirectReply str) fun _ => within_pure _

/-- The same for a node that the user adds; the dictionary is created before. -/
theorem redisClusterSetOptionAddNode_cases {P : World ω → Prop} {w : World ω}
    (hsame : P { w with cc := { w.cc with nodes := some (w.cc.nodes.getD HashTable.empty) } })
    (herror : ∀ type str, P (setError type str
      { w with cc := { w.cc with nodes := some (w.cc.nodes.getD HashTable.empty) } }).2)
    (hadd : ∀ {node : Node} {k : Bytes} {d : NodeDict}, node.con = none → node.acon = none →
      node.slaves = none → (w.cc.nodes.getD HashTable.empty).add k w.nextNode = some d →
        P { w.creating node with cc := { w.cc with nodes := some d } }) (addr : Bytes) :
    wp (redisClusterSetOptionAddNode addr) (fun _ w' => P w') w := by
  unfold redisClusterSetOptionAddNode
  rw [wp_bind, wp_get]
  dsimp only
  rw [wp_bind, wp_modifyCc]
  split
  · exact hsame
  · rename_i hfind
    split
    · exact herror _ _
    · split
      · exact herror _ _
      · split
        · exact herror _ _
        · split
          · exact herror _ _
          · rw [wp_bind, wp_newNode]
            split
            · rename_i hfull
              have hroom := (HashTable.add_isSome_iff _ (cstr addr) w.nextNode).mpr hfind
              rw [hfull] at hroom
              cases hroom
            · exact hadd rfl rfl rfl ‹_›

theorem sameLinks_redisClusterSetOptionAddNode (addr : Bytes) :
    Within SameLinks (redisClusterSetOptionAddNode addr : Prog ω Status) :=
  fun w => redisClusterSetOptionAddNode_cases (sameLinks_dictionary w rfl)
    (fun type str => (sameLinks_dictionary w rfl).trans (TalkClosed.setError type str _))
    (fun _ hacon hslaves hadd => sameLinks_add w hacon hslaves hadd rfl) addr

theorem sameLinks_modifyCc {f : Context → Context} (hf : ∀ cc, (f cc).nodes = cc.nodes) :
    Within SameLinks (modifyCc f : Prog ω Unit) :=
  fun _ => sameLinks_of_edit rfl (hf _) rfl rfl rfl rfl rfl

instance : LibClosed (@SameLinks ω) where
  looked _ _ w := sameLinks_record w _
  deferred _ _ w := sameLinks_record w _
  modifyCc hf := sameLinks_modifyCc fun cc => by
    obtain ⟨r, q, n, heq⟩ := hf.same cc
    rw [heq]
  cmdId _ _ := sameLinks_of_edit rfl rfl rfl rfl rfl rfl rfl
  disconnect n := sameLinks_modifyNode n fun _ => ⟨rfl, rfl⟩
  handleMoved := sameLinks_handleMoved
  handleAsk := sameLinks_handleAsk
  addNode := sameLinks_redisClusterSetOptionAddNode

/-! ## Submissions -/

section Submissions

variable (H : Hiredis ω)

theorem sameLinks_modifyAcc (f : AsyncContext → AsyncContext) :
    Within SameLinks (modifyAcc f : Prog ω Unit) :=
  fun _ => sameLinks_of_edit rfl rfl rfl rfl rfl rfl rfl

theorem sameLinks_redisAsyncCommand (a : AConnId) (cb : ACallback) (q : Sent) :
    Within SameLinks (redisAsyncCommand H a cb q) := by
  refine within_bind (within_bind within_get fun w => within_ite (within_pure _)
    (within_bind (TalkClosed.ask _) fun r => ?_)) fun _ =>
      within_bind (sameLinks_modifyAcc _) fun _ => within_pure _
  cases r with
  | accepted =>
    exact within_bind (fun _ => sameLinks_of_edit rfl rfl rfl rfl rfl rfl rfl) fun _ =>
      within_pure _
  | rejected f =>
    exact within_bind (sameLinks_modifyAConn a fun _ => ⟨rfl, rfl, rfl⟩) fun _ => within_pure _

instance : PrepareClosed H (@SameLinks ω) where
  ask _ := TalkClosed.ask _
  failed a _ := sameLinks_modifyAConn a fun _ => ⟨rfl, rfl, rfl⟩
  asyncSetError _ _ := sameLinks_modifyAcc _
  sendNull a q := sameLinks_redisAsyncCommand H a _ q

instance : NoteClosed H (@SameLinks ω) where
  modifyAcc _ := sameLinks_modifyAcc _
  modifyCad _ _ _ := sameLinks_of_edit rfl rfl rfl rfl rfl rfl rfl
  newCad _ _ := sameLinks_of_edit rfl rfl rfl rfl rfl rfl rfl
  send a _ q _ := sameLinks_redisAsyncCommand H a _ q
  shutdown _ := sameLinks_modifyCc fun _ => rfl
  disconnectNode n := by
    refine within_bind within_get fun w => ?_
    split
    · exact within_pure _
    · exact sameLinks_modifyAConn _ fun _ => ⟨rfl, rfl, rfl⟩

end Submissions
