/-
# Iterating while nodes are added

Between the calls of `redisClusterNodeNext` the user sends commands, and a MOVED or ASK may
add a node to the dictionary under the iterator.  As long as the dictionary has room that
does no harm; but an insertion into a full dictionary links all chains anew, and the
iterator goes on in the new buckets from the number of its old one.

`Traversal` is such an iteration.  `Traversal.returnsOnce`: each node of the beginning is
returned once if no insertion finds the dictionary full while the iterator stands on a node.
`traversal_act` connects it with the commands: whatever a client does without replacing the
node set is a series of redirects, and these find room if the dictionary has as many buckets
afterwards as before.
-/
import HiredisCluster.Client
import HiredisCluster.Iterator
import HiredisCluster.NodesReply
import HiredisCluster.Updating

open Program

variable {ω : Type}

/-- The dictionary of nodes, empty if there is none. -/
def World.dict (w : World ω) : NodeDict := w.cc.nodes.getD HashTable.empty

/-- An iteration begun in `w₀`, with what its calls have returned so far, between which
redirects that satisfy `G` are treated, and things are done that leave the node set
alone. -/
inductive Traversal (G : World ω → NodeIterator → Bytes → Prop) (w₀ : World ω) :
    World ω → NodeIterator → List (Option NodeId) → Prop where
  | init : Traversal G w₀ w₀ (redisClusterInitNodeIterator w₀.cc) []
  | next {w : World ω} {it : NodeIterator} {outs : List (Option NodeId)}
      (h : Traversal G w₀ w it outs) :
      Traversal G w₀ w (redisClusterNodeNext w.cc it).2 (outs ++ [(redisClusterNodeNext w.cc it).1])
  | moved {w : World ω} {it : NodeIterator} {outs : List (Option NodeId)}
      (h : Traversal G w₀ w it outs) (str : Bytes) (hg : G w it str) :
      Traversal G w₀ (handleMoved str w).2 it outs
  | ask {w : World ω} {it : NodeIterator} {outs : List (Option NodeId)}
      (h : Traversal G w₀ w it outs) (str : Bytes) (hg : G w it str) :
      Traversal G w₀ (handleAsk str w).2 it outs
  | other {w w' : World ω} {it : NodeIterator} {outs : List (Option NodeId)}
      (h : Traversal G w₀ w it outs) (hnodes : w'.cc.nodes = w.cc.nodes)
      (hversion : w'.cc.routeVersion = w.cc.routeVersion) (hnext : w.nextNode ≤ w'.nextNode) :
      Traversal G w₀ w' it outs

/-- Each of the nodes is returned exactly once before `NULL` is, and not more than once
up to then. -/
def ReturnsOnce (nodes : List NodeId) (outs : List (Option NodeId)) : Prop :=
  ∀ n ∈ nodes, (outs.takeWhile Option.isSome).count (some n) ≤ 1 ∧
    (none ∈ outs → (outs.takeWhile Option.isSome).count (some n) = 1)

/-- A redirect that adds a node while the iterator stands on one finds room in the
dictionary. -/
def RoomUnderWay (w : World ω) (it : NodeIterator) (str : Bytes) : Prop :=
  ∀ slotText endpoint, redirectFields str = some (slotText, endpoint) →
    w.dict.find endpoint = none → it.di.entry ≠ none → w.dict.HasRoom

/-! ## What a redirect does to the dictionary -/

/-- The dictionary stays, or the endpoint of a redirect is added, and it is if it was not
there. -/
structure Adds (str : Bytes) (w w' : World ω) : Prop where
  version : w'.cc.routeVersion = w.cc.routeVersion
  nextNode : w.nextNode ≤ w'.nextNode
  dict : w'.dict = w.dict ∨ ∃ slotText endpoint, redirectFields str = some (slotText, endpoint) ∧
    w.dict.find endpoint = none ∧ w.dict.add endpoint w.nextNode = some w'.dict
  added : ∀ slotText endpoint, redirectFields str = some (slotText, endpoint) →
    w.dict.find endpoint = none → w.dict.add endpoint w.nextNode = some w'.dict

theorem getNodeFromRedirectReply_adds (str : Bytes) (w : World ω) :
    Adds str w (getNodeFromRedirectReply str w).2 := by
  show wp (getNodeFromRedirectReply str) (fun _ w' => Adds str w w') w
  have hsame : ∀ e s, redirectFields str = none →
      Adds str w { w with cc := { w.cc with err := e, errstr := s } } := by
    intro e s hnone
    refine ⟨rfl, le_rfl, Or.inl rfl, fun slotText endpoint h => ?_⟩
    cases hnone.symm.trans h
  unfold getNodeFromRedirectReply
  rw [wp_bind, wp_get]
  split
  · rename_i slotText endpoint hsplit
    split
    · rename_i hp
      exact hsame _ _ (by simp only [redirectFields, hsplit, hp])
    · rename_i p hp
      split
      · rename_i hp0
        exact hsame _ _ (by simp only [redirectFields, hsplit, hp, if_pos hp0])
      · rename_i hp0
        have hfields : redirectFields str = some (slotText, endpoint) := by
          simp only [redirectFields, hsplit, hp, if_neg hp0]
        dsimp only
        split
        · rename_i n hfind
          refine ⟨rfl, le_rfl, Or.inl rfl, fun slotText' endpoint' h hnone => ?_⟩
          obtain ⟨-, rfl⟩ := Prod.mk.inj (Option.some.inj (hfields.symm.trans h))
          cases hnone.symm.trans hfind
        · rename_i hfind
          rw [wp_bind, wp_newNode_creating]
          split
          · rename_i hadd
            have := (HashTable.add_isSome_iff _ endpoint w.nextNode).mpr hfind
            rw [hadd] at this
            cases this
          · rename_i d' hadd
            refine ⟨rfl, Nat.le_succ _, Or.inr ⟨slotText, endpoint, hfields, hfind, hadd⟩,
              fun slotText' endpoint' h _ => ?_⟩
            obtain ⟨-, rfl⟩ := Prod.mk.inj (Option.some.inj (hfields.symm.trans h))
            exact hadd
  · rename_i hsplit
    refine hsame _ _ ?_
    unfold redirectFields
    split
    · rename_i slotText endpoint hsome
      exact absurd hsome (hsplit _ slotText endpoint)
    · rfl

theorem handleMoved_adds (str : Bytes) (w : World ω) : Adds str w (handleMoved str w).2 := by
  have h := getNodeFromRedirectReply_adds str w
  show wp (handleMoved str) (fun _ w' => Adds str w w') w
  unfold handleMoved
  rw [wp_bind]
  refine wp_mono (show wp (getNodeFromRedirectReply str) (fun _ w₁ => Adds str w w₁) w from h)
    fun r w₁ h => ?_
  obtain ⟨n, slot⟩ := r
  cases n with
  | none => exact h
  | some n =>
    have hp := storeSlot_pointed slot n w₁
    obtain ⟨t, hcc, -⟩ := hp.cc
    have hdict : (storeSlot slot n w₁).2.dict = w₁.dict := by
      rw [World.dict, hcc]
      rfl
    have hstored : Adds str w (storeSlot slot n w₁).2 := by
      refine ⟨?_, ?_, ?_, ?_⟩
      · rw [hcc]
        exact h.version
      · rw [hp.nextNode]
        exact h.nextNode
      · rw [hdict]
        exact h.dict
      · rw [hdict]
        exact h.added
    exact hstored

theorem handleAsk_adds (str : Bytes) (w : World ω) : Adds str w (handleAsk str w).2 :=
  getNodeFromRedirectReply_adds str w

theorem Adds.size_le {str : Bytes} {w w' : World ω} (h : Adds str w w') :
    w.dict.size ≤ w'.dict.size := by
  rcases h.dict with hdict | ⟨_, _, -, -, hadd⟩
  · rw [hdict]
  · exact HashTable.size_le_add hadd

/-- A redirect that leaves the number of buckets has found room. -/
theorem Adds.roomUnderWay {str : Bytes} {w w' : World ω} (h : Adds str w w') {it : NodeIterator}
    (hsame : it.di.entry ≠ none → w'.dict.size = w.dict.size) : RoomUnderWay w it str :=
  fun slotText endpoint hfields hfree hentry =>
    HashTable.hasRoom_of_add (h.added slotText endpoint hfields hfree) (hsame hentry)

/-! ## What is still to come -/

/-- The nodes that an iterator has not come to yet. -/
def NodeIterator.toCome (w : World ω) (it : NodeIterator) : List NodeId :=
  (it.di.remaining w.dict).map Prod.snd

/-- What holds between the calls: the nodes of the beginning have each been returned or are
still to come, until `NULL` is returned. -/
structure Underway (w₀ w : World ω) (nodes : List NodeId) (it : NodeIterator)
    (outs : List (Option NodeId)) : Prop where
  version : it.routeVersion = w.cc.routeVersion
  retries : it.retriesLeft = 1
  nextNode : w₀.nextNode ≤ w.nextNode
  valid : it.di.Valid w.dict
  begun : none ∉ outs → it.di.entry = none → it.di = TableIterator.start
  count : none ∉ outs → ∀ n ∈ nodes, outs.count (some n) + (it.toCome w).count n = 1
  ended : none ∈ outs → ∀ n ∈ nodes, (outs.takeWhile Option.isSome).count (some n) = 1

theorem takeWhile_isSome {l : List (Option NodeId)} (h : none ∉ l) (x : List (Option NodeId)) :
    (l ++ x).takeWhile Option.isSome = l ++ x.takeWhile Option.isSome := by
  refine List.takeWhile_append_of_pos fun o ho => ?_
  cases o with
  | none => exact absurd ho h
  | some n => rfl

theorem takeWhile_of_mem {l : List (Option NodeId)} (h : none ∈ l) (x : List (Option NodeId)) :
    (l ++ x).takeWhile Option.isSome = l.takeWhile Option.isSome := by
  induction l with
  | nil => cases h
  | cons o l ih =>
    cases o with
    | none => rfl
    | some n =>
      rw [List.cons_append, List.takeWhile_cons_of_pos rfl, List.takeWhile_cons_of_pos rfl,
        ih ((List.mem_cons.mp h).resolve_left (by simp))]

theorem Underway.count_outs {w₀ w : World ω} {nodes : List NodeId} {it : NodeIterator}
    {outs : List (Option NodeId)} (h : Underway w₀ w nodes it outs) : ReturnsOnce nodes outs := by
  intro n hn
  by_cases hnone : none ∈ outs
  · have hone := h.ended hnone n hn
    exact ⟨Nat.le_of_eq hone, fun _ => hone⟩
  · refine ⟨?_, fun hin => absurd hin hnone⟩
    have hsum := h.count hnone n hn
    have hall := takeWhile_isSome hnone []
    rw [List.append_nil, List.takeWhile_nil, List.append_nil] at hall
    rw [hall]
    omega

/-- A call returns what comes first. -/
theorem Underway.next {w₀ w : World ω} {nodes : List NodeId} {it : NodeIterator}
    {outs : List (Option NodeId)} (h : Underway w₀ w nodes it outs) :
    Underway w₀ w nodes (redisClusterNodeNext w.cc it).2
      (outs ++ [(redisClusterNodeNext w.cc it).1]) := by
  obtain ⟨hvalid, hhead, htail⟩ := TableIterator.next_remaining w.dict h.valid
  have hentry := TableIterator.entry_next w.dict it.di
  have hnext : redisClusterNodeNext w.cc it =
      ((it.di.next w.dict).1.map Prod.snd, { it with di := (it.di.next w.dict).2 }) := by
    have hsame : it.restart w.cc = it := if_pos h.version
    have hretries := h.retries
    unfold redisClusterNodeNext
    rw [if_neg (by omega), hsame]
    rfl
  rw [hnext]
  refine ⟨h.version, h.retries, h.nextNode, hvalid, fun hnone hend => ?_, fun hnone n hn => ?_,
    fun hin n hn => ?_⟩
  · -- a node was returned, and the iterator stands on it
    rw [show ((it.di.next w.dict).2).entry = none from hend] at hentry
    refine absurd (List.mem_append_right _ ?_) hnone
    rw [← hentry]
    exact List.mem_singleton.mpr rfl
  · obtain ⟨hnone, hlast⟩ := not_or.mp (fun h => hnone (List.mem_append.mpr h))
    have hsum := h.count hnone n hn
    show (outs ++ _).count (some n) + ((TableIterator.remaining w.dict _).map Prod.snd).count n = 1
    rw [htail, hhead]
    rw [NodeIterator.toCome] at hsum
    rw [hhead] at hlast
    cases hrem : it.di.remaining w.dict with
    | nil =>
      rw [hrem] at hlast
      exact absurd (List.mem_singleton.mpr rfl) hlast
    | cons e rest =>
      rw [hrem, List.map_cons, List.count_cons] at hsum
      rw [List.head?_cons, List.tail_cons, Option.map_some, List.count_append, List.count_singleton]
      have hbeq : (some e.2 == some n) = (e.2 == n) := rfl
      rw [hbeq]
      omega
  · by_cases hnone : none ∈ outs
    · rw [takeWhile_of_mem hnone]
      exact h.ended hnone n hn
    · have hsum := h.count hnone n hn
      rw [takeWhile_isSome hnone]
      rcases List.mem_append.mp hin with hin | hin
      · exact absurd hin hnone
      · have hlast := (List.mem_singleton.mp hin).symm
        have hnil : it.di.remaining w.dict = [] := by
          rw [hhead] at hlast
          exact List.head?_eq_none_iff.mp (Option.map_eq_none_iff.mp hlast)
        rw [NodeIterator.toCome, hnil] at hsum
        rw [show ((it.di.next w.dict).1.map Prod.snd) = none from hlast]
        simpa using hsum

/-- The state may change, if the dictionary keeps what is still to come. -/
theorem Underway.same {w₀ w w' : World ω} {nodes : List NodeId} {it : NodeIterator}
    {outs : List (Option NodeId)} (h : Underway w₀ w nodes it outs) (hdict : w'.dict = w.dict)
    (hversion : w'.cc.routeVersion = w.cc.routeVersion) (hnext : w.nextNode ≤ w'.nextNode) :
    Underway w₀ w' nodes it outs := by
  refine ⟨h.version.trans hversion.symm, h.retries, h.nextNode.trans hnext, ?_, h.begun, ?_, h.ended⟩
  · rw [hdict]
    exact h.valid
  · rw [NodeIterator.toCome, hdict]
    exact h.count

/-- **A redirect leaves the nodes of the beginning where they are**, unless it finds the
dictionary full under way. -/
theorem Underway.adds {w₀ w w' : World ω} {nodes : List NodeId} {it : NodeIterator}
    {outs : List (Option NodeId)} {str : Bytes} (h : Underway w₀ w nodes it outs)
    (hold : ∀ n ∈ nodes, n < w₀.nextNode) (ha : Adds str w w') (hroom : RoomUnderWay w it str) :
    Underway w₀ w' nodes it outs := by
  rcases ha.dict with hdict | ⟨slotText, endpoint, hfields, hfree, hadd⟩
  · exact h.same hdict ha.version ha.nextNode
  · refine ⟨h.version.trans ha.version.symm, h.retries, h.nextNode.trans ha.nextNode,
      h.valid.add hadd, h.begun, fun hnone n hn => ?_, h.ended⟩
    have hsum := h.count hnone n hn
    have hperm : (it.di.remaining w'.dict).Perm (it.di.remaining w.dict) ∨
        (it.di.remaining w'.dict).Perm ((endpoint, w.nextNode) :: it.di.remaining w.dict) := by
      by_cases hentry : it.di.entry = none
      · rw [h.begun hnone hentry]
        exact Or.inr (TableIterator.remaining_start_add hadd)
      · exact TableIterator.remaining_add h.valid hadd (hroom slotText endpoint hfields hfree hentry)
    -- the node that is added is a new one
    have hne : w.nextNode ≠ n := by
      have := hold n hn
      have := h.nextNode
      rintro rfl
      exact absurd (hold _ hn) (Nat.not_lt.mpr h.nextNode)
    rw [NodeIterator.toCome] at hsum ⊢
    rcases hperm with hp | hp
    · rw [(hp.map Prod.snd).count_eq]
      exact hsum
    · rw [(hp.map Prod.snd).count_eq, List.map_cons, List.count_cons_of_ne hne]
      exact hsum

theorem Routed.nodup_vals {w : World ω} (h : Routed w) {d : NodeDict} (hd : w.cc.nodes = some d) :
    d.vals.Nodup :=
  d.nodup_vals (fun n => (w.heap n).addr) (h.view.filed d hd)

/-- **Each node is returned exactly once**, whatever redirects add in between, as long as
the dictionary has room whenever the iterator stands on a node. -/
theorem Traversal.returnsOnce {w₀ w : World ω} {it : NodeIterator} {outs : List (Option NodeId)}
    (ho : Ordered w₀) (h : Traversal RoomUnderWay w₀ w it outs) : ReturnsOnce w₀.nodeList outs := by
  have hold : ∀ n ∈ w₀.nodeList, n < w₀.nextNode := ho.routed.lt
  have hnodup : w₀.nodeList.Nodup := by
    rw [World.nodeList]
    cases hd : w₀.cc.nodes with
    | none => exact List.nodup_nil
    | some d => exact ho.routed.nodup_vals hd
  have hvals : w₀.nodeList = w₀.dict.vals := by
    rw [World.nodeList, World.dict]
    cases w₀.cc.nodes with
    | none => rfl
    | some d => rfl
  suffices hu : Underway w₀ w w₀.nodeList it outs from hu.count_outs
  induction h with
  | init =>
    refine ⟨rfl, rfl, le_rfl, TableIterator.valid_start _, fun _ _ => rfl, fun _ n hn => ?_,
      fun hin => absurd hin (by simp)⟩
    have hcome : (redisClusterInitNodeIterator w₀.cc).toCome w₀ = w₀.nodeList := by
      rw [NodeIterator.toCome, hvals]
      exact congrArg (List.map Prod.snd) (TableIterator.remaining_start w₀.dict)
    rw [hcome, List.count_eq_one_of_mem hnodup hn]
    rfl
  | next _ ih => exact ih.next
  | moved _ str hg ih => exact ih.adds hold (handleMoved_adds str _) hg
  | ask _ str hg ih => exact ih.adds hold (handleAsk_adds str _) hg
  | other _ hnodes hversion hnext ih => exact ih.same (by rw [World.dict, hnodes]; rfl) hversion hnext

/-! ## Commands -/

/-- A redirect is treated, or the node set is left alone. -/
inductive RedirectStep : World ω → World ω → Prop where
  | moved (w : World ω) (str : Bytes) : RedirectStep w (handleMoved str w).2
  | ask (w : World ω) (str : Bytes) : RedirectStep w (handleAsk str w).2
  | other {w w' : World ω} (hnodes : w'.cc.nodes = w.cc.nodes)
      (hversion : w'.cc.routeVersion = w.cc.routeVersion) (hnext : w.nextNode ≤ w'.nextNode) :
      RedirectStep w w'

theorem RedirectStep.size_le {w w' : World ω} (h : RedirectStep w w') :
    w.dict.size ≤ w'.dict.size := by
  cases h with
  | moved str => exact (handleMoved_adds str w).size_le
  | ask str => exact (handleAsk_adds str w).size_le
  | other hnodes => rw [World.dict, World.dict, hnodes]

theorem size_le_of_redirects {w w' : World ω} (h : Relation.ReflTransGen RedirectStep w w') :
    w.dict.size ≤ w'.dict.size := by
  induction h with
  | refl => exact le_rfl
  | tail _ hstep ih => exact ih.trans hstep.size_le

/-- An iteration goes on after a series of redirects that leaves the number of buckets. -/
theorem Traversal.redirects {w₀ w w' : World ω} {it : NodeIterator} {outs : List (Option NodeId)}
    (h : Traversal RoomUnderWay w₀ w it outs) (hsteps : Relation.ReflTransGen RedirectStep w w')
    (hsame : it.di.entry ≠ none → w'.dict.size = w.dict.size) :
    Traversal RoomUnderWay w₀ w' it outs := by
  induction hsteps with
  | refl => exact h
  | @tail w₁ w₂ hsteps hstep ih =>
    -- the number of buckets never shrinks, so that it stays in every step
    have hle := size_le_of_redirects hsteps
    have hle' := hstep.size_le
    have hfirst : it.di.entry ≠ none → w₁.dict.size = w.dict.size := fun hentry => by
      have := hsame hentry
      omega
    have hlast : it.di.entry ≠ none → w₂.dict.size = w₁.dict.size := fun hentry => by
      have := hsame hentry
      omega
    have hrun := ih hfirst
    cases hstep with
    | moved str => exact hrun.moved str ((handleMoved_adds str w₁).roomUnderWay hlast)
    | ask str => exact hrun.ask str ((handleAsk_adds str w₁).roomUnderWay hlast)
    | other hnodes hversion hnext => exact hrun.other hnodes hversion hnext

/-- The node set is replaced, which counts up the version, or there is a series of
redirects. -/
structure Onward (w w' : World ω) : Prop where
  version : w.cc.routeVersion ≤ w'.cc.routeVersion
  redirects : w'.cc.routeVersion = w.cc.routeVersion → Relation.ReflTransGen RedirectStep w w'

instance : Std.Refl (@Onward ω) := ⟨fun _ => ⟨le_rfl, fun _ => .refl⟩⟩

instance : IsTrans (World ω) Onward := by
  refine ⟨fun w₁ w₂ w₃ h h' => ⟨h.version.trans h'.version, fun heq => ?_⟩⟩
  have h₁ := h.version
  have h₂ := h'.version
  exact (h.redirects (by omega)).trans (h'.redirects (by omega))

theorem onward_of_eq {w w' : World ω} (hnodes : w'.cc.nodes = w.cc.nodes)
    (hversion : w'.cc.routeVersion = w.cc.routeVersion) (hnext : w.nextNode ≤ w'.nextNode) :
    Onward w w' :=
  ⟨le_of_eq hversion.symm, fun _ => .single (.other hnodes hversion hnext)⟩

theorem onward_of_step {w w' : World ω} (h : RedirectStep w w')
    (hversion : w'.cc.routeVersion = w.cc.routeVersion) : Onward w w' :=
  ⟨le_of_eq hversion.symm, fun _ => .single h⟩

theorem Linking.onward {w w' : World ω} (h : Linking w w') : Onward w w' := by
  obtain ⟨e, s, hcc⟩ := h.cc
  exact onward_of_eq (by rw [hcc]) (by rw [hcc]) h.nextNode

theorem onward_of_aside {α : Type} {m : Prog ω α} (h : Within Aside m) : Within Onward m :=
  h.mono fun _ _ h => onward_of_eq (by rw [h.cc]) (by rw [h.cc]) (le_of_eq h.nextNode.symm)

theorem onward_modifyCc {f : Context → Context} (hnodes : ∀ cc, (f cc).nodes = cc.nodes)
    (hversion : ∀ cc, (f cc).routeVersion = cc.routeVersion) :
    Within Onward (modifyCc f : Prog ω Unit) :=
  fun _ => onward_of_eq (hnodes _) (hversion _) le_rfl

instance : CommandClosed (@Onward ω) where
  ask _ _ := onward_of_eq rfl rfl le_rfl
  modifyConn _ _ _ := onward_of_eq rfl rfl le_rfl
  newConn _ _ _ _ := onward_of_eq rfl rfl le_rfl
  setError _ _ _ := onward_of_eq rfl rfl le_rfl
  wroteOwn _ _ _ _ := onward_of_eq rfl rfl le_rfl
  wrote _ _ _ := onward_of_eq rfl rfl le_rfl
  read _ _ _ _ _ := onward_of_eq rfl rfl le_rfl
  closed _ _ := onward_of_eq rfl rfl le_rfl
  userHook _ := onward_of_eq rfl rfl le_rfl

instance : EditClosed (@Onward ω) where
  looked _ _ _ := onward_of_eq rfl rfl le_rfl
  deferred _ _ _ := onward_of_eq rfl rfl le_rfl
  modifyCc hf := by
    refine onward_modifyCc (fun cc => ?_) (fun cc => ?_)
    · obtain ⟨r, q, n, heq⟩ := hf.same cc
      rw [heq]
    · obtain ⟨r, q, n, heq⟩ := hf.same cc
      rw [heq]
  cmdId _ _ := onward_of_eq rfl rfl le_rfl
  disconnect _ _ := onward_of_eq rfl rfl le_rfl
  handleMoved str w := onward_of_step (.moved w str) (handleMoved_adds str w).version
  handleAsk str w := onward_of_step (.ask w str) (handleAsk_adds str w).version

theorem onward_installNodes (d : NodeDict) : Within Onward (installNodes d : Prog ω Status) := by
  intro w
  have h := installNodes_version d w
  unfold wp at h
  dsimp only at h
  split at h
  · exact ⟨by rw [h.2]; exact Nat.le_succ _, fun heq => absurd (h.2.symm.trans heq) (Nat.succ_ne_self _)⟩
  · exact h.onward

theorem onward_updateNodesAndSlotmap (nodes : Option NodeDict) :
    Within Onward (updateNodesAndSlotmap nodes : Prog ω Status) := by
  unfold updateNodesAndSlotmap
  split
  · exact within_pure _
  · refine within_bind (onward_installNodes _) fun s => ?_
    cases s with
    | err => exact within_pure _
    | ok =>
      exact within_bind (within_bind TalkClosed.userHook fun _ =>
        onward_modifyCc (fun _ => rfl) fun _ => rfl) fun _ => within_pure _

theorem onward_of_calm {α : Type} {m : Prog ω α} (h : Within Calm m) : Within Onward m :=
  h.mono fun _ _ h => h.onward

section Commands

variable (H : Hiredis ω)

theorem onward_handleReply (c : ConnId) : Within Onward (clusterUpdateRouteHandleReply H c) :=
  within_handleReply H (within_redisGetReply H) (fun type => TalkClosed.setError (some type))
    (fun _ _ => within_bind (onward_of_calm (within_parseClusterSlots _ _)) fun _ =>
      onward_updateNodesAndSlotmap _)
    (fun _ _ => within_bind (onward_of_calm (within_parseClusterNodes _ _)) fun _ =>
      onward_updateNodesAndSlotmap _) c

instance : CallClosed H (@Onward ω) where
  ctxGetByNode n w := (ctxGetByNode_links H n w).1.1.onward
  updateSlotmap := within_redisClusterUpdateSlotmap H (onward_handleReply H)
  handleReply := onward_handleReply H

theorem onward_redisAsyncCommand (a : AConnId) (cb : ACallback) (q : Sent) :
    Within Onward (redisAsyncCommand H a cb q) := by
  intro w
  have h := redisAsyncCommand_cases H a cb q w
  unfold wp at h
  rcases h with ⟨-, e, f, hw⟩ | ⟨-, e, hw⟩
  · rw [hw]
    exact onward_of_eq rfl rfl le_rfl
  · rw [hw]
    exact onward_of_eq rfl rfl le_rfl

instance : AsyncClosed H (@Onward ω) where
  modifyAcc _ _ := onward_of_eq rfl rfl le_rfl
  modifyCad _ _ _ := onward_of_eq rfl rfl le_rfl
  newCad _ _ := onward_of_eq rfl rfl le_rfl
  send a _ q _ := onward_redisAsyncCommand H a _ q
  actxGetByNode n := onward_of_aside (within_actxGetByNode H n)
  updateSlotMapAsync a := onward_of_aside (aside_updateSlotMapAsync H a)
  shutdown _ := onward_modifyCc (fun _ => rfl) fun _ => rfl
  disconnectNode n := onward_of_aside (aside_disconnectNode n)

theorem onward_topologyReplyCallback (a : AConnId) (b : Bool) (reply : Option Reply) :
    Within Onward (topologyReplyCallback H a b reply) := by
  have hagain : Within Onward (do
      let _ ← updateSlotMapAsync H none
      pure false) :=
    within_bind (onward_of_aside (aside_updateSlotMapAsync H none)) fun _ => within_pure _
  refine within_bind (onward_of_aside (aside_stampSlotmapUpdate H)) fun _ => ?_
  split
  · exact hagain
  · refine within_bind within_get fun w => within_bind ?_ fun nodes => ?_
    · exact onward_of_calm (within_ite (within_parseClusterSlots _ _) (within_parseClusterNodes _ _))
    · cases nodes with
      | none => exact hagain
      | some d =>
        refine within_bind (onward_installNodes d) fun s => ?_
        cases s with
        | ok => exact within_pure _
        | err => exact hagain

/-- **What a client does to the node set.** -/
theorem act_onward (c : Client ω) {x : ClientAction} (hadd : ∀ addr, x ≠ .call (.addNode addr))
    (hfree : x ≠ .call .asyncFree) : Onward c.world (act H c x).world := by
  cases x with
  | call op =>
    exact Call.within_run H op (fun addr h => absurd (by rw [h]) (hadd addr))
      (fun h => absurd (by rw [h]) hfree) c.world
  | connected a => exact onward_of_eq rfl rfl le_rfl
  | failed a f => exact onward_of_eq rfl rfl le_rfl
  | deliver a reply =>
    unfold act
    dsimp only
    split
    · exact Std.Refl.refl _
    · have htake : Onward c.world (takeCallback a c.world).2 := onward_of_eq rfl rfl le_rfl
      exact IsTrans.trans _ _ _ htake (within_runCallback H a reply
        (fun b _ => onward_topologyReplyCallback H a b reply) _)
  | free a => exact onward_of_eq rfl rfl le_rfl
  | closed a => exact onward_of_aside (aside_unlinkAsyncContextAndNode a) _
  | ret =>
    unfold act
    dsimp only
    split
    · exact Std.Refl.refl _
    · exact within_resume H _ _

variable {H}

/-- **Commands between the calls** that do not replace the node set are redirects between
them, and these find room unless the number of buckets grows under way. -/
theorem traversal_act {w₀ : World ω} {c : Client ω} {x : ClientAction} {it : NodeIterator}
    {outs : List (Option NodeId)} (h : Traversal RoomUnderWay w₀ c.world it outs)
    (hadd : ∀ addr, x ≠ .call (.addNode addr)) (hfree : x ≠ .call .asyncFree)
    (hversion : (act H c x).world.cc.routeVersion = c.world.cc.routeVersion)
    (hroom : it.di.entry ≠ none → (act H c x).world.dict.size = c.world.dict.size) :
    Traversal RoomUnderWay w₀ (act H c x).world it outs :=
  h.redirects ((act_onward H c hadd hfree).redirects hversion) hroom

end Commands

/-! ### A full dictionary -/

instance (nodes : List NodeId) (outs : List (Option NodeId)) : Decidable (ReturnsOnce nodes outs) :=
  inferInstanceAs (Decidable (∀ n ∈ nodes, _ ≤ 1 ∧ (_ → _ = 1)))

/-- Four nodes are added, which fills the dictionary. -/
def fourAddresses : List ClientAction :=
  [.call (.addNode (ascii "a:1")), .call (.addNode (ascii "b:2")),
    .call (.addNode (ascii "c:3")), .call (.addNode (ascii "d:4"))]

/-- A client that knows four nodes. -/
def fourNodes : Client (List Reply) := perform Hiredis.scripted (newClient []) fourAddresses

theorem reachable_fourNodes : Reachable Hiredis.scripted fourNodes :=
  Reaches.perform _ (reachable_newClient _ _) fourAddresses (by decide +kernel)

/-- The iteration begins, then a redirect adds a fifth node, before the first node is
returned. -/
theorem fourNodes_returnsOnce :
    ∃ w it outs, Traversal RoomUnderWay fourNodes.world w it outs ∧ none ∈ outs ∧
      ReturnsOnce fourNodes.world.nodeList outs := by
  have hfirst : RoomUnderWay fourNodes.world (redisClusterInitNodeIterator fourNodes.world.cc)
      (ascii "MOVED 1 e:5") := fun _ _ _ _ hentry => absurd rfl hentry
  have hrun := Traversal.next (Traversal.next (.next (.next (.next (.next
    (Traversal.init.moved (ascii "MOVED 1 e:5") hfirst))))))
  exact ⟨_, _, _, hrun, by decide +kernel,
    Traversal.returnsOnce (Reaches.ordered _ reachable_fourNodes) hrun⟩

/-- **A redirect after the first node** links the chains anew, and that node is returned
again. -/
theorem fourNodes_returnedTwice :
    ∃ c : Client (List Reply), Reachable Hiredis.scripted c ∧
      ∃ w it outs, Traversal (fun _ _ _ => True) c.world w it outs ∧
        ¬ ReturnsOnce c.world.nodeList outs := by
  have hinit : Traversal (fun _ _ _ => True) fourNodes.world fourNodes.world
    (redisClusterInitNodeIterator fourNodes.world.cc) [] := .init
  have hrun := (((hinit.next.moved (ascii "MOVED 1 e:5") trivial).next.next).next).next
  exact ⟨fourNodes, reachable_fourNodes, _, _, _, hrun, by decide +kernel⟩
