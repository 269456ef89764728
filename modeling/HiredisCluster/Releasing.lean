/-
# Releasing nodes

`freeRedisClusterNode` closes the blocking connection of a node and detaches its asynchronous
one, for the node and for the replicas in its list.  `dictRelease_eq` says what releasing a
dictionary does as a whole.
-/
import HiredisCluster.Topology

open Program

variable {ω : Type}

/-- The replicas in the list of a node. -/
def World.slavesOf (w : World ω) (n : NodeId) : List NodeId := (w.heap n).slaves.getD []

/-- Everything a dictionary holds: its nodes, each with the replicas in its list. -/
def World.holdings (w : World ω) (d : NodeDict) : List NodeId :=
  d.vals.flatMap fun m => m :: w.slavesOf m

theorem mem_holdings {w : World ω} {d : NodeDict} {n : NodeId} :
    n ∈ w.holdings d ↔ ∃ m ∈ d.vals, n = m ∨ n ∈ w.slavesOf m := by
  simp only [World.holdings, List.mem_flatMap, List.mem_cons]

/-- A node has no connection. -/
def World.Bare (w : World ω) (n : NodeId) : Prop := (w.heap n).con = none ∧ (w.heap n).acon = none

/-- The blocking connections of a list of nodes. -/
def World.consOf (w : World ω) (ns : List NodeId) : List ConnId :=
  ns.filterMap fun n => (w.heap n).con

/-- The asynchronous connections of a list of nodes. -/
def World.aconsOf (w : World ω) (ns : List NodeId) : List AConnId :=
  ns.filterMap fun n => (w.heap n).acon

/-- The nodes were released, one after the other, with their connections. -/
def World.freeing (w : World ω) (ns : List NodeId) : World ω :=
  { w with
    conns := fun c =>
      if c ∈ w.consOf ns then { w.conns c with queue := [], alive := false } else w.conns c
    closing := w.closing ++ w.aconsOf ns
    trace := w.trace ++
      ns.flatMap fun n => (w.heap n).con.toList.map Event.closed ++ [Event.released n] }

theorem World.freeing_append (w : World ω) (ns ms : List NodeId) :
    (w.freeing ns).freeing ms = w.freeing (ns ++ ms) := by
  have hconns : ((w.freeing ns).freeing ms).conns = (w.freeing (ns ++ ms)).conns := by
    funext c
    simp only [freeing, consOf, List.filterMap_append, List.mem_append]
    by_cases hns : c ∈ ns.filterMap fun n => (w.heap n).con
    · simp only [hns, if_true, true_or, ite_self]
    · simp only [hns, if_false, false_or]
  simp only [freeing, consOf, aconsOf, List.filterMap_append, List.flatMap_append,
    List.append_assoc] at hconns ⊢
  rw [hconns]

@[simp] theorem World.freeing_nil (w : World ω) : w.freeing [] = w := by
  simp [freeing, consOf, aconsOf]

theorem redisFree_eq (con : Option ConnId) (w : World ω) : redisFree con w = ((), { w with
    conns := fun c =>
      if c ∈ con.toList then { w.conns c with queue := [], alive := false } else w.conns c
    trace := w.trace ++ con.toList.map Event.closed }) := by
  cases con with
  | none =>
    show ((), w) = _
    simp
  | some c =>
    refine congrArg (Prod.mk ()) ?_
    have hconns : Function.update w.conns c { w.conns c with queue := [], alive := false } =
        fun c' => if c' ∈ [c] then { w.conns c' with queue := [], alive := false }
          else w.conns c' := by
      funext c'
      rcases eq_or_ne c' c with rfl | hne
      · simp
      · simp [hne]
    show { w with conns := _, trace := _ } = _
    exact congrArg (fun conns => { w with conns, trace := w.trace ++ [Event.closed c] }) hconns

theorem detachAsync_eq (acon : Option AConnId) (w : World ω) :
    detachAsync acon w = ((), { w with closing := w.closing ++ acon.toList }) := by
  cases acon with
  | none =>
    show ((), w) = _
    simp
  | some a => rfl

theorem freeLoneNode_eq (n : NodeId) (w : World ω) : freeLoneNode n w = ((), w.freeing [n]) := by
  show ((), (record (.released n)
    (detachAsync (w.heap n).acon (redisFree (w.heap n).con w).2).2).2) = _
  have hcons : w.consOf [n] = (w.heap n).con.toList := by
    unfold World.consOf
    cases hc : (w.heap n).con <;> simp [hc]
  have hacons : w.aconsOf [n] = (w.heap n).acon.toList := by
    unfold World.aconsOf
    cases ha : (w.heap n).acon <;> simp [ha]
  rw [redisFree_eq, detachAsync_eq, World.freeing, hcons, hacons, List.flatMap_singleton,
    ← List.append_assoc]
  rfl

theorem forEach_freeLoneNode (ns : List NodeId) : ∀ w : World ω,
    forEach freeLoneNode ns w = ((), w.freeing ns) := by
  induction ns with
  | nil =>
    intro w
    rw [World.freeing_nil]
    rfl
  | cons n ns ih =>
    intro w
    show forEach freeLoneNode ns (freeLoneNode n w).2 = _
    rw [freeLoneNode_eq, ih, World.freeing_append]
    rfl

theorem freeRedisClusterNode_eq (n : NodeId) (w : World ω) :
    freeRedisClusterNode n w = ((), w.freeing (n :: w.slavesOf n)) := by
  show forEach freeLoneNode (w.slavesOf n) (freeLoneNode n w).2 = _
  rw [freeLoneNode_eq, forEach_freeLoneNode, World.freeing_append]
  rfl

/-- **Releasing a dictionary** releases what it holds, in order. -/
theorem dictRelease_eq (d : NodeDict) (w : World ω) :
    dictRelease d w = ((), w.freeing (w.holdings d)) := by
  unfold dictRelease World.holdings
  induction d.vals generalizing w with
  | nil =>
    rw [List.flatMap_nil, World.freeing_nil]
    rfl
  | cons n ns ih =>
    show forEach freeRedisClusterNode ns (freeRedisClusterNode n w).2 = _
    rw [freeRedisClusterNode_eq, ih, World.freeing_append]
    rfl

@[simp] theorem wp_dictRelease (d : NodeDict) (Q : Unit → World ω → Prop) (w : World ω) :
    wp (dictRelease d) Q w = Q () (w.freeing (w.holdings d)) := by
  unfold wp
  rw [dictRelease_eq]

/-! ## Nodes without connections -/

/-- The nodes were released, one after the other. -/
def World.releasing (w : World ω) (ns : List NodeId) : World ω :=
  { w with trace := w.trace ++ ns.map .released }

theorem World.freeing_of_bare {w : World ω} {ns : List NodeId} (h : ∀ n ∈ ns, w.Bare n) :
    w.freeing ns = w.releasing ns := by
  have hcons : w.consOf ns = [] := List.filterMap_eq_nil_iff.mpr fun n hn => (h n hn).1
  have hacons : w.aconsOf ns = [] := List.filterMap_eq_nil_iff.mpr fun n hn => (h n hn).2
  have hevents : ns.flatMap (fun n => (w.heap n).con.toList.map Event.closed ++ [.released n]) =
      ns.map Event.released := by
    rw [List.map_eq_flatMap]
    refine List.flatMap_congr fun n hn => ?_
    rw [(h n hn).1]
    rfl
  rw [freeing, releasing, hcons, hacons, hevents, List.append_nil]
  simp

theorem freeRedisClusterNode_bare {w : World ω} {n : NodeId} (h : w.Bare n)
    (hs : ∀ r ∈ w.slavesOf n, w.Bare r) :
    freeRedisClusterNode n w = ((), w.releasing (n :: w.slavesOf n)) := by
  rw [freeRedisClusterNode_eq, World.freeing_of_bare (List.forall_mem_cons.mpr ⟨h, hs⟩)]

/-- Releasing a dictionary releases what it holds. -/
theorem dictRelease_bare {w : World ω} {d : NodeDict} (h : ∀ n ∈ w.holdings d, w.Bare n) :
    dictRelease d w = ((), w.releasing (w.holdings d)) := by
  rw [dictRelease_eq, World.freeing_of_bare h]
