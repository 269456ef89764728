/-
# The node iterator

`redisClusterNodeNext` goes through `cc->nodes`, and starts again once the node set has
been replaced.  A restart uses up the one retry that an iterator has, and without retries
left there is no further node, so that the new set is gone through only if it has no more
than one node.

Embedded source: `redisClusterInitNodeIterator` and `redisClusterNodeNext`
(`hircluster.c`), over `dictInitIterator` and `dictNext` (`dict.c`).
-/
import HiredisCluster.Lib.TableIterator
import HiredisCluster.Routing

open Program

variable {ω : Type}

/-- `redisClusterNodeIterator`.  Its dictionary is `cc->nodes` as long as the versions
agree, since only an update replaces that dictionary. -/
structure NodeIterator where
  routeVersion : ℕ
  retriesLeft : ℤ
  di : TableIterator Bytes NodeId

/-- `redisClusterInitNodeIterator`. -/
def redisClusterInitNodeIterator (cc : Context) : NodeIterator where
  routeVersion := cc.routeVersion
  retriesLeft := 1
  di := TableIterator.start

/-- The iterator begins again with the nodes that the context has now. -/
def NodeIterator.restart (cc : Context) (iter : NodeIterator) : NodeIterator :=
  if iter.routeVersion = cc.routeVersion then iter
  else { routeVersion := cc.routeVersion, retriesLeft := iter.retriesLeft - 1, di := TableIterator.start }

/-- `redisClusterNodeNext`. -/
def redisClusterNodeNext (cc : Context) (iter : NodeIterator) : Option NodeId × NodeIterator :=
  if iter.retriesLeft ≤ 0 then (none, iter)
  else
    let de := (iter.restart cc).di.next (cc.nodes.getD HashTable.empty)
    (de.1.map Prod.snd, { iter.restart cc with di := de.2 })

/-- The results of `m` calls. -/
def nodesFrom (cc : Context) : NodeIterator → ℕ → List (Option NodeId)
  | _, 0 => []
  | iter, m + 1 => (redisClusterNodeNext cc iter).1 :: nodesFrom cc (redisClusterNodeNext cc iter).2 m

/-- The iterators of an iteration during which the version is `v`.  Other fields of the
context may change between the calls. -/
inductive Iterating (v : ℕ) : NodeIterator → Prop where
  | init {cc : Context} (h : cc.routeVersion = v) : Iterating v (redisClusterInitNodeIterator cc)
  | next {iter : NodeIterator} (h : Iterating v iter) {cc : Context} (hv : cc.routeVersion = v) :
    Iterating v (redisClusterNodeNext cc iter).2

/-- An iteration that goes through the set `new`: each of its nodes is returned once, then
`NULL`, and never a node that was known in `old`. -/
structure GoesThrough (old : World ω) (new : NodeDict) (cc : Context) (iter : NodeIterator) :
    Prop where
  all : ∃ l : List NodeId, l.Perm new.vals ∧ nodesFrom cc iter (l.length + 1) = l.map some ++ [none]
  only : ∀ m n, some n ∈ nodesFrom cc iter m → ¬ old.Known n

/-! ## Without an update -/

theorem Iterating.state {v : ℕ} {iter : NodeIterator} (h : Iterating v iter) :
    iter.routeVersion = v ∧ iter.retriesLeft = 1 ∧ -1 ≤ iter.di.index := by
  induction h with
  | init h => exact ⟨h, rfl, Int.le_refl _⟩
  | @next iter _ cc hv ih =>
    obtain ⟨hversion, hretries, hindex⟩ := ih
    have hsame : iter.restart cc = iter := if_pos (hversion.trans hv.symm)
    unfold redisClusterNodeNext
    rw [if_neg (by omega), hsame]
    exact ⟨hversion, hretries,
      Int.le_trans hindex (TableIterator.index_next (cc.nodes.getD HashTable.empty) iter.di)⟩

theorem redisClusterNodeNext_eq {cc : Context} {iter : NodeIterator}
    (h : Iterating cc.routeVersion iter) : redisClusterNodeNext cc iter =
      ((iter.di.next (cc.nodes.getD HashTable.empty)).1.map Prod.snd,
        { iter with di := (iter.di.next (cc.nodes.getD HashTable.empty)).2 }) := by
  obtain ⟨hversion, hretries, -⟩ := h.state
  have hsame : iter.restart cc = iter := if_pos hversion
  unfold redisClusterNodeNext
  rw [if_neg (by omega), hsame]

/-- The nodes that are still to come are returned one after the other, then `NULL`. -/
theorem nodesFrom_eq {cc : Context} (m : ℕ) : ∀ {iter : NodeIterator},
    Iterating cc.routeVersion iter → iter.di.Valid (cc.nodes.getD HashTable.empty) → nodesFrom cc iter
      ((TableIterator.remaining (cc.nodes.getD HashTable.empty) iter.di).length + m) =
        (TableIterator.remaining (cc.nodes.getD HashTable.empty) iter.di).map (fun e => some e.2) ++
          List.replicate m none := by
  intro iter h hvalid
  generalize hl : TableIterator.remaining (cc.nodes.getD HashTable.empty) iter.di = l
  induction l generalizing iter with
  | nil =>
    rw [List.length_nil, Nat.zero_add, List.map_nil, List.nil_append]
    induction m generalizing iter with
    | zero => rfl
    | succ m ih =>
      obtain ⟨hvalid', hhead, htail⟩ := TableIterator.next_remaining _ hvalid
      have hnext := redisClusterNodeNext_eq h
      rw [nodesFrom, ih (h.next rfl) (by rw [hnext]; exact hvalid')
        (by rw [hnext]; dsimp only; rw [htail, hl]; rfl), hnext, hhead, hl]
      rfl
  | cons e l ih =>
    obtain ⟨hvalid', hhead, htail⟩ := TableIterator.next_remaining _ hvalid
    have hnext := redisClusterNodeNext_eq h
    rw [List.length_cons, Nat.add_right_comm, nodesFrom, ih (h.next rfl)
      (by rw [hnext]; exact hvalid') (by rw [hnext]; dsimp only; rw [htail, hl]; rfl), hnext, hhead, hl]
    rfl

/-- **Undisturbed, an iteration goes through all nodes.** -/
theorem nodesFrom_init {cc : Context} {d : NodeDict} (hd : cc.nodes = some d) (m : ℕ) :
    nodesFrom cc (redisClusterInitNodeIterator cc) (d.vals.length + m) =
      d.vals.map some ++ List.replicate m none := by
  have h := nodesFrom_eq m (Iterating.init (rfl : cc.routeVersion = cc.routeVersion))
    (TableIterator.valid_start _)
  rw [hd] at h
  have hrem : TableIterator.remaining d (redisClusterInitNodeIterator cc).di = d.entries :=
    TableIterator.remaining_start d
  rw [Option.getD_some, hrem] at h
  rw [HashTable.vals, List.length_map, h, List.map_map]
  rfl

/-! ## An update -/

/-- A successful update replaces the node set and counts up the version; a failed one
changes neither. -/
theorem installNodes_version (d : NodeDict) (w : World ω) :
    wp (installNodes d) (fun s w' =>
      match s with
      | .ok => w'.cc.nodes = some d ∧ w'.cc.routeVersion = w.cc.routeVersion + 1
      | .err => Calm w w') w := by
  unfold installNodes
  rw [wp_bind, wp_get]
  split
  · exact (calm_setError _ _ w).trans (within_dictRelease d _)
  · rename_i t _
    rw [wp_bind, wp_modifyCc]
    cases w.cc.nodes with
    | none => exact ⟨rfl, rfl⟩
    | some old =>
      dsimp only
      rw [wp_bind]
      refine wp_mono ((swapped_clusterNodesSwapCtx old d.vals).wp _) fun _ w₁ h₁ => ?_
      rw [wp_bind, wp_modifyCc, wp_bind]
      refine wp_mono (calmly (within_dictRelease old) _) fun _ w₂ h₂ => ?_
      obtain ⟨e, s, hcc⟩ := h₂.cc
      show w₂.cc.nodes = _ ∧ w₂.cc.routeVersion = _
      rw [hcc]
      exact ⟨rfl, congrArg Context.routeVersion h₁.cc⟩

theorem updateNodesAndSlotmap_version (d : NodeDict) (w : World ω) :
    wp (updateNodesAndSlotmap (some d)) (fun s w' => s = .ok →
      w'.cc.nodes = some d ∧ w'.cc.routeVersion = w.cc.routeVersion + 1) w := by
  unfold updateNodesAndSlotmap
  rw [wp_bind]
  refine wp_mono (installNodes_version d w) fun s w₁ h₁ => ?_
  cases s with
  | err => exact fun h => by cases h
  | ok => exact fun _ => h₁

/-- After an update there is one more node, and then none. -/
theorem nodesFrom_restart {v : ℕ} {iter : NodeIterator} (h : Iterating v iter) {cc : Context}
    (hv : cc.routeVersion ≠ v) {d : NodeDict} (hd : cc.nodes = some d) (m : ℕ) :
    nodesFrom cc iter (m + 1) = d.vals.head? :: List.replicate m none := by
  obtain ⟨hversion, hretries, -⟩ := h.state
  have hnew : iter.restart cc =
      { routeVersion := cc.routeVersion, retriesLeft := 0, di := TableIterator.start } := by
    unfold NodeIterator.restart
    rw [if_neg (by rw [hversion]; exact hv.symm), hretries]
    rfl
  obtain ⟨-, hhead, -⟩ := TableIterator.next_remaining d (TableIterator.valid_start d)
  have hnext : redisClusterNodeNext cc iter = (d.vals.head?,
      { routeVersion := cc.routeVersion, retriesLeft := 0, di := (TableIterator.next d TableIterator.start).2 }) := by
    unfold redisClusterNodeNext
    rw [if_neg (by omega), hnew, hd]
    dsimp only
    rw [Option.getD_some, hhead, TableIterator.remaining_start, HashTable.vals, List.head?_map]
  have hend : ∀ (iter : NodeIterator) (m : ℕ), iter.retriesLeft = 0 →
      nodesFrom cc iter m = List.replicate m none := by
    intro iter m hret
    have hnone : redisClusterNodeNext cc iter = (none, iter) := if_pos (by omega)
    induction m with
    | zero => rfl
    | succ m ih => rw [nodesFrom, hnone, ih, List.replicate_succ]
  rw [nodesFrom, hnext, hend _ m rfl]

/-- The calls after an update. -/
theorem nodesFrom_update {w w' : World ω} {new : NodeDict} {iter : NodeIterator}
    (hiter : Iterating w.cc.routeVersion iter)
    (hupdate : updateNodesAndSlotmap (some new) w = (.ok, w')) (m : ℕ) :
    nodesFrom w'.cc iter (m + 1) = new.vals.head? :: List.replicate m none := by
  have hw' := updateNodesAndSlotmap_version new w
  unfold wp at hw'
  rw [hupdate] at hw'
  obtain ⟨hd, hversion⟩ := hw' rfl
  exact nodesFrom_restart hiter (by rw [hversion]; omega) hd m

/-- A second node would have to be `NULL`. -/
theorem GoesThrough.length_le {w w' : World ω} {new : NodeDict} {iter : NodeIterator}
    (h : GoesThrough w new w'.cc iter) (hiter : Iterating w.cc.routeVersion iter)
    (hupdate : updateNodesAndSlotmap (some new) w = (.ok, w')) : new.vals.length ≤ 1 := by
  obtain ⟨l, hperm, hl⟩ := h.all
  rw [nodesFrom_update hiter hupdate] at hl
  rw [← hperm.length_eq]
  match l, hl with
  | [], _ => exact Nat.zero_le 1
  | [n], _ => exact Nat.le_refl 1
  | n :: n' :: l, hl =>
    rw [List.length_cons, List.length_cons, List.replicate_succ] at hl
    simp at hl

/-- **After an update, the iterator goes through the new node set if and only if that has
at most one node.** -/
theorem iterator_goesThrough_iff {w w' : World ω} {new : NodeDict} {iter : NodeIterator}
    (hiter : Iterating w.cc.routeVersion iter)
    (hupdate : updateNodesAndSlotmap (some new) w = (.ok, w'))
    (hnew : ∀ n ∈ new.vals, ¬ w.Known n) :
    GoesThrough w new w'.cc iter ↔ new.vals.length ≤ 1 := by
  refine ⟨fun h => h.length_le hiter hupdate, fun hlen => ⟨⟨new.vals, List.Perm.refl _, ?_⟩, ?_⟩⟩
  · rw [nodesFrom_update hiter hupdate]
    match hv : new.vals, hlen with
    | [], _ => rfl
    | [n], _ => rfl
  · intro m n hn
    cases m with
    | zero => cases hn
    | succ m =>
      rw [nodesFrom_update hiter hupdate] at hn
      rcases List.mem_cons.mp hn with hn | hn
      · exact hnew n (List.mem_of_mem_head? (by rw [← hn]; rfl))
      · cases (List.mem_replicate.mp hn).2

/-! ### A set of one node, and a set of two -/

/-- Node `0` is known; nodes `1` and `2` are new masters for one half of the slots each. -/
def beforeUpdate : World Unit where
  env := ()
  cc := { nodes := some (nodeDict [(ascii "a:1", 0)]) }
  heap n :=
    if n = 0 then { addr := ascii "a:1", role := .master }
    else if n = 1 then { addr := ascii "b:2", role := .master, slots := some [⟨0, 2⟩] }
    else { addr := ascii "c:3", role := .master, slots := some [⟨3, 5⟩] }
  nextNode := 3

/-- The state once the nodes with these entries have been installed. -/
def afterUpdate (l : List (Bytes × NodeId)) : World Unit :=
  (updateNodesAndSlotmap (some (nodeDict l)) beforeUpdate).2

theorem updated_beforeUpdate (l : List (Bytes × NodeId))
    (h : (updateNodesAndSlotmap (some (nodeDict l)) beforeUpdate).1 = .ok) :
    updateNodesAndSlotmap (some (nodeDict l)) beforeUpdate = (.ok, afterUpdate l) :=
  Prod.ext h rfl

/-- One node is gone through. -/
theorem iterator_goesThrough_iff_one : GoesThrough beforeUpdate (nodeDict [(ascii "b:2", 1)])
    (afterUpdate [(ascii "b:2", 1)]).cc (redisClusterInitNodeIterator beforeUpdate.cc) :=
  (iterator_goesThrough_iff (.init rfl)
    (updated_beforeUpdate [(ascii "b:2", 1)] (by decide +kernel)) (by decide +kernel)).mpr
      (by decide +kernel)

/-- **Two nodes are not**, although the iterator had not come to its end. -/
theorem twoNodes_not_goesThrough :
    Iterating beforeUpdate.cc.routeVersion (redisClusterInitNodeIterator beforeUpdate.cc) ∧
      updateNodesAndSlotmap (some (nodeDict [(ascii "b:2", 1), (ascii "c:3", 2)])) beforeUpdate =
        (.ok, afterUpdate [(ascii "b:2", 1), (ascii "c:3", 2)]) ∧
      (∀ n ∈ (nodeDict [(ascii "b:2", 1), (ascii "c:3", 2)]).vals, ¬ beforeUpdate.Known n) ∧
      ¬ GoesThrough beforeUpdate (nodeDict [(ascii "b:2", 1), (ascii "c:3", 2)])
        (afterUpdate [(ascii "b:2", 1), (ascii "c:3", 2)]).cc
        (redisClusterInitNodeIterator beforeUpdate.cc) := by
  have hupdate := updated_beforeUpdate [(ascii "b:2", 1), (ascii "c:3", 2)] (by decide +kernel)
  refine ⟨.init rfl, hupdate, by decide +kernel, fun h => ?_⟩
  have hlen := h.length_le (.init rfl) hupdate
  exact absurd hlen (by decide +kernel)
