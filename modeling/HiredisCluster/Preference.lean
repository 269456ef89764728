/-
# The node that is preferred

`selectNode` looks at the nodes once, with a random index in mind.  It keeps one candidate,
which is replaced by a rule that depends on whether it is connected and on whether the index
has been reached.

`selectNode_preferred` says which node that is: the last connected one up to the index, else
the first connected one after it; without a connected node, the last eligible one before the
index, else the first eligible one from the index on.
-/
import HiredisCluster.Async
import HiredisCluster.Lib.Occurrence

open Occurrence Program

variable {ω : Type}

/-! ## The rule -/

/-- The choice `r` among the nodes `ns` around the index `c`. -/
structure Preferred (connected eligible : NodeId → Prop) (c : ℕ) (ns : List NodeId)
    (r : Option NodeId) : Prop where
  connectedUpTo : Occurs connected (· ≤ c) ns → ∃ n, r = some n ∧ LastIn connected (· ≤ c) ns n
  connectedAfter : ¬ Occurs connected (· ≤ c) ns → Occurs connected (c < ·) ns →
    ∃ n, r = some n ∧ FirstIn connected (c < ·) ns n
  eligibleBefore : (∀ n ∈ ns, ¬ connected n) → Occurs eligible (· < c) ns →
    ∃ n, r = some n ∧ LastIn eligible (· < c) ns n
  eligibleFrom : (∀ n ∈ ns, ¬ connected n) → ¬ Occurs eligible (· < c) ns →
    Occurs eligible (c ≤ ·) ns → ∃ n, r = some n ∧ FirstIn eligible (c ≤ ·) ns n
  none_iff : r = none ↔ ∀ n ∈ ns, ¬ connected n ∧ ¬ eligible n

/-- A connection to the node has not been attempted since `limit`. -/
def World.eligible (w : World ω) (limit : ℤ) (n : NodeId) : Bool :=
  (w.heap n).lastConnectionAttempt < limit

/-! ## The loop -/

section Loop

variable (w : World ω) (limit : ℤ) (c : ℕ)

/-- The candidate after a node has been looked at. -/
def candidate (i : ℕ) (selected : Option NodeId) (n : NodeId) : Option NodeId :=
  if w.nodeIsConnected n then some n
  else if w.eligible limit n && (match selected with
    | none => true
    | some m => decide (i < c) && !w.nodeIsConnected m) then some n
  else selected

/-- A connected node becomes the candidate. -/
theorem candidate_connected {n : NodeId} (hn : w.nodeIsConnected n = true) (i : ℕ)
    (selected : Option NodeId) : candidate w limit c i selected n = some n := if_pos hn

/-- A node that is neither connected nor eligible changes nothing. -/
theorem candidate_neither {n : NodeId} (hn : ¬ w.nodeIsConnected n = true)
    (he : ¬ w.eligible limit n = true) (i : ℕ) (selected : Option NodeId) :
    candidate w limit c i selected n = selected := by
  simp [candidate, hn, he]

/-- Nor does any node that is not connected once the candidate is. -/
theorem candidate_kept {n m : NodeId} (hn : ¬ w.nodeIsConnected n = true)
    (hm : w.nodeIsConnected m = true) (i : ℕ) : candidate w limit c i (some m) n = some m := by
  simp [candidate, hn, hm]

/-- Before the index an eligible node replaces a candidate that is not connected. -/
theorem candidate_eligible {n : NodeId} (he : w.eligible limit n = true) {i : ℕ} (hi : i < c)
    {selected : Option NodeId} (hs : ¬ (selected.map w.nodeIsConnected).getD false = true) :
    candidate w limit c i selected n = some n := by
  cases selected with
  | none => simp [candidate, he]
  | some m =>
    have hm : ¬ w.nodeIsConnected m = true := hs
    simp [candidate, he, hi, hm]

theorem exists_of_connected {w : World ω} {selected : Option NodeId}
    (hs : (selected.map w.nodeIsConnected).getD false = true) :
    ∃ m, selected = some m ∧ w.nodeIsConnected m = true := by
  cases selected with
  | none => cases hs
  | some m => exact ⟨m, rfl, hs⟩

theorem selectFrom_cons (i : ℕ) (selected : Option NodeId) (n : NodeId) (ns : List NodeId) :
    selectFrom w limit c i selected (n :: ns) =
      if c ≤ i && ((candidate w limit c i selected n).map w.nodeIsConnected).getD false then
        candidate w limit c i selected n
      else selectFrom w limit c (i + 1) (candidate w limit c i selected n) ns := rfl

/-- The loop looks at the nodes and their connections only. -/
theorem selectFrom_env (env : ω) (ns : List NodeId) : ∀ (i : ℕ) (selected : Option NodeId),
    selectFrom { w with env := env } limit c i selected ns =
      selectFrom w limit c i selected ns := by
  induction ns with
  | nil => exact fun _ _ => rfl
  | cons n ns ih =>
    intro i selected
    rw [selectFrom_cons, selectFrom_cons, ih]
    rfl

/-- Once the index is reached, a connected node ends the search, and only a missing candidate
is replaced by another one. -/
theorem selectFrom_reached (ns : List NodeId) : ∀ {i : ℕ} {selected : Option NodeId}, c ≤ i →
    (selected.map w.nodeIsConnected).getD false = false →
    selectFrom w limit c i selected ns =
      (ns.find? w.nodeIsConnected).or (selected.or (ns.find? (w.eligible limit))) := by
  induction ns with
  | nil =>
    intro i selected _ _
    exact (Option.or_none).symm
  | cons n ns ih =>
    intro i selected hi hs
    rw [selectFrom_cons]
    by_cases hn : w.nodeIsConnected n = true
    · rw [candidate_connected w limit c hn]
      simp [hn, hi]
    · have hci : ¬ i < c := by omega
      cases selected with
      | some m =>
        have hc : candidate w limit c i (some m) n = some m := by simp [candidate, hn, hci]
        rw [hc, hs, Bool.and_false, if_neg Bool.false_ne_true, ih (by omega) hs]
        simp [hn]
      | none =>
        by_cases he : w.eligible limit n = true
        · have hc : candidate w limit c i none n = some n := by simp [candidate, hn, he]
          have hs' : ((some n).map w.nodeIsConnected).getD false = false := by simpa using hn
          rw [hc, hs', Bool.and_false, if_neg Bool.false_ne_true, ih (by omega) hs']
          simp [hn, he]
        · rw [candidate_neither w limit c hn he, hs, Bool.and_false, if_neg Bool.false_ne_true, ih (by omega) hs]
          simp [hn, he]

/-- A connected candidate is kept up to the index. -/
theorem selectFrom_connected {selected : Option NodeId} {n : NodeId} {ns : List NodeId}
    (hs : (selected.map w.nodeIsConnected).getD false = true) :
    selectFrom w limit c c selected (n :: ns) =
      if w.nodeIsConnected n then some n else selected := by
  obtain ⟨m, rfl, hm⟩ := exists_of_connected hs
  rw [selectFrom_cons]
  by_cases hn : w.nodeIsConnected n = true
  · rw [candidate_connected w limit c hn]
    simp [hn]
  · rw [candidate_kept w limit c hn hm]
    simp [hn, hm]

theorem find?_reverse_cons {α : Type} (p : α → Bool) (m : α) (l : List α) :
    (m :: l).reverse.find? p = (l.reverse.find? p).or (if p m then some m else none) := by
  rw [List.reverse_cons, List.find?_append, List.find?_singleton]

/-- **The loop in closed form**, with `pre` before the node `n` at the index. -/
theorem selectFrom_eq (n : NodeId) (post pre : List NodeId) :
    ∀ {i : ℕ} {selected : Option NodeId}, i + pre.length = c →
    selectFrom w limit c i selected (pre ++ n :: post) =
      ((pre ++ [n]).reverse.find? w.nodeIsConnected).or
        (if (selected.map w.nodeIsConnected).getD false then selected
        else (post.find? w.nodeIsConnected).or
          (((pre.reverse.find? (w.eligible limit)).or selected).or
            ((n :: post).find? (w.eligible limit)))) := by
  induction pre with
  | nil =>
    intro i selected hi
    obtain rfl : i = c := hi
    by_cases hs : (selected.map w.nodeIsConnected).getD false = true
    · rw [List.nil_append, selectFrom_connected w limit i hs, if_pos hs]
      by_cases hn : w.nodeIsConnected n = true
      · simp [hn]
      · simp [hn]
    · rw [List.nil_append, selectFrom_reached w limit i _ le_rfl (by simpa using hs), if_neg hs]
      by_cases hn : w.nodeIsConnected n = true
      · simp [hn]
      · simp [hn]
  | cons m pre ih =>
    intro i selected hi
    have hic : i < c := by
      rw [List.length_cons] at hi
      omega
    have hstep : selectFrom w limit c i selected (m :: pre ++ n :: post) =
        selectFrom w limit c (i + 1) (candidate w limit c i selected m) (pre ++ n :: post) := by
      rw [List.cons_append, selectFrom_cons, decide_eq_false (by omega), Bool.false_and,
        if_neg Bool.false_ne_true]
    rw [hstep, ih (by rw [List.length_cons] at hi; omega), List.cons_append, find?_reverse_cons,
      find?_reverse_cons]
    have hor : ∀ x y : Option NodeId, (x.or (some m)).or y = x.or (some m) := fun x y => by
      rw [Option.or_assoc, Option.some_or]
    by_cases hm : w.nodeIsConnected m = true
    · have hsm : ((some m).map w.nodeIsConnected).getD false = true := hm
      rw [candidate_connected w limit c hm, if_pos hsm, if_pos hm, hor]
    · rw [if_neg hm, Option.or_none]
      by_cases hs : (selected.map w.nodeIsConnected).getD false = true
      · obtain ⟨m', rfl, hm'⟩ := exists_of_connected hs
        rw [candidate_kept w limit c hm hm', if_pos hs, if_pos hs]
      · by_cases he : w.eligible limit m = true
        · have hsm : ¬ ((some m).map w.nodeIsConnected).getD false = true := hm
          rw [candidate_eligible w limit c he hic hs, if_neg hsm, if_neg hs, if_pos he, hor, hor,
            hor]
        · rw [candidate_neither w limit c hm he, if_neg hs, if_neg hs, if_neg he, Option.or_none]

end Loop

/-! ## The choice -/

/-- The loop over all nodes, in closed form. -/
theorem selectFrom_start (w : World ω) (limit : ℤ) {c : ℕ} {ns : List NodeId}
    (hc : c < ns.length) : selectFrom w limit c 0 none ns =
      ((ns.take (c + 1)).reverse.find? w.nodeIsConnected).or
        (((ns.drop (c + 1)).find? w.nodeIsConnected).or
          (((ns.take c).reverse.find? (w.eligible limit)).or
            ((ns.drop c).find? (w.eligible limit)))) := by
  have hsplit : ns = ns.take c ++ ns[c] :: ns.drop (c + 1) := by
    rw [← List.drop_eq_getElem_cons hc, List.take_append_drop]
  have hlen : 0 + (ns.take c).length = c := by
    rw [List.length_take]
    omega
  have h : selectFrom w limit c 0 none (ns.take c ++ ns[c] :: ns.drop (c + 1)) = _ :=
    selectFrom_eq w limit c ns[c] (ns.drop (c + 1)) (ns.take c) hlen
  rw [← hsplit, ← List.drop_eq_getElem_cons hc, ← List.take_succ_eq_append_getElem hc] at h
  rw [h, if_neg (by simp), Option.or_none]

/-- The choice is right if it is the first of the four that there is. -/
theorem preferred_of_first {connected eligible : NodeId → Bool} {c : ℕ} {ns : List NodeId} :
    Preferred (fun n => connected n = true) (fun n => eligible n = true) c ns
      (((ns.take (c + 1)).reverse.find? connected).or
        (((ns.drop (c + 1)).find? connected).or
          (((ns.take c).reverse.find? eligible).or ((ns.drop c).find? eligible)))) := by
  have hupTo : (fun i : ℕ => i < c + 1) = fun i => i ≤ c :=
    funext fun i => propext Nat.lt_succ_iff
  have hnone : ∀ {n : NodeId}, connected n = true ∨ eligible n = true → n ∈ ns →
      ¬ ∀ m ∈ ns, ¬ connected m = true ∧ ¬ eligible m = true := fun h hn hall =>
    h.elim (hall _ hn).1 (hall _ hn).2
  cases hA : (ns.take (c + 1)).reverse.find? connected with
  | some n =>
    have hlast := lastIn_of_find? hA
    rw [hupTo] at hlast
    obtain ⟨m, hm, hp⟩ := hlast.occurs.exists_mem
    exact ⟨fun _ => ⟨n, rfl, hlast⟩, fun hn => absurd hlast.occurs hn,
      fun hn => absurd hp (hn m hm), fun hn => absurd hp (hn m hm),
      iff_of_false (Option.some_ne_none n) (hnone (Or.inl hp) hm)⟩
  | none =>
    have hno := not_occurs_of_find?_reverse hA
    rw [hupTo] at hno
    cases hB : (ns.drop (c + 1)).find? connected with
    | some n =>
      have hfirst := firstIn_of_find? hB
      obtain ⟨m, hm, hp⟩ := hfirst.occurs.exists_mem
      exact ⟨fun h => absurd h hno, fun _ _ => ⟨n, rfl, hfirst⟩,
        fun hn => absurd hp (hn m hm), fun hn => absurd hp (hn m hm),
        iff_of_false (Option.some_ne_none n) (hnone (Or.inl hp) hm)⟩
    | none =>
      have hno' := not_occurs_of_find? hB
      have hcon : ∀ m ∈ ns, ¬ connected m = true := fun m hm hp =>
        (occurs_or_occurs (fun i => (Nat.lt_or_ge c i).symm) hm hp).elim hno hno'
      cases hC : (ns.take c).reverse.find? eligible with
      | some n =>
        have hlast := lastIn_of_find? hC
        obtain ⟨m, hm, hp⟩ := hlast.occurs.exists_mem
        exact ⟨fun h => absurd h hno, fun _ h => absurd h hno', fun _ _ => ⟨n, rfl, hlast⟩,
          fun _ hn => absurd hlast.occurs hn,
          iff_of_false (Option.some_ne_none n) (hnone (Or.inr hp) hm)⟩
      | none =>
        have hnoE := not_occurs_of_find?_reverse hC
        cases hD : (ns.drop c).find? eligible with
        | some n =>
          have hfirst := firstIn_of_find? hD
          obtain ⟨m, hm, hp⟩ := hfirst.occurs.exists_mem
          exact ⟨fun h => absurd h hno, fun _ h => absurd h hno', fun _ h => absurd h hnoE,
            fun _ _ _ => ⟨n, rfl, hfirst⟩,
            iff_of_false (Option.some_ne_none n) (hnone (Or.inr hp) hm)⟩
        | none =>
          have hnoE' := not_occurs_of_find? hD
          have helig : ∀ m ∈ ns, ¬ eligible m = true := fun m hm hp =>
            (occurs_or_occurs (fun i => Nat.lt_or_ge i c) hm hp).elim hnoE hnoE'
          exact ⟨fun h => absurd h hno, fun _ h => absurd h hno', fun _ h => absurd h hnoE,
            fun _ _ h => absurd h hnoE',
            iff_of_true rfl fun m hm => ⟨hcon m hm, helig m hm⟩⟩

/-- **The loop prefers a node by the rule.** -/
theorem selectFrom_preferred (w : World ω) (limit : ℤ) {c : ℕ} {ns : List NodeId}
    (hc : c < ns.length) : Preferred (fun n => w.nodeIsConnected n = true)
      (fun n => w.eligible limit n = true) c ns (selectFrom w limit c 0 none ns) := by
  rw [selectFrom_start w limit hc]
  exact preferred_of_first

/-- **`selectNode` prefers a node by the rule**: `c` is its random index, and a node is
eligible if no connection to it has been attempted since `limit`. -/
theorem selectNode_preferred (H : Hiredis ω) (d : NodeDict) (w : World ω) {limit : ℤ} {c : ℕ}
    (hlimit : limit = (H.now w.env).1 - slotmapUpdateThrottleUsec) (hc : c < d.vals.length)
    (hrandom : c = (H.random (H.now w.env).2).1 % d.vals.length) :
    Preferred (fun n => w.nodeIsConnected n = true)
      (fun n => (w.heap n).lastConnectionAttempt < limit) c d.vals (selectNode H d w).1 := by
  have hne : d.vals ≠ [] := fun h => by
    rw [h] at hc
    cases hc
  have hrun : (selectNode H d w).1 = selectFrom w limit c 0 none d.vals := by
    rw [hlimit, hrandom]
    unfold selectNode
    simp only [if_neg hne]
    exact selectFrom_env w _ _ _ d.vals 0 none
  rw [hrun]
  have h := selectFrom_preferred w limit hc
  simpa only [World.eligible, decide_eq_true_eq] using h

/-- A dictionary of three nodes. -/
def threeNodes : NodeDict :=
  [(ascii "a:1", 0), (ascii "b:2", 1), (ascii "c:3", 2)].foldl
    (fun d p => (d.add p.1 p.2).getD d) HashTable.empty

/-- The second of the nodes is connected. -/
def oneConnected : World (List Reply) where
  env := []
  heap n := { acon := if n = 1 then some 0 else none }
  aconns _ := { connected := true }

/-- Whatever stands at the index 0, the connected node is chosen. -/
theorem selectNode_preferred_one :
    Preferred (fun n => oneConnected.nodeIsConnected n = true)
      (fun n => (oneConnected.heap n).lastConnectionAttempt < -1000000) 0 threeNodes.vals
      (selectNode Hiredis.scripted threeNodes oneConnected).1 :=
  selectNode_preferred Hiredis.scripted threeNodes oneConnected (by decide +kernel)
    (by decide +kernel) (by decide +kernel)
