/-
# The slot table of a node set

`updateNodesAndSlotmap` enters one master after the other, one range after the other and one
slot after the other.  `fillTable_eq_ok_iff` says for which node sets that succeeds, and what
the table then holds.
-/
import HiredisCluster.Lib.Claims
import HiredisCluster.Slotmap

open Claims

/-! ## What a node set claims -/

/-- A dictionary of nodes. -/
def nodeDict (l : List (Bytes × NodeId)) : NodeDict :=
  l.foldl (fun d e => (d.add e.1 e.2).getD d) HashTable.empty

/-- The slots of a range. -/
def SlotRange.slots (r : SlotRange) : List ℕ := List.range' r.start (r.stop + 1 - r.start)

/-- The slots of a node, range by range. -/
def Node.slotsHeld (n : Node) : List ℕ := (n.slots.getD []).flatMap SlotRange.slots

/-- The slots of a list of nodes, each with its node. -/
def holders (heap : NodeId → Node) (ns : List NodeId) : List (ℕ × NodeId) :=
  ns.flatMap fun n => (heap n).slotsHeld.map fun s => (s, n)

theorem SlotRange.mem_slots {r : SlotRange} {s : ℕ} :
    s ∈ r.slots ↔ r.start ≤ s ∧ s ≤ r.stop := by
  unfold SlotRange.slots
  rw [List.mem_range'_1]
  omega

/-- Ranges one after the other have no slot in common. -/
theorem SlotRange.slots_disjoint {r r' : SlotRange} (h : r.stop < r'.start) :
    r.slots.Disjoint r'.slots := by
  intro s hs hs'
  rw [SlotRange.mem_slots] at hs hs'
  omega

theorem mem_holders {heap : NodeId → Node} {ns : List NodeId} {s : ℕ} {n : NodeId} :
    (s, n) ∈ holders heap ns ↔ n ∈ ns ∧ s ∈ (heap n).slotsHeld := by
  constructor
  · intro h
    obtain ⟨m, hm, hs⟩ := List.mem_flatMap.mp h
    obtain ⟨s', hs', heq⟩ := List.mem_map.mp hs
    obtain ⟨rfl, rfl⟩ := Prod.mk.inj heq
    exact ⟨hm, hs'⟩
  · rintro ⟨hn, hs⟩
    exact List.mem_flatMap.mpr ⟨n, hn, List.mem_map.mpr ⟨s, hs, rfl⟩⟩

/-! ## The loops -/

theorem fillSlots_toOption (n : NodeId) (k : ℕ) : ∀ (t : SlotTable) (i : ℕ),
    (fillSlots n t i k).toOption = claim t ((List.range' i k).map fun s => (s, n)) := by
  induction k with
  | zero => exact fun t i => rfl
  | succ k ih =>
    intro t i
    rw [fillSlots, List.range'_succ, List.map_cons, claim]
    split
    · rfl
    · exact ih _ _

theorem fillRanges_toOption (n : NodeId) (rs : List SlotRange) : ∀ t : SlotTable,
    (fillRanges n t rs).toOption = (if ∀ r ∈ rs, r.start ≤ r.stop ∧ r.stop < redisClusterSlots
      then claim t ((rs.flatMap SlotRange.slots).map fun s => (s, n)) else none) := by
  induction rs with
  | nil => exact fun t => by simp [fillRanges, claim, Except.toOption]
  | cons r rs ih =>
    intro t
    rw [fillRanges]
    by_cases hr : r.start ≤ r.stop ∧ r.stop < redisClusterSlots
    · have hslots := fillSlots_toOption n (r.stop + 1 - r.start) t r.start
      rw [if_neg (by omega), List.flatMap_cons, List.map_append, claim_append, SlotRange.slots,
        ← hslots]
      simp only [List.forall_mem_cons, hr, and_self, true_and]
      cases fillSlots n t r.start (r.stop + 1 - r.start) with
      | error e => simp [Except.toOption]
      | ok t' => exact ih t'
    · rw [if_pos (by omega), if_neg fun h => hr (h r List.mem_cons_self)]
      rfl

theorem fillTable_toOption (heap : NodeId → Node) (ns : List NodeId) : ∀ t : SlotTable,
    (fillTable heap t ns).toOption = (if ∀ n ∈ ns, (heap n).role = .master ∧
        ∀ r ∈ (heap n).slots.getD [], r.start ≤ r.stop ∧ r.stop < redisClusterSlots
      then claim t (holders heap ns) else none) := by
  induction ns with
  | nil => exact fun t => by simp [fillTable, holders, claim, Except.toOption]
  | cons n ns ih =>
    intro t
    rw [fillTable]
    by_cases hrole : (heap n).role = .master
    · have hranges := fillRanges_toOption n ((heap n).slots.getD []) t
      rw [if_neg (not_not.mpr hrole)]
      by_cases hr : ∀ r ∈ (heap n).slots.getD [], r.start ≤ r.stop ∧ r.stop < redisClusterSlots
      · rw [if_pos hr] at hranges
        have hsplit : claim t (holders heap (n :: ns)) =
            ((fillRanges n t ((heap n).slots.getD [])).toOption).bind
              (claim · (holders heap ns)) := by
          rw [hranges, ← claim_append]
          rfl
        simp only [List.forall_mem_cons, hrole, true_and, and_iff_right hr, hsplit]
        cases fillRanges n t ((heap n).slots.getD []) with
        | error e => simp [Except.toOption]
        | ok t' => exact ih t'
      · rw [if_neg hr] at hranges
        rw [if_neg fun h => hr (h n List.mem_cons_self).2]
        cases hfill : fillRanges n t ((heap n).slots.getD []) with
        | error e => rfl
        | ok t' =>
          rw [hfill] at hranges
          cases hranges
    · rw [if_pos hrole, if_neg fun h => hrole (h n List.mem_cons_self).1]
      rfl

/-! ## The table -/

/-- A node set for which a slot table exists. -/
structure Fillable (heap : NodeId → Node) (ns : List NodeId) : Prop where
  masters : ∀ n ∈ ns, (heap n).role = .master
  ranges : ∀ n ∈ ns, ∀ r ∈ (heap n).slots.getD [], r.start ≤ r.stop ∧ r.stop < redisClusterSlots
  once : (ns.flatMap fun n => (heap n).slotsHeld).Nodup

theorem map_fst_holders (heap : NodeId → Node) (ns : List NodeId) :
    (holders heap ns).map Prod.fst = ns.flatMap fun n => (heap n).slotsHeld := by
  simp [holders, List.map_flatMap, Function.comp_def]

/-- **The table of a node set** exists exactly if all its nodes are masters, its ranges are
valid, and no slot is covered twice; each slot then has the node that covers it. -/
theorem fillTable_eq_ok_iff {heap : NodeId → Node} {ns : List NodeId} {t : SlotTable} :
    fillTable heap (fun _ => none) ns = .ok t ↔
      Fillable heap ns ∧ ∀ s n, t s = some n ↔ n ∈ ns ∧ s ∈ (heap n).slotsHeld := by
  have hopt : fillTable heap (fun _ => none) ns = .ok t ↔
      (fillTable heap (fun _ => none) ns).toOption = some t := by
    cases fillTable heap (fun _ => none) ns <;> simp [Except.toOption]
  rw [hopt, fillTable_toOption, Option.ite_none_right_eq_some, claim_eq_some_iff, map_fst_holders]
  simp only [mem_holders, reduceCtorEq, or_false, implies_true, true_and]
  constructor
  · rintro ⟨hok, honce, ht⟩
    exact ⟨⟨fun n hn => (hok n hn).1, fun n hn => (hok n hn).2, honce⟩, ht⟩
  · rintro ⟨h, ht⟩
    exact ⟨fun n hn => ⟨h.masters n hn, h.ranges n hn⟩, h.once, ht⟩

/-- The table exists. -/
theorem Fillable.exists_table {heap : NodeId → Node} {ns : List NodeId} (h : Fillable heap ns) :
    ∃ t, fillTable heap (fun _ => none) ns = .ok t := by
  obtain ⟨t, ht⟩ := exists_claim (t := fun _ => none) (map_fst_holders heap ns ▸ h.once)
    fun _ _ => rfl
  have hfill := fillTable_toOption heap ns fun _ => none
  rw [if_pos fun n hn => ⟨h.masters n hn, h.ranges n hn⟩, ht] at hfill
  cases hf : fillTable heap (fun _ => none) ns with
  | error e =>
    rw [hf] at hfill
    cases hfill
  | ok t' => exact ⟨t', rfl⟩
