/-
# Numbers that are received

Ports and slot bounds come from the integers of CLUSTER SLOTS, from decimal digits in
CLUSTER NODES and in redirects, and from the addresses a user adds.  They are narrowed on
the way: the reply integers are cut to an `int`, `_hi_atoi` computes in one, and a port
ends in a `uint16_t`.

`TakenExactly` says that what is stored is the number that was denoted, in its range;
`NumbersFit` is when that is so.
-/
import HiredisCluster.LineText
import HiredisCluster.Redirect
import HiredisCluster.SlotsReply

open Creation Program

variable {ω : Type}

/-! ## What digits denote, and what `_hi_atoi` makes of them -/

/-- The number that a string of decimal digits denotes. -/
def denoted (s : Bytes) : Option ℕ :=
  if s ≠ [] ∧ s.all isDigit = true then some (numeral 0 s) else none

theorem wrap32_step (a : ℤ) (d : ℕ) : wrap32 (wrap32 a * 10 + d) = wrap32 (a * 10 + d) := by
  unfold wrap32
  rw [Int.bmod_def, Int.bmod_def, Int.bmod_def]
  omega

theorem wrap32_neg_iff (v : ℕ) : wrap32 v < 0 ↔ 2 ^ 31 ≤ v % 2 ^ 32 := by
  unfold wrap32
  rw [Int.bmod_def]
  omega

theorem wrap32_eq_zero_iff (v : ℕ) : wrap32 v = 0 ↔ v % 2 ^ 32 = 0 := by
  unfold wrap32
  rw [Int.bmod_def]
  omega

/-- On digits `_hi_atoi` computes the number modulo `2 ^ 32`. -/
theorem hiAtoiLoop_wraps {s : Bytes} (hs : s.all isDigit = true) : ∀ acc : ℕ,
    hiAtoiLoop (wrap32 acc) s =
      if wrap32 (numeral acc s) < 0 then -1 else wrap32 (numeral acc s) := by
  induction s with
  | nil => exact fun acc => rfl
  | cons b s ih =>
    intro acc
    obtain ⟨hb, hs⟩ := Bool.and_eq_true_iff.mp hs
    rw [hiAtoiLoop, if_pos hb, wrap32_step, numeral_cons]
    exact ih hs (acc * 10 + digitVal b)

theorem hiAtoiLoop_notDigits {s : Bytes} (hs : ¬ s.all isDigit = true) : ∀ value : ℤ,
    hiAtoiLoop value s = -1 := by
  induction s with
  | nil => exact absurd rfl hs
  | cons b s ih =>
    intro value
    rw [hiAtoiLoop]
    split
    · rename_i hb
      exact ih (fun hall => hs (by rw [List.all_cons, hb, hall]; rfl)) _
    · rfl

theorem hiAtoi_of_denoted {s : Bytes} {v : ℕ} (h : denoted s = some v) :
    hiAtoi s = if wrap32 v < 0 then -1 else wrap32 v := by
  unfold denoted at h
  split at h
  · rename_i hs
    obtain rfl := Option.some.inj h
    rw [hiAtoi, if_neg hs.1]
    exact hiAtoiLoop_wraps hs.2 0
  · cases h

/-- What is not a decimal number is never read as one. -/
theorem hiAtoi_of_not_denoted {s : Bytes} (h : denoted s = none) : hiAtoi s = -1 := by
  unfold denoted at h
  split at h
  · cases h
  · rename_i hs
    rw [hiAtoi]
    split
    · rfl
    · rename_i hne
      exact hiAtoiLoop_notDigits (fun hall => hs ⟨hne, hall⟩) 0

/-- The text does not denote a number of `2 ^ 32` or more. -/
def Fits (s : Bytes) : Prop := ∀ v, denoted s = some v → v < 2 ^ 32

/-- **A number that is read is the one that was written, if it fits.** -/
theorem denoted_iff_fits {s : Bytes} (h : 0 ≤ hiAtoi s) :
    denoted s = some (hiAtoi s).toNat ↔ Fits s := by
  cases hd : denoted s with
  | none =>
    rw [hiAtoi_of_not_denoted hd] at h
    omega
  | some v =>
    have hread := hiAtoi_of_denoted hd
    have hrange : -2 ^ 31 ≤ wrap32 v ∧ wrap32 v < 2 ^ 31 ∧ (wrap32 v - v) % 2 ^ 32 = 0 := by
      unfold wrap32
      rw [Int.bmod_def]
      omega
    obtain ⟨hlo, hhi, hmod⟩ := hrange
    have hnonneg : ¬ wrap32 v < 0 := by
      intro hneg
      rw [if_pos hneg] at hread
      omega
    rw [if_neg hnonneg] at hread
    rw [hread]
    constructor
    · intro heq u hu
      have hv := Option.some.inj heq
      rw [hd] at hu
      obtain rfl := Option.some.inj hu
      omega
    · intro hfits
      have hlt := hfits v hd
      exact congrArg some (by omega)

/-- A port that is read: the number written is it, and lies in its range. -/
def PortDenoted (s : Bytes) (port : ℕ) : Prop := denoted s = some port ∧ 1 ≤ port ∧ port ≤ 65535

theorem toUint16_of_port {n : ℤ} (h : 1 ≤ n) (h' : n ≤ 65535) : toUint16 n = n.toNat := by
  unfold toUint16
  omega

/-- With the range check of `node_get_with_nodes`. -/
theorem portDenoted_iff_fits {s : Bytes} (h : 1 ≤ hiAtoi s) (h' : hiAtoi s ≤ 65535) :
    PortDenoted s (toUint16 (hiAtoi s)) ↔ Fits s := by
  rw [PortDenoted, toUint16_of_port h h', ← denoted_iff_fits (by omega)]
  refine and_iff_left ?_
  omega

/-- Without one. -/
theorem portDenoted_iff {s : Bytes} :
    PortDenoted s (toUint16 (hiAtoi s)) ↔ ∃ v, denoted s = some v ∧ 1 ≤ v ∧ v ≤ 65535 := by
  constructor
  · exact fun h => ⟨_, h⟩
  · rintro ⟨v, hd, hlo, hhi⟩
    have hread : hiAtoi s = v := by
      rw [hiAtoi_of_denoted hd, wrap32_of_lt (by omega), if_neg (by omega)]
    rw [hread, toUint16_of_port (by omega) (by omega)]
    exact ⟨by rw [hd]; rfl, by omega⟩

/-- The text of the port in an address: what follows the last colon. -/
def portText (addr : Bytes) : Bytes :=
  match strrchr addr 58 with
  | none => []
  | some p => (cstr addr).drop (p + 1)

/-! ## Ranges in a slot table -/

/-- When the nodes of a parse fill a slot table, their ranges lie in it. -/
def InTable (res : Option NodeDict × World ω) : Prop :=
  ∀ nodes table, res.1 = some nodes →
    fillTable res.2.heap (fun _ => none) nodes.vals = .ok table →
    ∀ n ∈ nodes.vals, ∀ rs, (res.2.heap n).slots = some rs → ∀ r ∈ rs,
      r.start ≤ r.stop ∧ r.stop < redisClusterSlots

theorem inTable (res : Option NodeDict × World ω) : InTable res := by
  intro nodes table _ hfill n hn rs hrs r hr
  exact (fillTable_eq_ok_iff.mp hfill).1.ranges n hn r (by rwa [hrs])

/-! ## CLUSTER NODES -/

theorem nodeOfFields_portText {tcpHost : Bytes} {part : List Bytes} {role : Role} {node : Node}
    (h : nodeOfFields tcpHost part role = .ok node) :
    1 ≤ hiAtoi (portText (stripCport (part.getD 1 []))) ∧ hiAtoi (portText (stripCport (part.getD 1 []))) ≤ 65535 ∧
      node.port = toUint16 (hiAtoi (portText (stripCport (part.getD 1 [])))) := by
  unfold nodeOfFields at h
  unfold portText
  dsimp only at h
  cases hp : strrchr (stripCport (part.getD 1 [])) 58 with
  | none =>
    rw [hp] at h
    cases h
  | some p =>
    rw [hp] at h
    dsimp only at h ⊢
    split at h
    · cases h
    · rename_i hrange
      rw [not_or, Int.not_lt, Int.not_lt] at hrange
      refine ⟨hrange.1, hrange.2, ?_⟩
      split at h
      · obtain rfl := Except.ok.inj h
        rfl
      · obtain rfl := Except.ok.inj h
        rfl

/-- The range that a slot field denotes is `r`, and it lies in the slot table. -/
def RangeDenoted (field : Bytes) (r : SlotRange) : Prop :=
  (match sdssplitlen field 45 with
    | [a] => denoted a = some r.start ∧ denoted a = some r.stop
    | [a, b] => denoted a = some r.start ∧ denoted b = some r.stop
    | _ => False) ∧ r.start ≤ r.stop ∧ r.stop < redisClusterSlots

/-- The bounds in a slot field do not denote numbers of `2 ^ 32` or more. -/
def FieldFits (field : Bytes) : Prop := ∀ t ∈ sdssplitlen field 45, Fits t

theorem rangeDenoted_iff {field : Bytes} {r : SlotRange} (h : slotField field = some r) :
    RangeDenoted field r ↔ FieldFits field := by
  unfold slotField at h
  unfold RangeDenoted FieldFits
  dsimp only at h
  split at h
  · cases h
  · rename_i hin
    obtain rfl := Option.some.inj h
    simp only [not_or, Int.not_lt, Nat.not_le] at hin
    obtain ⟨hstart, hstop, hle, hlt⟩ := hin
    rw [and_iff_left ⟨Int.toNat_le_toNat hle, hlt⟩]
    split
    · rename_i a htok
      rw [htok, slotBounds] at hstart
      rw [htok, slotBounds]
      simp only [List.mem_singleton, forall_eq, and_self]
      exact denoted_iff_fits hstart
    · rename_i a b htok
      rw [htok, slotBounds] at hstart hstop
      rw [htok, slotBounds]
      simp only [List.mem_cons, List.not_mem_nil, or_false, forall_eq_or_imp, forall_eq]
      exact and_congr (denoted_iff_fits hstart) (denoted_iff_fits hstop)
    · rename_i hone htwo
      -- other fields have the bounds `-1`
      have hbounds : slotBounds (sdssplitlen field 45) = (-1, -1) := by
        unfold slotBounds
        split
        · exact absurd ‹_› (hone _)
        · exact absurd ‹_› (htwo _ _)
        · rfl
      rw [hbounds] at hstart
      exact absurd hstart (by decide)

/-- A list and what is selected from it, one by one. -/
theorem forall₂_filterMap_iff {α β : Type} (f : α → Option β) (R : α → β → Prop) (l : List α) :
    List.Forall₂ R (l.filter fun x => (f x).isSome) (l.filterMap f) ↔
      ∀ x ∈ l, ∀ y, f x = some y → R x y := by
  induction l with
  | nil => simp
  | cons x l ih =>
    cases hx : f x with
    | none =>
      rw [List.filterMap_cons_none hx, List.filter_cons_of_neg (by simp [hx]), ih]
      simp [hx]
    | some y =>
      rw [List.filterMap_cons_some hx, List.filter_cons_of_pos (by simp [hx]), List.forall₂_cons, ih]
      simp [hx]

/-- The slot fields of a line whose ranges are accepted. -/
def acceptedFields (line : Bytes) : List Bytes :=
  ((sdssplitlen line 32).drop 8).filter fun f => (slotField f).isSome

/-- The node that is stored for a line has the port and the ranges that its text denotes. -/
structure NodeTaken (line : Bytes) (stored : Node) : Prop where
  port : PortDenoted (portText (stripCport ((sdssplitlen line 32).getD 1 []))) stored.port
  ranges : stored.role = .master →
    ∃ rs, stored.slots = some rs ∧ List.Forall₂ RangeDenoted (acceptedFields line) rs

/-- The numbers of a line are below `2 ^ 32`: its port, and on a master line the bounds of
the fields that are accepted. -/
def LineFits (tcpHost : Bytes) (addSlave : Bool) (line : Bytes) : Prop :=
  Fits (portText (stripCport ((sdssplitlen line 32).getD 1 []))) ∧
    match readNodesLine tcpHost addSlave line with
    | .master _ fields => ∀ f ∈ fields, (slotField f).isSome = true → FieldFits f
    | _ => True

/-- The lines that are accepted after those in `made`: all that make a node, up to the first
that is refused. -/
def acceptedTexts (tcpHost : Bytes) (addSlave : Bool) (made : List NodesLine) :
    List Bytes → List Bytes
  | [] => []
  | line :: rest =>
    match readNodesLine tcpHost addSlave line with
    | .bad _ _ => []
    | .skipped => acceptedTexts tcpHost addSlave made rest
    | .master node fields =>
      if made.any (·.hasAddr node.addr) then []
      else if addSlave && made.any (·.hasLabel node.label) then []
      else line :: acceptedTexts tcpHost addSlave (made ++ [.master node fields]) rest
    | .slave node k => line :: acceptedTexts tcpHost addSlave (made ++ [.slave node k]) rest

theorem survey_acceptedTexts (tcpHost : Bytes) (addSlave : Bool) (lines : List Bytes) :
    ∀ made : List NodesLine,
      (survey addSlave made (lines.map (readNodesLine tcpHost addSlave))).1 =
        made ++ (acceptedTexts tcpHost addSlave made lines).map (readNodesLine tcpHost addSlave) := by
  induction lines with
  | nil =>
    intro made
    rw [acceptedTexts, List.map_nil, List.append_nil]
    rfl
  | cons line rest ih =>
    intro made
    rw [List.map_cons, acceptedTexts]
    cases hread : readNodesLine tcpHost addSlave line with
    | bad c node =>
      rw [List.map_nil, List.append_nil]
      cases node with
      | none => rfl
      | some node => rfl
    | skipped => exact ih made
    | slave node k =>
      rw [survey, ih, List.map_cons, hread, List.append_assoc, List.singleton_append]
    | master node fields =>
      rw [survey]
      dsimp only
      split
      · rw [List.map_nil, List.append_nil]
      · split
        · rw [List.map_nil, List.append_nil]
        · rw [ih, List.map_cons, hread, List.append_assoc, List.singleton_append]

/-- The nodes of the accepted lines are as the scan left them, whatever ended it. -/
theorem Ended.scanned {w₀ w : World ω} {made : List NodesLine} {scan : NodesScan}
    {stop : Option Stop} (h : Ended w₀ w made scan stop) :
    ∃ w₁ scan₁, Scanned w₀ w₁ made scan₁ ∧ ∀ n < w₁.nextNode, w.heap n = w₁.heap n := by
  cases stop with
  | none => exact ⟨w, scan, h, fun _ _ => rfl⟩
  | some s =>
    cases s with
    | line c => exact ⟨w, scan, h, fun _ _ => rfl⟩
    | node c =>
      obtain ⟨w₁, -, node, -, hs, rfl⟩ := h
      exact ⟨w₁, scan, hs, fun n hn => w₁.refusing_heap_of_lt node hn⟩
    | name =>
      obtain ⟨w₁, scan₁, node, -, hs, -, rfl⟩ := h
      exact ⟨w₁, scan₁, hs, fun n hn => w₁.refusing_heap_of_lt node hn⟩

theorem readNodesLine_master {tcpHost : Bytes} {addSlave : Bool} {line : Bytes} {node : Node}
    {fields : List Bytes} (h : readNodesLine tcpHost addSlave line = .master node fields) :
    nodeOfFields tcpHost (sdssplitlen line 32) .master = .ok node ∧
      fields = (sdssplitlen line 32).drop 8 := by
  unfold readNodesLine at h
  dsimp only at h
  split at h
  · cases h
  · split at h
    · cases h
    · split at h
      · split at h
        · cases h
        · obtain ⟨rfl, rfl⟩ := NodesLine.master.inj h
          exact ⟨‹_›, rfl⟩
      · split at h
        · split at h
          · cases h
          · cases h
        · cases h

theorem readNodesLine_slave {tcpHost : Bytes} {addSlave : Bool} {line : Bytes} {node : Node}
    {k : Bytes} (h : readNodesLine tcpHost addSlave line = .slave node k) :
    nodeOfFields tcpHost (sdssplitlen line 32) .slave = .ok node := by
  unfold readNodesLine at h
  dsimp only at h
  split at h
  · cases h
  · split at h
    · cases h
    · split at h
      · split at h
        · cases h
        · cases h
      · split at h
        · split at h
          · cases h
          · rename_i hnode
            obtain ⟨rfl, -⟩ := NodesLine.slave.inj h
            exact hnode
        · cases h

/-- The node of a line that was accepted has its numbers exactly when they fit. -/
theorem nodeTaken_iff {w₀ w : World ω} {made : List NodesLine} {scan : NodesScan} {tcpHost : Bytes}
    {addSlave : Bool} {line : Bytes} {n : NodeId} (h : Scanned w₀ w made scan)
    (hn : MadeFor w₀.nextNode made n (readNodesLine tcpHost addSlave line)) :
    NodeTaken line (w.heap n) ↔ LineFits tcpHost addSlave line := by
  unfold LineFits
  cases hread : readNodesLine tcpHost addSlave line with
  | bad c node => rw [hread] at hn; exact absurd (h.accepted _ hn.mem) id
  | skipped => rw [hread] at hn; exact absurd (h.accepted _ hn.mem) id
  | master node fields =>
    rw [hread] at hn
    obtain ⟨hnode, rfl⟩ := readNodesLine_master hread
    obtain ⟨hlo, hhi, hport⟩ := nodeOfFields_portText hnode
    obtain ⟨kids, mig, imp, heq⟩ := (h.master hn).1
    have hrole : (w.heap n).role = .master := (h.filled hn).1
    have hstored : (w.heap n).port = node.port := by rw [heq]
    have hslots : (w.heap n).slots = some (slotFields ((sdssplitlen line 32).drop 8)) := by rw [heq]
    have hranges := forall₂_filterMap_iff slotField RangeDenoted ((sdssplitlen line 32).drop 8)
    constructor
    · rintro ⟨hp, hr⟩
      rw [hstored, hport, portDenoted_iff_fits hlo hhi] at hp
      refine ⟨hp, fun f hf hsome => ?_⟩
      obtain ⟨rs, hrs, hall⟩ := hr hrole
      obtain rfl := Option.some.inj (hslots.symm.trans hrs)
      obtain ⟨r, hfr⟩ := Option.isSome_iff_exists.mp hsome
      exact (rangeDenoted_iff hfr).mp (hranges.mp hall f hf r hfr)
    · rintro ⟨hp, hr⟩
      refine ⟨?_, fun _ => ⟨_, hslots, hranges.mpr fun f hf r hfr => ?_⟩⟩
      · rw [hstored, hport, portDenoted_iff_fits hlo hhi]
        exact hp
      · exact (rangeDenoted_iff hfr).mpr (hr f hf (by rw [hfr]; rfl))
  | slave node k =>
    rw [hread] at hn
    obtain ⟨hlo, hhi, hport⟩ := nodeOfFields_portText (readNodesLine_slave hread)
    obtain ⟨kids, heq⟩ := (h.slave hn).1
    have hrole : (w.heap n).role = .slave := (h.parked hn).1
    have hstored : (w.heap n).port = node.port := by rw [heq]
    rw [and_iff_left trivial]
    constructor
    · rintro ⟨hp, -⟩
      rwa [hstored, hport, portDenoted_iff_fits hlo hhi] at hp
    · intro hp
      refine ⟨?_, fun hm => ?_⟩
      · rw [hstored, hport, portDenoted_iff_fits hlo hhi]
        exact hp
      · rw [hrole] at hm
        cases hm

/-- The lines of a CLUSTER NODES reply that are accepted. -/
def nodesTexts (tcpHost : Bytes) (addSlave : Bool) (reply : Reply) : List Bytes :=
  acceptedTexts tcpHost addSlave [] (nodesLines [] false reply.text)

/-- The nodes that a parse of CLUSTER NODES stores for the accepted lines, in their order;
and the ranges that get into a slot table lie in it. -/
def NodesTaken (tcpHost : Bytes) (reply : Reply) (w : World ω) : Prop :=
  List.Forall₂ (fun line n => NodeTaken line ((parseClusterNodes tcpHost reply w).2.heap n))
    (nodesTexts tcpHost w.cc.addSlave reply)
    (List.range' w.nextNode (nodesTexts tcpHost w.cc.addSlave reply).length) ∧
  InTable (parseClusterNodes tcpHost reply w)

theorem nodesTaken_iff (tcpHost : Bytes) (reply : Reply) (w : World ω) :
    NodesTaken tcpHost reply w ↔
      ∀ line ∈ nodesTexts tcpHost w.cc.addSlave reply, LineFits tcpHost w.cc.addSlave line := by
  obtain ⟨scan, w₁, hend, hres⟩ := parseClusterNodes_ended tcpHost reply w
  have hmade := survey_acceptedTexts tcpHost w.cc.addSlave (nodesLines [] false reply.text) []
  obtain ⟨w₂, scan₂, hs, hheap⟩ := hend.scanned
  have hfinal : (parseClusterNodes tcpHost reply w).2.heap = w₁.heap := by
    split at hres
    · rw [hres.2]
    · obtain ⟨-, e, hw⟩ := hres
      rw [hw]
      rfl
  rw [show (survey w.cc.addSlave [] (readNodesReply tcpHost w.cc.addSlave reply)).1 =
    (nodesTexts tcpHost w.cc.addSlave reply).map (readNodesLine tcpHost w.cc.addSlave)
    from hmade.trans (List.nil_append _)] at hs
  rw [NodesTaken, and_iff_left (inTable _), forall₂_range'_iff, hfinal]
  have hone : ∀ {n line}, MadeFor w.nextNode (nodesTexts tcpHost w.cc.addSlave reply) n line →
      (NodeTaken line (w₁.heap n) ↔ LineFits tcpHost w.cc.addSlave line) := by
    intro n line hn
    have hread := hn.map (readNodesLine tcpHost w.cc.addSlave)
    rw [hheap n (hs.lt hread)]
    exact nodeTaken_iff hs hread
  constructor
  · intro h line hline
    obtain ⟨n, hn⟩ := MadeFor.of_mem w.nextNode hline
    exact (hone hn).mp (h n line hn)
  · exact fun h n line hn => (hone hn).mpr (h line hn.mem)

/-! ## CLUSTER SLOTS -/

theorem freeLoneNode_heap (n : NodeId) (w : World ω) : (freeLoneNode n w).2.heap = w.heap := by
  show (detachAsync (w.heap n).acon (redisFree (w.heap n).con w).2).2.heap = w.heap
  cases (w.heap n).con with
  | none =>
    cases (w.heap n).acon with
    | none => rfl
    | some a => rfl
  | some c =>
    cases (w.heap n).acon with
    | none => rfl
    | some a => rfl

theorem forEach_heap {α : Type} {f : α → Prog ω Unit} (hf : ∀ x w, (f x w).2.heap = w.heap)
    (l : List α) : ∀ w : World ω, (forEach f l w).2.heap = w.heap := by
  induction l with
  | nil => exact fun _ => rfl
  | cons x l ih => exact fun w => (ih (f x w).2).trans (hf x w)

/-- Releasing what was built leaves the node objects as they are. -/
theorem parseFailed_heap (nodes : NodeDict) (e : Complaint) (w : World ω) :
    (parseFailed nodes e w).2.heap = w.heap := by
  refine (forEach_heap (fun n v => ?_) nodes.vals (w.complaining e)).trans rfl
  exact (forEach_heap freeLoneNode_heap _ _).trans (freeLoneNode_heap n v)

/-- The entry has the port of the node, in its range. -/
def EntryTaken (entry : Reply) (stored : Node) : Prop :=
  ∃ ip p rest, entry = .array (ip :: .integer p :: rest) ∧ (stored.port : ℤ) = p ∧ 1 ≤ p ∧ p ≤ 65535

/-- The region has the bounds of the range. -/
def RegionTaken (region : Reply) (r : SlotRange) : Prop :=
  ∃ b e rest, region = .array (.integer b :: .integer e :: rest) ∧
    (r.start : ℤ) = b ∧ (r.stop : ℤ) = e

/-- The port of an entry is the value of an `int`. -/
def EntryFits (entry : Reply) : Prop :=
  ∀ ip p rest, entry = .array (ip :: .integer p :: rest) → -2 ^ 31 ≤ p ∧ p < 2 ^ 31

/-- The bounds of a region are values of a `uint32_t`. -/
def RegionFits (region : Reply) : Prop :=
  ∀ b e rest, region = .array (.integer b :: .integer e :: rest) →
    (0 ≤ b ∧ b < 2 ^ 32) ∧ 0 ≤ e ∧ e < 2 ^ 32

theorem entryTaken_iff {tcpHost : Bytes} {entry : Reply} {host : Bytes} {port : ℤ}
    (h : slotsEndpoint tcpHost entry = .ok (host, port)) {stored : Node}
    (hs : stored.port = toUint16 port) : EntryTaken entry stored ↔ EntryFits entry := by
  unfold slotsEndpoint at h
  split at h
  · rename_i ip port' rest
    split at h
    · rename_i p hhost
      split at h
      · rename_i hvalid
        obtain ⟨rfl, rfl⟩ := Prod.mk.inj (Except.ok.inj h)
        simp only [hiValidPort, Bool.and_eq_true, decide_eq_true_eq] at hvalid
        obtain ⟨hlo, hhi⟩ := hvalid
        have hport : (stored.port : ℤ) = toInt32 p := by
          rw [hs, toUint16_of_port hlo hhi]
          omega
        have hwrap : toInt32 p = p ↔ -2 ^ 31 ≤ p ∧ p < 2 ^ 31 := by
          unfold toInt32 wrap32
          rw [Int.bmod_def]
          omega
        constructor
        · rintro ⟨ip', p', rest', heq, hp, -, -⟩ ip'' p'' rest'' heq'
          obtain ⟨-, hint⟩ := List.cons.inj (Reply.array.inj heq)
          obtain rfl := Reply.integer.inj (List.cons.inj hint).1
          obtain ⟨-, hint'⟩ := List.cons.inj (Reply.array.inj heq')
          obtain rfl := Reply.integer.inj (List.cons.inj hint').1
          exact hwrap.mp (hport.symm.trans hp)
        · intro hfits
          have hp := hwrap.mpr (hfits ip p rest rfl)
          exact ⟨ip, p, rest, rfl, hport.trans hp, by omega, by omega⟩
      · cases h
    · cases h
  · cases h

theorem regionTaken_iff {b e : Reply} {rest : List Reply} {r : SlotRange}
    (h : slotsRange b e = .ok r) :
    RegionTaken (.array (b :: e :: rest)) r ↔ RegionFits (.array (b :: e :: rest)) := by
  unfold slotsRange at h
  split at h
  · rename_i b e
    dsimp only at h
    split at h
    · cases h
    · obtain rfl := Except.ok.inj h
      have hcut : ∀ x : ℤ, ((toUint32 (toInt32 x) : ℕ) : ℤ) = x ↔ 0 ≤ x ∧ x < 2 ^ 32 := by
        intro x
        unfold toUint32 toInt32 wrap32
        rw [Int.bmod_def]
        omega
      constructor
      · rintro ⟨b', e', rest', heq, hb, he⟩ b'' e'' rest'' heq'
        obtain ⟨hb₁, htail⟩ := List.cons.inj (Reply.array.inj heq)
        obtain rfl := Reply.integer.inj hb₁
        obtain rfl := Reply.integer.inj (List.cons.inj htail).1
        obtain ⟨hb₂, htail'⟩ := List.cons.inj (Reply.array.inj heq')
        obtain rfl := Reply.integer.inj hb₂
        obtain rfl := Reply.integer.inj (List.cons.inj htail').1
        exact ⟨(hcut _).mp hb, (hcut _).mp he⟩
      · intro hfits
        obtain ⟨hb, he⟩ := hfits b e rest rfl
        exact ⟨b, e, rest, rfl, (hcut b).mpr hb, (hcut e).mpr he⟩
  · cases h
  · cases h

/-- What has been surveyed was read from the reply. -/
structure SlotsSurvey.Read (tcpHost : Bytes) (s : SlotsSurvey) : Prop where
  entry : ∀ x ∈ s.made, slotsEndpoint tcpHost x.entry = .ok (x.host, x.port)
  region : ∀ g ∈ s.regions, ∃ b e rest,
    g.1 = .array (b :: e :: rest) ∧ slotsRange b e = .ok g.2.1

theorem surveyReplicas_read (tcpHost : Bytes) (addSlave : Bool) (es : List Reply) :
    ∀ x ∈ (surveyReplicas tcpHost addSlave es).1,
      slotsEndpoint tcpHost x.entry = .ok (x.host, x.port) := by
  induction es with
  | nil => simp [surveyReplicas]
  | cons e es ih =>
    intro x hx
    unfold surveyReplicas at hx
    split at hx
    · cases hx
    · rename_i y hy
      dsimp only at hx
      split at hx
      · rcases List.mem_cons.mp hx with rfl | hx
        · obtain ⟨hep, hentry, -⟩ := readSlotsNode_ok hy
          rw [hentry]
          exact hep
        · exact ih x hx
      · exact ih x hx

theorem readSlotsRegion_ok {tcpHost : Bytes} {region : Reply} {g : SlotsRegion}
    (h : readSlotsRegion tcpHost region = .ok g) :
    slotsEndpoint tcpHost g.master.entry = .ok (g.master.host, g.master.port) ∧
      g.master.role = .master ∧
      ∃ b e rest, region = .array (b :: e :: rest) ∧ slotsRange b e = .ok g.range := by
  unfold readSlotsRegion at h
  split at h
  · rename_i b e m rest
    split at h
    · cases h
    · rename_i range hrange
      split at h
      · cases h
      · rename_i master hmaster
        obtain rfl := Except.ok.inj h
        obtain ⟨hep, hentry, hrole⟩ := readSlotsNode_ok hmaster
        refine ⟨?_, hrole, b, e, m :: rest, rfl, hrange⟩
        rw [hentry]
        exact hep
  · cases h

theorem SlotsSurvey.Read.region_step {tcpHost : Bytes} {s : SlotsSurvey} (h : s.Read tcpHost)
    (addSlave : Bool) (region : Reply) :
    (surveyRegion tcpHost addSlave s region).1.Read tcpHost := by
  unfold surveyRegion
  split
  · exact h
  · rename_i g hg
    obtain ⟨hep, -, hregion⟩ := readSlotsRegion_ok hg
    have hregions : ∀ g' ∈ s.regions ++ [(region, g.range, g.master.addr)], ∃ b e rest,
        g'.1 = .array (b :: e :: rest) ∧ slotsRange b e = .ok g'.2.1 := by
      intro g' hg'
      rcases List.mem_append.mp hg' with hg' | hg'
      · exact h.region g' hg'
      · obtain rfl := List.mem_singleton.mp hg'
        exact hregion
    dsimp only
    split
    · exact ⟨h.entry, hregions⟩
    · refine ⟨fun x hx => ?_, hregions⟩
      rcases List.mem_append.mp hx with hx | hx
      · exact h.entry x hx
      · rcases List.mem_cons.mp hx with rfl | hx
        · exact hep
        · exact surveyReplicas_read tcpHost addSlave g.rest x hx

theorem SlotsSurvey.Read.regions (tcpHost : Bytes) (addSlave : Bool) (regions : List Reply) :
    ∀ {s : SlotsSurvey}, s.Read tcpHost → (surveySlots tcpHost addSlave s regions).1.Read tcpHost := by
  induction regions with
  | nil => exact fun h => h
  | cons region rest ih =>
    intro s h
    have hstep := h.region_step addSlave region
    unfold surveySlots
    split
    · rename_i hs
      rw [hs] at hstep
      exact hstep
    · rename_i hs
      rw [hs] at hstep
      exact ih hstep

/-- What is accepted of a CLUSTER SLOTS reply. -/
def slotsAccepted (tcpHost : Bytes) (addSlave : Bool) (reply : Reply) : SlotsSurvey :=
  match slotsRegions reply with
  | none => {}
  | some regions => (surveySlots tcpHost addSlave {} regions).1

/-- The accepted regions of the master with address `a`. -/
def SlotsSurvey.regionsAt (s : SlotsSurvey) (a : Bytes) : List Reply :=
  (s.regions.filter fun g => g.2.2 = a).map Prod.fst

/-- The node that is stored for an entry has its port, and a master the ranges of its
regions. -/
structure SlotsNodeTaken (s : SlotsSurvey) (x : SlotsNode) (stored : Node) : Prop where
  port : EntryTaken x.entry stored
  ranges : x.role = .master →
    ∃ rs, stored.slots = some rs ∧ List.Forall₂ RegionTaken (s.regionsAt x.addr) rs

/-- The nodes that a parse of CLUSTER SLOTS stores for the accepted entries, in their order;
and the ranges that get into a slot table lie in it. -/
def SlotsTaken (tcpHost : Bytes) (reply : Reply) (w : World ω) : Prop :=
  let w' := (parseClusterSlots tcpHost reply w).2
  let s := slotsAccepted tcpHost w.cc.addSlave reply
  List.Forall₂ (fun x n => SlotsNodeTaken s x (w'.heap n)) s.made
    (List.range' w.nextNode s.made.length) ∧
  InTable (parseClusterSlots tcpHost reply w)

/-- The numbers of the accepted entries and regions fit the types they are cut to. -/
def SlotsFit (s : SlotsSurvey) : Prop :=
  (∀ x ∈ s.made, EntryFits x.entry) ∧ ∀ g ∈ s.regions, RegionFits g.1

theorem slotsTaken_iff (tcpHost : Bytes) (reply : Reply) (w : World ω) :
    SlotsTaken tcpHost reply w ↔ SlotsFit (slotsAccepted tcpHost w.cc.addSlave reply) := by
  unfold SlotsTaken slotsAccepted
  cases hreply : slotsRegions reply with
  | none =>
    refine iff_of_true ⟨List.Forall₂.nil, inTable _⟩ ⟨?_, ?_⟩
    · intro x hx
      cases hx
    · intro g hg
      cases hg
  | some regions =>
    obtain ⟨nodes, w₁, hs, hres⟩ := parseClusterSlots_scanned tcpHost hreply w
    have hread := SlotsSurvey.Read.regions tcpHost w.cc.addSlave regions
      (s := {}) ⟨by simp, by simp⟩
    have hheap : (parseClusterSlots tcpHost reply w).2.heap = w₁.heap := by
      split at hres
      · rw [hres.2]
      · rw [hres.2, parseFailed_heap]
    dsimp only
    rw [and_iff_left (inTable _), hheap, forall₂_range'_iff]
    generalize (surveySlots tcpHost w.cc.addSlave {} regions).1 = s at hs hread
    have hranges : ∀ a, List.Forall₂ RegionTaken (s.regionsAt a) (s.rangesAt a) ↔
        ∀ g ∈ s.regions, g.2.2 = a → RegionFits g.1 := by
      intro a
      unfold SlotsSurvey.regionsAt SlotsSurvey.rangesAt
      rw [List.forall₂_map_left_iff, List.forall₂_map_right_iff, List.forall₂_same]
      simp only [List.mem_filter, decide_eq_true_eq, and_imp]
      refine forall_congr' fun g => forall_congr' fun hg => forall_congr' fun _ => ?_
      obtain ⟨b, e, rest, heq, hrange⟩ := hread.region g hg
      rw [heq]
      exact regionTaken_iff hrange
    have hport : ∀ {n x}, MadeFor w.nextNode s.made n x →
        (EntryTaken x.entry (w₁.heap n) ↔ EntryFits x.entry) := by
      intro n x hx
      obtain ⟨kids, heq⟩ := hs.node hx
      exact entryTaken_iff (hread.entry x hx.mem) (by rw [heq]; rfl)
    have hslots : ∀ {n x}, MadeFor w.nextNode s.made n x → x.role = .master →
        (w₁.heap n).slots = some (s.rangesAt x.addr) := by
      intro n x hx hrole
      obtain ⟨kids, heq⟩ := hs.node hx
      rw [heq]
      exact if_pos hrole
    constructor
    · intro h
      constructor
      · intro x hx
        obtain ⟨n, hn⟩ := MadeFor.of_mem w.nextNode hx
        exact (hport hn).mp (h n x hn).port
      · intro g hg
        obtain ⟨x, hx, hrole, haddr⟩ := SlotsSurvey.knows_iff.mp (hs.covered g hg)
        obtain ⟨n, hn⟩ := MadeFor.of_mem w.nextNode hx
        obtain ⟨rs, hrs, hall⟩ := (h n x hn).ranges hrole
        obtain rfl := Option.some.inj ((hslots hn hrole).symm.trans hrs)
        exact (hranges x.addr).mp hall g hg haddr.symm
    · rintro ⟨hports, hregions⟩ n x hn
      refine ⟨(hport hn).mpr (hports x hn.mem), fun hrole => ⟨_, hslots hn hrole, ?_⟩⟩
      exact (hranges x.addr).mpr fun g hg _ => hregions g hg

/-! ## Redirects -/

/-- The nodes that are created have the port that `port` denotes. -/
def CreatedTaken (port : Bytes) (w w' : World ω) : Prop :=
  ∀ n, w.nextNode ≤ n → n < w'.nextNode → PortDenoted port (w'.heap n).port

/-- The slots that are written to the table are the one that `slot` denotes, and lie in it. -/
def StoredTaken (slot : Bytes) (w w' : World ω) : Prop :=
  ∀ (s : ℤ) (n : NodeId), .stored s n ∈ w'.trace.drop w.trace.length →
    ∃ v : ℕ, denoted slot = some v ∧ s = v ∧ v < redisClusterSlots

/-- The text denotes a port in its range. -/
def PortFits (port : Bytes) : Prop := ∃ v, denoted port = some v ∧ 1 ≤ v ∧ v ≤ 65535

/-- The text denotes a slot, or a number that `_hi_atoi` takes for a negative one. -/
def SlotFits (slot : Bytes) : Prop :=
  ∀ v, denoted slot = some v → v < redisClusterSlots ∨ 2 ^ 31 ≤ v % 2 ^ 32

/-- No node is filed under the address. -/
def Unfiled (w : World ω) (addr : Bytes) : Prop :=
  (w.cc.nodes.getD HashTable.empty).find addr = none

/-- What a redirect creates and stores: its second field is the slot, its third the
endpoint. -/
def MovedTaken (str : Bytes) (w : World ω) : Prop :=
  CreatedTaken (portText ((sdssplitlen str 32).getD 2 [])) w (handleMoved str w).2 ∧
    StoredTaken ((sdssplitlen str 32).getD 1 []) w (handleMoved str w).2

def AskTaken (str : Bytes) (w : World ω) : Prop :=
  CreatedTaken (portText ((sdssplitlen str 32).getD 2 [])) w (handleAsk str w).2 ∧
    StoredTaken ((sdssplitlen str 32).getD 1 []) w (handleAsk str w).2

/-- An endpoint that is not known has a port in range. -/
def EndpointFits (w : World ω) (endpoint : Bytes) : Prop :=
  Unfiled w endpoint → PortFits (portText endpoint)

theorem redirectFields_eq {str slotText endpoint : Bytes}
    (h : redirectFields str = some (slotText, endpoint)) :
    (sdssplitlen str 32).getD 1 [] = slotText ∧ (sdssplitlen str 32).getD 2 [] = endpoint := by
  unfold redirectFields at h
  split at h
  · rename_i hsplit
    rw [hsplit]
    split at h
    · cases h
    · split at h
      · cases h
      · obtain ⟨rfl, rfl⟩ := Prod.mk.inj (Option.some.inj h)
        exact ⟨rfl, rfl⟩
  · cases h

/-- A redirect is rejected, or leads to a known node, or to one that is created with the
port that `_hi_atoi` reads. -/
theorem getNodeFromRedirectReply_creates (str : Bytes) (w : World ω) :
    wp (getNodeFromRedirectReply str) (fun r w' => w'.trace = w.trace ∧
      match redirectFields str with
      | none => r.1 = none ∧ w'.nextNode = w.nextNode
      | some (slotText, endpoint) => ∃ n, r = (some n, hiAtoi slotText) ∧
        (¬ Unfiled w endpoint ∧ w'.nextNode = w.nextNode ∨
          Unfiled w endpoint ∧ w'.nextNode = w.nextNode + 1 ∧
            (w'.heap w.nextNode).port = toUint16 (hiAtoi (portText endpoint)))) w := by
  unfold getNodeFromRedirectReply redirectFields
  rw [wp_bind, wp_get]
  split
  · rename_i slotText endpoint hsplit
    split
    · exact ⟨rfl, rfl, rfl⟩
    · rename_i p hp
      split
      · exact ⟨rfl, rfl, rfl⟩
      · dsimp only
        split
        · rename_i n hfind
          refine ⟨rfl, n, rfl, Or.inl ⟨fun hnone => ?_, rfl⟩⟩
          rw [Unfiled, hfind] at hnone
          cases hnone
        · rename_i hfind
          rw [wp_bind, wp_newNode_creating]
          split
          · rename_i hadd
            have := (HashTable.add_isSome_iff _ endpoint w.nextNode).mpr hfind
            rw [hadd] at this
            cases this
          · refine ⟨rfl, w.nextNode, rfl, Or.inr ⟨hfind, rfl, ?_⟩⟩
            show ((w.creating _).heap w.nextNode).port = _
            rw [World.creating_heap_self, portText, hp]
  · exact ⟨rfl, rfl, rfl⟩

theorem createdTaken_of_eq {port : Bytes} {w w' : World ω} (h : w'.nextNode = w.nextNode) :
    CreatedTaken port w w' := by
  intro n hlo hhi
  exact absurd hhi (by rw [h]; exact Nat.not_lt.mpr hlo)

theorem createdTaken_one {port : Bytes} {w w' : World ω} (h : w'.nextNode = w.nextNode + 1)
    (hport : (w'.heap w.nextNode).port = toUint16 (hiAtoi port)) :
    CreatedTaken port w w' ↔ PortFits port := by
  rw [PortFits, ← portDenoted_iff, ← hport]
  constructor
  · exact fun hall => hall w.nextNode le_rfl (by rw [h]; exact Nat.lt_succ_self _)
  · intro hone n hlo hhi
    rw [h] at hhi
    obtain rfl := Nat.le_antisymm hlo (Nat.le_of_lt_succ hhi)
    exact hone

theorem storedTaken_of_eq {slot : Bytes} {w w' : World ω} (h : w'.trace = w.trace) :
    StoredTaken slot w w' := by
  intro s n hev
  rw [h, List.drop_length] at hev
  cases hev

theorem storeSlot_trace (slot : ℤ) (n : NodeId) (w : World ω) :
    (storeSlot slot n w).2.trace = if slot < 0 then w.trace else w.trace ++ [.stored slot n] := by
  show wp (storeSlot slot n) (fun _ w' =>
    w'.trace = if slot < 0 then w.trace else w.trace ++ [.stored slot n]) w
  unfold storeSlot
  split
  · rfl
  · rw [wp_bind, wp_record]
    split
    · rfl
    · rfl

/-- A slot that is read and not negative is the one written, and lies in the table. -/
theorem slotFits_iff {slot : Bytes} : SlotFits slot ↔
    (0 ≤ hiAtoi slot → ∃ v : ℕ, denoted slot = some v ∧ hiAtoi slot = v ∧ v < redisClusterSlots) := by
  unfold SlotFits
  cases hd : denoted slot with
  | none =>
    have hread := hiAtoi_of_not_denoted hd
    refine iff_of_true (fun v hv => by cases hv) (fun hnonneg => ?_)
    omega
  | some v =>
    have hread := hiAtoi_of_denoted hd
    unfold redisClusterSlots
    constructor
    · intro hall hnonneg
      rcases hall v rfl with hlt | hneg
      · refine ⟨v, rfl, ?_, hlt⟩
        rw [hread, wrap32_of_lt (by omega), if_neg (by omega)]
      · rw [hread, if_pos ((wrap32_neg_iff v).mpr hneg)] at hnonneg
        omega
    · intro hone u hu
      obtain rfl := Option.some.inj hu
      by_cases hneg : wrap32 v < 0
      · exact Or.inr ((wrap32_neg_iff v).mp hneg)
      · rw [if_neg hneg] at hread
        obtain ⟨u, hu, -, hlt⟩ := hone (by omega)
        obtain rfl := Option.some.inj hu
        exact Or.inl hlt

/-- What is stored under the slot of a redirect. -/
theorem storedTaken_iff {slot : Bytes} {n : NodeId} {w w₁ : World ω} (h : w₁.trace = w.trace) :
    StoredTaken slot w (storeSlot (hiAtoi slot) n w₁).2 ↔ SlotFits slot := by
  rw [slotFits_iff, StoredTaken, storeSlot_trace, h]
  split
  · rename_i hneg
    refine iff_of_true (fun s m hev => ?_) (fun hnonneg => absurd hneg (Int.not_lt.mpr hnonneg))
    rw [List.drop_length] at hev
    cases hev
  · rename_i hnonneg
    rw [List.drop_left]
    constructor
    · exact fun hall _ => hall _ n (List.mem_singleton.mpr rfl)
    · intro hone s m hev
      obtain ⟨rfl, rfl⟩ := Event.stored.inj (List.mem_singleton.mp hev)
      exact hone (Int.not_lt.mp hnonneg)

theorem endpointTaken_iff {endpoint : Bytes} {w w' : World ω}
    (h : ¬ Unfiled w endpoint ∧ w'.nextNode = w.nextNode ∨
      Unfiled w endpoint ∧ w'.nextNode = w.nextNode + 1 ∧
        (w'.heap w.nextNode).port = toUint16 (hiAtoi (portText endpoint))) :
    CreatedTaken (portText endpoint) w w' ↔ EndpointFits w endpoint := by
  unfold EndpointFits
  rcases h with ⟨hfiled, hnext⟩ | ⟨hun, hnext, hport⟩
  · exact iff_of_true (createdTaken_of_eq hnext) (fun hun => absurd hun hfiled)
  · rw [createdTaken_one hnext hport]
    exact ⟨fun h _ => h, fun h => h hun⟩

/-- A MOVED that is accepted has a slot that fits, and its endpoint a port. -/
def MovedFits (str : Bytes) (w : World ω) : Prop :=
  ∀ slotText endpoint, redirectFields str = some (slotText, endpoint) →
    EndpointFits w endpoint ∧ SlotFits slotText

/-- The slot of an ASK is not used. -/
def AskFits (str : Bytes) (w : World ω) : Prop :=
  ∀ slotText endpoint, redirectFields str = some (slotText, endpoint) → EndpointFits w endpoint

theorem movedTaken_iff (str : Bytes) (w : World ω) : MovedTaken str w ↔ MovedFits str w := by
  unfold MovedTaken handleMoved
  show wp _ (fun _ w' => CreatedTaken _ w w' ∧ StoredTaken _ w w' ↔ _) w
  rw [wp_bind]
  refine wp_mono (getNodeFromRedirectReply_creates str w) fun r w₁ h => ?_
  obtain ⟨r, slot⟩ := r
  obtain ⟨htrace, h⟩ := h
  split at h
  · rename_i hfields
    obtain ⟨hr, hnext⟩ := h
    dsimp only at hr
    subst hr
    refine iff_of_true ⟨createdTaken_of_eq hnext, storedTaken_of_eq htrace⟩ (fun _ _ h => ?_)
    rw [hfields] at h
    cases h
  · rename_i slotText endpoint hfields
    obtain ⟨n, hr, hcases⟩ := h
    obtain ⟨rfl, rfl⟩ := Prod.mk.inj hr
    obtain ⟨hslot, hend⟩ := redirectFields_eq hfields
    have hfits : MovedFits str w ↔ EndpointFits w endpoint ∧ SlotFits slotText := by
      unfold MovedFits
      rw [hfields]
      exact ⟨fun h => h _ _ rfl, fun h _ _ heq => by
        obtain ⟨rfl, rfl⟩ := Prod.mk.inj (Option.some.inj heq)
        exact h⟩
    rw [hslot, hend, hfits]
    dsimp only
    rw [wp_bind]
    have hp := storeSlot_pointed (hiAtoi slotText) n w₁
    refine and_congr ?_ (storedTaken_iff htrace)
    refine endpointTaken_iff ?_
    show ¬ Unfiled w endpoint ∧ (storeSlot (hiAtoi slotText) n w₁).2.nextNode = w.nextNode ∨
      Unfiled w endpoint ∧ (storeSlot (hiAtoi slotText) n w₁).2.nextNode = w.nextNode + 1 ∧
        ((storeSlot (hiAtoi slotText) n w₁).2.heap w.nextNode).port = _
    rw [hp.nextNode, hp.heap]
    exact hcases

theorem askTaken_iff (str : Bytes) (w : World ω) : AskTaken str w ↔ AskFits str w := by
  unfold AskTaken handleAsk
  show wp _ (fun _ w' => CreatedTaken _ w w' ∧ StoredTaken _ w w' ↔ _) w
  rw [wp_bind]
  refine wp_mono (getNodeFromRedirectReply_creates str w) fun r w₁ h => ?_
  obtain ⟨htrace, h⟩ := h
  show CreatedTaken _ w w₁ ∧ StoredTaken _ w w₁ ↔ _
  rw [and_iff_left (storedTaken_of_eq htrace)]
  unfold AskFits
  split at h
  · rename_i hfields
    refine iff_of_true (createdTaken_of_eq h.2) (fun _ _ h => ?_)
    rw [hfields] at h
    cases h
  · rename_i slotText endpoint hfields
    obtain ⟨n, -, hcases⟩ := h
    rw [(redirectFields_eq hfields).2, hfields, endpointTaken_iff hcases]
    exact ⟨fun h _ _ heq => by
      obtain ⟨rfl, rfl⟩ := Prod.mk.inj (Option.some.inj heq)
      exact h, fun h => h _ _ rfl⟩

/-! ## Addresses that are added -/

/-- The node that `redisClusterSetOptionAddNode` creates has the port of its address. -/
def AddedTaken (addr : Bytes) (w : World ω) : Prop :=
  CreatedTaken (portText addr) w (redisClusterSetOptionAddNode addr w).2

/-- The port of a new address with a host is none that `_hi_atoi` takes for a number above
zero, or in range. -/
def AddedFits (addr : Bytes) (w : World ω) : Prop :=
  Unfiled w (cstr addr) → (∃ p, strrchr addr 58 = some p ∧ p ≠ 0) →
    ∀ v, denoted (portText addr) = some v → v ≤ 65535 ∨ v % 2 ^ 32 = 0 ∨ 2 ^ 31 ≤ v % 2 ^ 32

/-- A port that `_hi_atoi` takes for a number above zero. -/
theorem portFits_iff {port : Bytes} (h : 0 < hiAtoi port) : PortFits port ↔
    ∀ v, denoted port = some v → v ≤ 65535 ∨ v % 2 ^ 32 = 0 ∨ 2 ^ 31 ≤ v % 2 ^ 32 := by
  unfold PortFits
  cases hd : denoted port with
  | none =>
    have hread := hiAtoi_of_not_denoted hd
    omega
  | some v =>
    have hread := hiAtoi_of_denoted hd
    have hpos : ¬ wrap32 v < 0 ∧ wrap32 v ≠ 0 := by
      split at hread
      · omega
      · exact ⟨by assumption, by omega⟩
    rw [wrap32_neg_iff, ne_eq, wrap32_eq_zero_iff] at hpos
    constructor
    · rintro ⟨u, hu, -, hhi⟩ t ht
      obtain rfl := Option.some.inj hu
      obtain rfl := Option.some.inj ht
      exact Or.inl hhi
    · intro hall
      rcases hall v rfl with hhi | hzero | hneg
      · refine ⟨v, rfl, ?_, hhi⟩
        rcases Nat.eq_zero_or_pos v with rfl | hv
        · exact absurd rfl hpos.2
        · exact hv
      · exact absurd hzero hpos.2
      · exact absurd hneg hpos.1

theorem addedTaken_iff (addr : Bytes) (w : World ω) : AddedTaken addr w ↔ AddedFits addr w := by
  unfold AddedTaken AddedFits
  show wp (redisClusterSetOptionAddNode addr) (fun _ w' => CreatedTaken _ w w' ↔ _) w
  unfold redisClusterSetOptionAddNode
  rw [wp_bind, wp_get]
  dsimp only
  rw [wp_bind, wp_modifyCc]
  split
  · rename_i n hfind
    refine iff_of_true (createdTaken_of_eq rfl) (fun hun => ?_)
    rw [Unfiled, hfind] at hun
    cases hun
  · rename_i hfind
    split
    · rename_i hp
      refine iff_of_true (createdTaken_of_eq rfl) (fun _ hhost => ?_)
      obtain ⟨p, hp', -⟩ := hhost
      rw [hp] at hp'
      cases hp'
    · rename_i p hp
      have hport : portText addr = (cstr addr).drop (p + 1) := by rw [portText, hp]
      split
      · rename_i hzero
        refine iff_of_true (createdTaken_of_eq rfl) (fun _ hhost => ?_)
        obtain ⟨q, hq, hne⟩ := hhost
        exact absurd ((Option.some.inj (hp.symm.trans hq)).symm.trans hzero) hne
      · rename_i hne
        rw [← hport]
        split
        · rename_i hempty
          refine iff_of_true (createdTaken_of_eq rfl) (fun _ _ v hv => ?_)
          rw [hempty] at hv
          cases hv
        · split
          · rename_i hneg
            refine iff_of_true (createdTaken_of_eq rfl) (fun _ _ v hv => ?_)
            have hread := hiAtoi_of_denoted hv
            rw [← wrap32_neg_iff, ← wrap32_eq_zero_iff]
            split at hread
            · exact Or.inr (Or.inr (by assumption))
            · exact Or.inr (by omega)
          · rename_i hpos
            rw [wp_bind, wp_newNode_creating]
            split
            · rename_i hadd
              have := (HashTable.add_isSome_iff _ (cstr addr) w.nextNode).mpr hfind
              rw [hadd] at this
              cases this
            · rw [wp_bind, wp_modifyCc]
              refine (createdTaken_one rfl ?_).trans ?_
              · show ((World.creating _ _).heap _).port = _
                exact congrArg Node.port (World.creating_heap_self _ _)
              · rw [portFits_iff (Int.not_le.mp hpos)]
                exact ⟨fun h _ _ => h, fun h => h hfind ⟨p, hp, hne⟩⟩

/-! ## All that is received -/

/-- Where numbers come from: replies to the queries for the slots, redirects, and the
user. -/
inductive Received where
  | slots (tcpHost : Bytes) (reply : Reply)
  | nodes (tcpHost : Bytes) (reply : Reply)
  | moved (str : Bytes)
  | ask (str : Bytes)
  | added (addr : Bytes)

/-- The numbers that are stored are the ones denoted, in their ranges. -/
def TakenExactly (w : World ω) : Received → Prop
  | .slots tcpHost reply => SlotsTaken tcpHost reply w
  | .nodes tcpHost reply => NodesTaken tcpHost reply w
  | .moved str => MovedTaken str w
  | .ask str => AskTaken str w
  | .added addr => AddedTaken addr w

/-- Where a number is accepted and stored, the one denoted fits the type it is cut to. -/
def NumbersFit (w : World ω) : Received → Prop
  | .slots tcpHost reply => SlotsFit (slotsAccepted tcpHost w.cc.addSlave reply)
  | .nodes tcpHost reply =>
    ∀ line ∈ nodesTexts tcpHost w.cc.addSlave reply, LineFits tcpHost w.cc.addSlave line
  | .moved str => MovedFits str w
  | .ask str => AskFits str w
  | .added addr => AddedFits addr w

/-- **What is stored is exact precisely when the numbers fit.** -/
theorem takenExactly_iff (w : World ω) (x : Received) : TakenExactly w x ↔ NumbersFit w x := by
  cases x with
  | slots tcpHost reply => exact slotsTaken_iff tcpHost reply w
  | nodes tcpHost reply => exact nodesTaken_iff tcpHost reply w
  | moved str => exact movedTaken_iff str w
  | ask str => exact askTaken_iff str w
  | added addr => exact addedTaken_iff addr w

/-- The user adds port 65537, and a redirect leads to port 65538 and slot 2^32 + 5. -/
theorem wrappedNumbers_not_taken :
    let w : World Unit := { env := (), cc := { nodes := some HashTable.empty } }
    ¬ TakenExactly w (.added (ascii "a:65537")) ∧
      ¬ TakenExactly w (.moved (ascii "MOVED 4294967301 b:65538")) := by
  constructor
  · intro h
    have hport := h 0 le_rfl (by decide +kernel)
    exact absurd hport.1 (by decide +kernel)
  · intro h
    have hport := h.1 0 le_rfl (by decide +kernel)
    exact absurd hport.1 (by decide +kernel)
