/-
# No stale node is used while a command executes

The command loop holds on to nodes and connections across calls that may replace
the whole node set.  It is saved by an invariant that is nowhere written down:
once a topology query is deferred, the slot of the command is mapped to a node
whose connection is in order (`Served`), so no update happens before the end.

The one exception is the fallback after a MOVED whose topology query cannot be
sent: an update that succeeds there releases the node that the redirect led to,
and the loop goes on to use it.
-/
import HiredisCluster.Execute

open Program

variable {ω : Type}

/-! ## What survives a step -/

/-- The loop asked for a node it knows, and collects from a connection of one. -/
def Honest : Event → Prop
  | .lookup _ known => known = true
  | .deferred _ held => held = true
  | _ => True

/-- Nodes stay known and connections stay held, and the loop is honest. -/
structure Stays (w w' : World ω) : Prop where
  known : ∀ n, w.Known n → w'.Known n
  held : ∀ c, w.Held c → w'.Held c
  honest : ∃ new, w'.trace = w.trace ++ new ∧ ∀ e ∈ new, Honest e

theorem Stays.trans {w w' w'' : World ω} (h : Stays w w') (h' : Stays w' w'') : Stays w w'' := by
  obtain ⟨new, hnew, hh⟩ := h.honest
  obtain ⟨new', hnew', hh'⟩ := h'.honest
  refine ⟨fun n hn => h'.known n (h.known n hn), fun c hc => h'.held c (h.held c hc),
    new ++ new', by rw [hnew', hnew, List.append_assoc], fun e he => ?_⟩
  rcases List.mem_append.mp he with he | he
  · exact hh e he
  · exact hh' e he

theorem honest_of_routine {w : World ω} {e : Event} (h : Routine w e) : Honest e := by
  cases e with
  | lookup n k => exact h.elim
  | deferred c k => exact h.elim
  | _ => trivial

theorem honest_of_sound {e : Event} (h : Sound e) : Honest e := by
  cases e with
  | lookup n k => exact h.elim
  | deferred c k => exact h.elim
  | _ => trivial

theorem Linking.stays {w w' : World ω} (h : Linking w w') (hr : Routed w) : Stays w w' := by
  obtain ⟨new, hnew, hev⟩ := h.trace
  refine ⟨fun n => h.known.mpr, fun c hc => ?_, new, hnew, fun e he => honest_of_routine (hev e he)⟩
  obtain ⟨n, hn, hcon⟩ := hc
  exact ⟨n, by rw [h.nodeList]; exact hn, h.con n (hr.lt n hn) c hcon⟩

theorem Learns.stays {w w' : World ω} (h : Learns w w') (hr : Routed w) : Stays w w' := by
  refine ⟨fun n => h.known, fun c hc => ?_, [], by rw [h.traceEq, List.append_nil], by simp⟩
  obtain ⟨n, hn, hcon⟩ := hc
  exact ⟨n, h.known hn, (h.conEq n (hr.lt n hn)).trans hcon⟩

theorem SlotPointed.stays {n : NodeId} {w w' : World ω} (h : SlotPointed n w w') : Stays w w' := by
  obtain ⟨new, hnew, hev⟩ := h.trace
  refine ⟨fun m hm => ?_, fun c hc => ?_, new, hnew, fun e he => ?_⟩
  · rw [World.Known, h.nodeList]
    exact hm
  · rw [World.Held, h.nodeList, h.heap]
    exact hc
  · obtain ⟨s, rfl⟩ := hev e he
    trivial

/-- An update is honest, whatever becomes of the nodes. -/
theorem Updates.honest {w w' : World ω} {r : Status} (h : Updates w r w') :
    ∃ new, w'.trace = w.trace ++ new ∧ ∀ e ∈ new, Honest e := by
  cases r with
  | ok =>
    obtain ⟨new, hnew, hev⟩ := h.events
    exact ⟨new, hnew, fun e he => (hev e he).elim honest_of_routine honest_of_sound⟩
  | err =>
    obtain ⟨new, hnew, hev⟩ := h.trace
    exact ⟨new, hnew, fun e he => honest_of_routine (hev e he)⟩

/-! ## The invariant -/

/-- The slot is mapped to node `n`. -/
def Aimed (slot : ℕ) (n : NodeId) (w : World ω) : Prop :=
  slot < redisClusterSlots ∧ ∃ t, w.cc.table = some t ∧ t slot = some n

/-- The slot is mapped to a node whose connection is in order. -/
def Served (slot : ℕ) (w : World ω) : Prop :=
  ∃ n c, Aimed slot n w ∧ (w.heap n).con = some c ∧ (w.conns c).err = none

theorem Aimed.known {slot : ℕ} {n : NodeId} {w : World ω} (h : Aimed slot n w) (hr : Routed w) :
    w.Known n := by
  obtain ⟨-, t, ht, hn⟩ := h
  exact hr.known ht hn

theorem Aimed.of_table {slot : ℕ} {n : NodeId} {w w' : World ω} (h : Aimed slot n w)
    (ht : w'.cc.table = w.cc.table) : Aimed slot n w' := by
  obtain ⟨hslot, t, htable, hn⟩ := h
  exact ⟨hslot, t, ht.trans htable, hn⟩

/-- A node keeps serving its slot as long as its connection is in order. -/
theorem Served.of_table {slot : ℕ} {w w' : World ω} (h : Served slot w) (hr : Routed w)
    (htable : w'.cc.table = w.cc.table)
    (hcon : ∀ n < w.nextNode, ∀ c, (w.heap n).con = some c → (w'.heap n).con = some c)
    (hok : ∀ n c, (w.heap n).con = some c → (w.conns c).err = none → (w'.conns c).err = none) :
    Served slot w' := by
  obtain ⟨n, c, ha, hc, herr⟩ := h
  exact ⟨n, c, ha.of_table htable, hcon n (hr.lt n (ha.known hr)) c hc, hok n c hc herr⟩

/-- What holds at each place of the loop. -/
def InPlace (slot : ℕ) (e : Exec) (w : World ω) : Prop :=
  match e.pc with
  | .retry => e.cUpdatingRoute = none ∨ Served slot w
  | .send c => w.Held c ∧ Served slot w
  | .moved n c => w.Held c ∧ w.Known n ∧ (Served slot w ∨ Aimed slot n w)
  | .follow n _ => w.Known n ∧ (Served slot w ∨ Aimed slot n w)
  | .asking c => w.Held c ∧ Served slot w
  | .done _ => True
  | .ret _ => True

/-- The connection of the deferred query belongs to a node, until it is
collected. -/
def DeferredHeld (e : Exec) (w : World ω) : Prop :=
  match e.pc with
  | .ret _ => True
  | _ => ∀ c, e.cUpdatingRoute = some c → w.Held c

/-- What holds between the steps of the loop that was entered in `w₀`. -/
structure Current (slot : ℕ) (w₀ : World ω) (e : Exec) (w : World ω) : Prop where
  ordered : Ordered w
  honest : ∃ new, w.trace = w₀.trace ++ new ∧ ∀ e ∈ new, Honest e
  deferredHeld : DeferredHeld e w
  inPlace : InPlace slot e w

theorem Current.after {slot : ℕ} {w₀ w w' : World ω} {e' : Exec}
    (hh : ∃ new, w.trace = w₀.trace ++ new ∧ ∀ e ∈ new, Honest e)
    (h : Current slot w e' w') : Current slot w₀ e' w' := by
  refine ⟨h.ordered, ?_, h.deferredHeld, h.inPlace⟩
  obtain ⟨new, hnew, hev⟩ := hh
  obtain ⟨new', hnew', hev'⟩ := h.honest
  refine ⟨new ++ new', by rw [hnew', hnew, List.append_assoc], fun e he => ?_⟩
  rcases List.mem_append.mp he with he | he
  · exact hev e he
  · exact hev' e he

/-- Giving up. -/
theorem current_done {slot : ℕ} {w w' : World ω} {r : Option Answer} {u : Option ConnId}
    (ho : Ordered w') (hs : Stays w w') (hu : ∀ c, u = some c → w.Held c) :
    Current slot w ⟨.done r, u⟩ w' :=
  ⟨ho, hs.honest, fun c hc => hs.held c (hu c hc), trivial⟩

section Steps

variable (H : Hiredis ω)

/-- What the loop relies on when it looks up a known node. -/
structure Looked (n : NodeId) (w : World ω) (r : Option ConnId) (w' : World ω) : Prop where
  ordered : Ordered w'
  stays : Stays w w'
  table : w'.cc.table = w.cc.table
  con : ∀ c, r = some c → (w'.heap n).con = some c
  served : ∀ slot, Served slot w → Served slot w'

theorem lookupNode_looked {n : NodeId} {w : World ω} (ho : Ordered w) (hn : w.Known n) :
    wp (lookupNode H n) (fun r w' => Looked n w r w') w := by
  unfold lookupNode
  rw [wp_bind, wp_get, wp_bind, wp_record]
  generalize hw₁ : ({ w with trace := w.trace ++ [.lookup n (decide (w.Known n))] } :
    World ω) = w₁
  have ho₁ : Ordered w₁ := hw₁ ▸ ho.record (by simp)
  have hs₁ : Stays w w₁ := by
    rw [← hw₁]
    exact ⟨fun _ h => h, fun _ h => h, [.lookup n (decide (w.Known n))], rfl,
      by simpa [Honest] using hn⟩
  have hsame : w₁.cc = w.cc ∧ w₁.heap = w.heap ∧ w₁.conns = w.conns := by
    rw [← hw₁]
    exact ⟨rfl, rfl, rfl⟩
  have hn₁ : n < w₁.nextNode := ho₁.routed.lt n (hs₁.known n hn)
  refine wp_mono (wp_and (ctxGetByNode_links H n w₁)
    (show wp _ (fun _ w' => ∀ c < w₁.nextConn, ((w₁.heap n).con = some c →
      (w₁.conns c).err = none) → w'.conns c = w₁.conns c) w₁ from
      fun c hc hok => ctxGetByNode_conns H n w₁ hc hok)) fun r w' hr => ?_
  obtain ⟨⟨⟨hl, hcon, -⟩, -⟩, hconns⟩ := hr
  refine ⟨ho₁.linking hl, hs₁.trans (hl.stays ho₁.routed), hl.table.trans (by rw [hsame.1]),
    hcon hn₁, fun slot hserved => ?_⟩
  have hserved₁ : Served slot w₁ := by
    unfold Served Aimed
    rw [hsame.1, hsame.2.1, hsame.2.2]
    exact hserved
  refine hserved₁.of_table ho₁.routed hl.table hl.con fun m c hc herr => ?_
  rw [hconns c (ho₁.wired.lt m c hc) fun _ => herr]
  exact herr

theorem Looked.held {n : NodeId} {w w' : World ω} {c : ConnId} (h : Looked n w (some c) w')
    (hn : w.Known n) : w'.Held c :=
  ⟨n, h.stays.known n hn, h.con c rfl⟩

theorem Looked.nowServed {slot : ℕ} {n : NodeId} {w w' : World ω} {c : ConnId}
    (h : Looked n w (some c) w') (ha : Served slot w ∨ Aimed slot n w)
    (herr : (w'.conns c).err = none) : Served slot w' := by
  rcases ha with hs | ha
  · exact h.served slot hs
  · exact ⟨n, c, ha.of_table h.table, h.con c rfl, herr⟩

theorem connectOrFail_current {slot : ℕ} {n : NodeId} {w : World ω} {u : Option ConnId}
    {next : ConnId → Pc} (hnext : next = .send ∨ next = .asking) (ho : Ordered w)
    (hn : w.Known n) (ha : Served slot w ∨ Aimed slot n w) (hu : ∀ c, u = some c → w.Held c) :
    wp (connectOrFail H n next u) (fun e w' => Current slot w e w') w := by
  unfold connectOrFail
  rw [wp_bind]
  refine wp_mono (lookupNode_looked H ho hn) fun r w₁ hl => ?_
  cases r with
  | none => exact current_done hl.ordered hl.stays hu
  | some c =>
    dsimp only
    rw [wp_bind, wp_get]
    split
    · have hc := (calmly (within_copyError c) w₁).toLinking
      exact current_done (hl.ordered.linking hc) (hl.stays.trans (hc.stays hl.ordered.routed)) hu
    · rename_i herr
      have herr : (w₁.conns c).err = none := Option.not_isSome_iff_eq_none.mp herr
      have hheld := hl.held hn
      have hserved := hl.nowServed ha herr
      have hdef : ∀ c', u = some c' → w₁.Held c' := fun c' hc' => hl.stays.held c' (hu c' hc')
      rcases hnext with rfl | rfl
      · exact ⟨hl.ordered, hl.stays.honest, hdef, hheld, hserved⟩
      · exact ⟨hl.ordered, hl.stays.honest, hdef, hheld, hserved⟩

theorem nodeGetByTable_aimed (cmd : Cmd) (w : World ω) :
    wp (nodeGetByTable (toUint32 cmd.slotNum)) (fun r w' => Calm w w' ∧
      ∀ n, r = some n → Aimed (toUint32 cmd.slotNum) n w') w := by
  refine wp_mono (wp_and (calmly (within_nodeGetByTable _) w) (nodeGetByTable_some _ w))
    fun r w' h => ⟨h.1, fun n hn => ?_⟩
  obtain ⟨rfl, hslot, t, ht, htn⟩ := h.2 n hn
  exact ⟨hslot, t, ht, htn⟩

theorem reconnectAfterUpdate_current {cmd : Cmd} {w : World ω} (ho : Ordered w) :
    wp (reconnectAfterUpdate H cmd none)
      (fun e w' => Current (toUint32 cmd.slotNum) w e w') w := by
  have hnone : ∀ {w : World ω} c, none = some c → w.Held c := fun c hc => by cases hc
  have hgive : ∀ {w' : World ω}, Ordered w' →
      (∃ new, w'.trace = w.trace ++ new ∧ ∀ e ∈ new, Honest e) →
      Current (toUint32 cmd.slotNum) w ⟨.done none, none⟩ w' :=
    fun ho' hh => ⟨ho', hh, fun c hc => hnone c hc, trivial⟩
  unfold reconnectAfterUpdate
  rw [wp_bind]
  refine wp_mono (redisClusterUpdateSlotmap_updates H w) fun r w₁ hu => ?_
  have ho₁ := ho.updates hu
  cases r with
  | err => exact hgive ho₁ (Updates.honest hu)
  | ok =>
    dsimp only
    rw [wp_bind]
    refine wp_mono (nodeGetByTable_aimed cmd w₁) fun r w₂ hr => ?_
    have ho₂ := ho₁.linking hr.1.toLinking
    have hh₂ : ∃ new, w₂.trace = w.trace ++ new ∧ ∀ e ∈ new, Honest e := by
      have hcur : Current (toUint32 cmd.slotNum) w₁ ⟨.done none, none⟩ w₂ :=
        ⟨ho₂, (hr.1.toLinking.stays ho₁.routed).honest, fun c hc => hnone c hc, trivial⟩
      exact (hcur.after (Updates.honest hu)).honest
    cases r with
    | none => exact hgive ho₂ hh₂
    | some n =>
      have ha := hr.2 n rfl
      exact wp_mono (connectOrFail_current H (Or.inl rfl) ho₂ (ha.known ho₂.routed) (Or.inr ha)
        fun c hc => hnone c hc) fun e w₃ hc => hc.after hh₂

theorem connectOrUpdate_current {cmd : Cmd} {n : NodeId} {w : World ω} (ho : Ordered w)
    (ha : Aimed (toUint32 cmd.slotNum) n w) :
    wp (connectOrUpdate H cmd n none)
      (fun e w' => Current (toUint32 cmd.slotNum) w e w') w := by
  have hn := ha.known ho.routed
  unfold connectOrUpdate
  rw [wp_bind]
  refine wp_mono (lookupNode_looked H ho hn) fun r w₁ hl => ?_
  have hre : wp (reconnectAfterUpdate H cmd none)
      (fun e w' => Current (toUint32 cmd.slotNum) w e w') w₁ :=
    wp_mono (reconnectAfterUpdate_current H hl.ordered) fun e w' hc => hc.after hl.stays.honest
  cases r with
  | none => exact hre
  | some c =>
    dsimp only
    rw [wp_bind, wp_get]
    split
    · exact hre
    · rename_i herr
      have herr : (w₁.conns c).err = none := Option.not_isSome_iff_eq_none.mp herr
      exact ⟨hl.ordered, hl.stays.honest, (fun c' hc' => by cases hc'), hl.held hn,
        hl.nowServed (Or.inr ha) herr⟩

/-- **Coming back to `retry` with a query deferred**: the slot is served, so the
loop goes straight on. -/
theorem execRetry_served {cmd : Cmd} {w : World ω} {u : Option ConnId} (ho : Ordered w)
    (hs : Served (toUint32 cmd.slotNum) w) (hu : ∀ c, u = some c → w.Held c) :
    wp (execRetry H cmd u) (fun e w' => Current (toUint32 cmd.slotNum) w e w') w := by
  obtain ⟨n, c, ha, hcon, herr⟩ := hs
  have hn := ha.known ho.routed
  have htable : wp (nodeGetByTable (toUint32 cmd.slotNum)) (fun r w' => r = some n ∧ w' = w) w := by
    obtain ⟨hslot, t, ht, htn⟩ := ha
    unfold nodeGetByTable
    rw [wp_bind, wp_get, if_neg (not_le.mpr hslot), ht]
    dsimp only
    rw [htn]
    exact ⟨rfl, rfl⟩
  have hctx : ∀ w₁ : World ω, w₁.heap = w.heap → w₁.conns = w.conns →
      (ctxGetByNode H n w₁).1 = some c ∧ (ctxGetByNode H n w₁).2 = w₁ := by
    intro w₁ hh hc
    show wp _ (fun r w' => r = some c ∧ w' = w₁) w₁
    unfold ctxGetByNode
    rw [wp_bind, wp_get, hh, hcon]
    dsimp only
    rw [hc, herr]
    exact ⟨rfl, rfl⟩
  unfold execRetry
  rw [wp_bind]
  refine wp_mono htable fun r w₁ hr => ?_
  obtain ⟨rfl, rfl⟩ := hr
  dsimp only
  unfold connectOrUpdate
  rw [wp_bind]
  refine wp_mono (wp_and (lookupNode_looked H ho hn)
    (show wp (lookupNode H n) (fun r w' => r = some c ∧ w'.conns = w₁.conns) w₁ from ?_))
    fun r w₂ hr => ?_
  · obtain ⟨h₁, h₂⟩ := hctx { w₁ with trace := w₁.trace ++ [.lookup n (decide (w₁.Known n))] }
      rfl rfl
    exact ⟨h₁, (congrArg World.conns h₂ :)⟩
  · obtain ⟨hl, rfl, hconns⟩ := hr
    dsimp only
    rw [wp_bind, wp_get, hconns, herr]
    exact ⟨hl.ordered, hl.stays.honest, fun c' hc' => hl.stays.held c' (hu c' hc'), hl.held hn,
      hl.nowServed (Or.inr ha) (by rw [hconns]; exact herr)⟩

theorem execRetry_current {cmd : Cmd} {w : World ω} (ho : Ordered w) :
    wp (execRetry H cmd none) (fun e w' => Current (toUint32 cmd.slotNum) w e w') w := by
  unfold execRetry
  rw [wp_bind]
  refine wp_mono (nodeGetByTable_aimed cmd w) fun r w₁ hr => ?_
  have ho₁ := ho.linking hr.1.toLinking
  have hs₁ := hr.1.toLinking.stays ho.routed
  cases r with
  | some n =>
    exact wp_mono (connectOrUpdate_current H ho₁ (hr.2 n rfl)) fun e w' hc => hc.after hs₁.honest
  | none =>
    dsimp only
    rw [wp_bind]
    refine wp_mono (redisClusterUpdateSlotmap_updates H w₁) fun r w₂ hu => ?_
    have ho₂ := ho₁.updates hu
    have hdone : ∀ {w' w'' : World ω}, Ordered w'' →
        (∃ new, w''.trace = w'.trace ++ new ∧ ∀ e ∈ new, Honest e) →
        Current (toUint32 cmd.slotNum) w' ⟨.done none, none⟩ w'' :=
      fun ho' hh => ⟨ho', hh, (fun c hc => by cases hc), trivial⟩
    have h₂ := (hdone ho₂ (Updates.honest hu)).after hs₁.honest
    cases r with
    | err => exact h₂
    | ok =>
      dsimp only
      rw [wp_bind]
      refine wp_mono (nodeGetByTable_aimed cmd w₂) fun r w₃ hr => ?_
      have ho₃ := ho₂.linking hr.1.toLinking
      have h₃ := (hdone ho₃ (hr.1.toLinking.stays ho₂.routed).honest).after h₂.honest
      cases r with
      | none => exact h₃
      | some n =>
        exact wp_mono (connectOrUpdate_current H ho₃ (hr.2 n rfl)) fun e w' hc =>
          hc.after h₃.honest

theorem stays_of_cc {w : World ω} (cc : Context) (hn : cc.nodes = w.cc.nodes) :
    Stays w { w with cc := cc } := by
  have hlist : World.nodeList { w with cc := cc } = w.nodeList := by simp only [World.nodeList, hn]
  refine ⟨fun n hk => ?_, fun c hc => ?_, [], (List.append_nil _).symm, by simp⟩
  · rw [World.Known, hlist]
    exact hk
  · rw [World.Held, hlist]
    exact hc

/-- The node a redirect leads to is known, and serves the slot or is about to. -/
theorem handleMoved_current {slot : ℕ} {w : World ω} (str : Bytes) (ho : Ordered w)
    (hserved : Served slot w) :
    wp (handleMoved str) (fun r w' => Ordered w' ∧ Stays w w' ∧
      ∀ n, r = some n → w'.Known n ∧ (Served slot w' ∨ Aimed slot n w')) w := by
  refine wp_mono (handleMoved_spec str w) fun r w' h => ?_
  split at h
  · obtain ⟨rfl, hc⟩ := h
    exact ⟨ho.linking hc.toLinking, hc.toLinking.stays ho.routed, fun n hn => by cases hn⟩
  · rename_i slotText endpoint _
    obtain ⟨n, d', w₁, rfl, hl, hd', hfind, rfl⟩ := h
    have ho₁ : Ordered w₁ := ho.learns hl
    have hn : w₁.Known n := (World.known_iff hd').mpr ⟨_, (d'.find_eq_some_iff _ n).mp hfind⟩
    have hp := storeSlot_pointed (hiAtoi slotText) n w₁
    have hserved₁ : Served slot w₁ := by
      refine hserved.of_table ho.routed hl.table (fun m hm c hc => ?_) fun m c _ herr => ?_
      · rw [hl.conEq m hm]
        exact hc
      · rw [hl.conns]
        exact herr
    refine ⟨⟨ho₁.routed.pointed hn hp, hp.advance.wired ho₁.wired⟩,
      (hl.stays ho.routed).trans hp.stays, fun m hm => ?_⟩
    obtain rfl := Option.some.inj hm
    refine ⟨hp.stays.known n hn, ?_⟩
    obtain ⟨n₀, c₀, ⟨hslot, t, ht, htn⟩, hcon, herr⟩ := hserved₁
    obtain ⟨t', hcc, ⟨hnone, -⟩ | ⟨t₀, t₁, ht₀, rfl, hor⟩⟩ := hp.cc
    · rw [ht] at hnone
      cases hnone
    · obtain rfl := Option.some.inj (ht.symm.trans ht₀)
      have htable : (storeSlot (hiAtoi slotText) n w₁).2.cc.table = some t₁ := by rw [hcc]
      rcases hor slot with hs | hs
      · refine Or.inl ⟨n₀, c₀, ⟨hslot, t₁, htable, hs.trans htn⟩, ?_, ?_⟩
        · rw [hp.heap]
          exact hcon
        · rw [hp.conns]
          exact herr
      · exact Or.inr ⟨hslot, t₁, htable, hs⟩

theorem handleAsk_current {slot : ℕ} {w : World ω} (str : Bytes) (ho : Ordered w)
    (hserved : Served slot w) :
    wp (handleAsk str) (fun r w' => Ordered w' ∧ Stays w w' ∧
      ∀ n, r = some n → w'.Known n ∧ Served slot w') w := by
  refine wp_mono (handleAsk_spec str w) fun r w' h => ?_
  split at h
  · obtain ⟨rfl, hc⟩ := h
    exact ⟨ho.linking hc.toLinking, hc.toLinking.stays ho.routed, fun n hn => by cases hn⟩
  · obtain ⟨n, d', rfl, hl, hd', hfind⟩ := h
    refine ⟨⟨ho.routed.learns hl, hl.wired ho.wired⟩, hl.stays ho.routed, fun m hm => ?_⟩
    obtain rfl := Option.some.inj hm
    refine ⟨(World.known_iff hd').mpr ⟨_, (d'.find_eq_some_iff _ n).mp hfind⟩, ?_⟩
    refine hserved.of_table ho.routed hl.table (fun m hm c hc => ?_) fun m c _ herr => ?_
    · rw [hl.conEq m hm]
      exact hc
    · rw [hl.conns]
      exact herr

theorem execRedirect_current {slot : ℕ} {c : ConnId} {u : Option ConnId} {w : World ω}
    (type : ErrorType) (str : Bytes) (ho : Ordered w) (hc : w.Held c) (hserved : Served slot w)
    (hu : ∀ c, u = some c → w.Held c) :
    wp (execRedirect c u type str) (fun e w' => Current slot w e w') w := by
  unfold execRedirect
  rw [wp_bind, wp_modifyCc, wp_bind, wp_get]
  have hs₁ := stays_of_cc (w := w) { w.cc with retryCount := w.cc.retryCount + 1 } rfl
  have ho₁ : Ordered { w with cc := { w.cc with retryCount := w.cc.retryCount + 1 } } :=
    ho.of_cc rfl rfl
  have hserved₁ : Served slot
      { w with cc := { w.cc with retryCount := w.cc.retryCount + 1 } } := hserved
  have hheld : ∀ {w' : World ω}, Stays w w' → ∀ c, u = some c → w'.Held c :=
    fun hs c hc => hs.held c (hu c hc)
  split
  · exact current_done (ho₁.of_cc rfl rfl) (hs₁.trans (stays_of_cc _ rfl)) hu
  · split
    · rw [wp_bind]
      refine wp_mono (handleMoved_current str ho₁ hserved₁) fun r w₂ hr => ?_
      have hs₂ := hs₁.trans hr.2.1
      cases r with
      | none => exact current_done hr.1 hs₂ hu
      | some n =>
        exact ⟨hr.1, hs₂.honest, hheld hs₂, hs₂.held c hc, (hr.2.2 n rfl).1, (hr.2.2 n rfl).2⟩
    · rw [wp_bind]
      refine wp_mono (handleAsk_current str ho₁ hserved₁) fun r w₂ hr => ?_
      have hs₂ := hs₁.trans hr.2.1
      cases r with
      | none => exact current_done hr.1 hs₂ hu
      | some n =>
        exact ⟨hr.1, hs₂.honest, hheld hs₂, (hr.2.2 n rfl).1, Or.inl (hr.2.2 n rfl).2⟩
    · exact ⟨ho₁, hs₁.honest, hheld hs₁, Or.inr hserved₁⟩

theorem execReply_current {slot : ℕ} {c : ConnId} {u : Option ConnId} {w : World ω} (a : Answer)
    (ho : Ordered w) (hc : w.Held c) (hserved : Served slot w) (hu : ∀ c, u = some c → w.Held c) :
    wp (execReply c u a) (fun e w' => Current slot w e w') w := by
  have hstays : Stays w w := ⟨fun _ h => h, fun _ h => h, [], (List.append_nil _).symm, by simp⟩
  unfold execReply
  split
  · exact current_done ho hstays hu
  · exact current_done ho hstays hu
  · exact execRedirect_current _ _ ho hc hserved hu

/-- A call on connection `c` that leaves it in order. -/
theorem Served.onlyAt {slot : ℕ} {c : ConnId} {w w' : World ω} (h : Served slot w) (hr : Routed w)
    (hl : Linking w w') (honly : OnlyAt c w w') (herr : (w'.conns c).err = none) :
    Served slot w' := by
  refine h.of_table hr hl.table hl.con fun n c' _ herr' => ?_
  rcases eq_or_ne c' c with rfl | hc
  · exact herr
  · rw [honly c' hc]
    exact herr'

theorem execSend_current {slot : ℕ} {cmd : Cmd} {c : ConnId} {u : Option ConnId} {w : World ω}
    (ho : Ordered w) (hc : w.Held c) (hserved : Served slot w) (hu : ∀ c, u = some c → w.Held c) :
    wp (execSend H cmd c u) (fun e w' => Current slot w e w') w := by
  unfold execSend
  rw [wp_bind]
  refine wp_mono (wp_and (redisAppendCommand_conns H c _ w)
    (calmly (within_redisAppendCommand H c _) w)) fun r w₁ h₁ => ?_
  obtain ⟨⟨honly₁, -, -⟩, hc₁⟩ := h₁
  cases r with
  | err =>
    have hl := (hc₁.trans (within_copyError c w₁)).toLinking
    exact current_done (ho.linking hl) (hl.stays ho.routed) hu
  | ok =>
    dsimp only
    rw [wp_bind]
    refine wp_mono (wp_and (pipelineUpdate_conns H c u w₁) (calmly (within_pipelineUpdate H c u) w₁))
      fun u' w₂ h₂ => ?_
    obtain ⟨⟨honly₂, -, hp⟩, hc₂⟩ := h₂
    have hu' : ∀ c', u' = some c' → w.Held c' := by
      intro c' hc'
      rcases hp with ⟨rfl, -⟩ | ⟨-, rfl, -⟩ | ⟨-, rfl, -⟩
      · exact hu c' hc'
      · obtain rfl := Option.some.inj hc'
        exact hc
      · cases hc'
    rw [wp_bind]
    refine wp_mono (wp_and (redisGetReply_conns H c _ w₂) (calmly (within_redisGetReply H c _) w₂))
      fun r w₃ h₃ => ?_
    obtain ⟨⟨honly₃, hr⟩, hc₃⟩ := h₃
    have hl := ((hc₁.trans hc₂).trans hc₃).toLinking
    have hs := hl.stays ho.routed
    have ho₃ := ho.linking hl
    cases r with
    | none =>
      unfold execReadFailed
      dsimp only
      rw [wp_bind]
      refine wp_mono (calmly (within_copyError c) w₃) fun _ w₄ hc₄ => ?_
      have ho₄ := ho₃.linking hc₄.toLinking
      have hs₄ := hs.trans (hc₄.toLinking.stays ho₃.routed)
      rw [wp_bind, wp_get]
      split
      · exact current_done ho₄ hs₄ hu'
      · exact current_done (ho₄.of_cc rfl rfl) (hs₄.trans (stays_of_cc _ rfl)) hu'
    | some a =>
      obtain ⟨herr₂, rest, -, hconn, -⟩ := hr
      have herr₃ : (w₃.conns c).err = none := by
        rw [hconn]
        exact herr₂
      have hserved₃ := hserved.onlyAt ho.routed hl ((honly₁.trans honly₂).trans honly₃) herr₃
      exact wp_mono (execReply_current a ho₃ (hs.held c hc) hserved₃
        fun c' hc' => hs.held c' (hu' c' hc')) fun e w' h => h.after hs.honest

/-- The update after a MOVED does not replace the node set: the topology query can
be sent to the node that redirected, or the update over a new connection fails. -/
def NotReplaced (s : Exec × World ω) : Prop :=
  match s.1.pc, s.1.cUpdatingRoute with
  | .moved _ c, none =>
    (clusterUpdateRouteSendCommand H c s.2).1 = .ok ∨
      (redisClusterUpdateSlotmap H (clusterUpdateRouteSendCommand H c s.2).2).1 = .err
  | _, _ => True

instance : (s : Exec × World ω) → Decidable (NotReplaced H s)
  | (⟨.moved _ c, none⟩, w) =>
    inferInstanceAs (Decidable ((clusterUpdateRouteSendCommand H c w).1 = .ok ∨
      (redisClusterUpdateSlotmap H (clusterUpdateRouteSendCommand H c w).2).1 = .err))
  | (⟨.moved _ _, some _⟩, _) => isTrue trivial
  | (⟨.retry, _⟩, _) => isTrue trivial
  | (⟨.send _, _⟩, _) => isTrue trivial
  | (⟨.follow _ _, _⟩, _) => isTrue trivial
  | (⟨.asking _, _⟩, _) => isTrue trivial
  | (⟨.done _, _⟩, _) => isTrue trivial
  | (⟨.ret _, _⟩, _) => isTrue trivial

theorem execMoved_current {slot : ℕ} {n : NodeId} {c : ConnId} {u : Option ConnId} {w : World ω}
    (hg : NotReplaced H (⟨.moved n c, u⟩, w)) (ho : Ordered w) (hc : w.Held c) (hn : w.Known n)
    (ha : Served slot w ∨ Aimed slot n w) (hu : ∀ c, u = some c → w.Held c) :
    wp (execMoved H n c u) (fun e w' => Current slot w e w') w := by
  unfold execMoved
  cases u with
  | some c' =>
    exact ⟨ho, ⟨[], (List.append_nil _).symm, by simp⟩, hu, hn, ha⟩
  | none =>
    dsimp only
    rw [wp_bind]
    refine wp_mono (wp_and (wp_and (clusterUpdateRouteSendCommand_conns H c w)
      (calmly (within_clusterUpdateRouteSendCommand H c) w))
      (show wp _ (fun r w₁ => r = .ok ∨ (redisClusterUpdateSlotmap H w₁).1 = .err) w from hg))
      fun r w₁ h₁ => ?_
    obtain ⟨⟨⟨honly, -, hr⟩, hc₁⟩, hg⟩ := h₁
    have hl := hc₁.toLinking
    have hs := hl.stays ho.routed
    cases r with
    | ok =>
      obtain ⟨herr, hconn⟩ := hr
      have herr₁ : (w₁.conns c).err = none := by
        rw [hconn]
        exact herr
      refine ⟨ho.linking hl, hs.honest, fun c' hc' => ?_, hs.known n hn, ?_⟩
      · obtain rfl := Option.some.inj hc'
        exact hs.held c hc
      · rcases ha with ha | ha
        · exact Or.inl (ha.onlyAt ho.routed hl honly herr₁)
        · exact Or.inr (ha.of_table hl.table)
    | err =>
      dsimp only
      rw [wp_bind]
      have hfail : (redisClusterUpdateSlotmap H w₁).1 = .err := by
        rcases hg with hg | hg
        · cases hg
        · exact hg
      refine wp_mono (wp_and (redisClusterUpdateSlotmap_updates H w₁)
        (show wp _ (fun r _ => r = .err) w₁ from hfail)) fun r w₂ hu₂ => ?_
      obtain ⟨hu₂, rfl⟩ := hu₂
      have hl₂ := hl.trans hu₂.toLinking
      exact current_done (ho.linking hl₂) (hl₂.stays ho.routed) hu

theorem execAsking_current {slot : ℕ} {c : ConnId} {u : Option ConnId} {w : World ω}
    (ho : Ordered w) (hc : w.Held c) (hserved : Served slot w) (hu : ∀ c, u = some c → w.Held c) :
    wp (execAsking H c u) (fun e w' => Current slot w e w') w := by
  unfold execAsking redisCommand
  rw [wp_bind, wp_bind]
  refine wp_mono (wp_and (redisAppendCommand_conns H c _ w)
    (calmly (within_redisAppendCommand H c _) w)) fun r w₁ h₁ => ?_
  obtain ⟨⟨honly₁, -, -⟩, hc₁⟩ := h₁
  have hfail : ∀ {w' : World ω}, Calm w w' →
      Current slot w ⟨.done none, u⟩ (copyError c w').2 := fun hc' =>
    current_done (ho.linking (hc'.trans (within_copyError c _)).toLinking)
      ((hc'.trans (within_copyError c _)).toLinking.stays ho.routed) hu
  cases r with
  | err => exact hfail hc₁
  | ok =>
    refine wp_mono (wp_and (redisGetReply_conns H c _ w₁) (calmly (within_redisGetReply H c _) w₁))
      fun r w₂ h₂ => ?_
    obtain ⟨⟨honly₂, hr⟩, hc₂⟩ := h₂
    have hl := (hc₁.trans hc₂).toLinking
    have hs := hl.stays ho.routed
    cases r with
    | none => exact hfail (hc₁.trans hc₂)
    | some a =>
      obtain ⟨herr, rest, -, hconn, -⟩ := hr
      have herr₂ : (w₂.conns c).err = none := by
        rw [hconn]
        exact herr
      exact ⟨ho.linking hl, hs.honest, fun c' hc' => hs.held c' (hu c' hc'), hs.held c hc,
        hserved.onlyAt ho.routed hl (honly₁.trans honly₂) herr₂⟩

theorem execDone_current {slot : ℕ} {r : Option Answer} {u : Option ConnId} {w : World ω}
    (ho : Ordered w) (hu : ∀ c, u = some c → w.Held c) :
    wp (execDone H r u) (fun e w' => Current slot w e w') w := by
  unfold execDone
  cases u with
  | none => exact ⟨ho, ⟨[], (List.append_nil _).symm, by simp⟩, trivial, trivial⟩
  | some c =>
    dsimp only
    rw [wp_bind, wp_get, wp_bind, wp_record, wp_bind]
    have ho₁ := ho.record (e := .deferred c (decide (w.Held c))) (by simp)
    have hh₁ : ∃ new, w.trace ++ [Event.deferred c (decide (w.Held c))] = w.trace ++ new ∧
        ∀ e ∈ new, Honest e :=
      ⟨_, rfl, by simpa [Honest] using hu c rfl⟩
    have hret : ∀ {w' w'' : World ω} (r' : Option Answer), Ordered w'' →
        (∃ new, w''.trace = w'.trace ++ new ∧ ∀ e ∈ new, Honest e) →
        Current slot w' ⟨.ret r', some c⟩ w'' := fun r' ho' hh => ⟨ho', hh, trivial, trivial⟩
    refine wp_mono (clusterUpdateRouteHandleReply_updates H c _) fun s w₂ hu₂ => ?_
    have ho₂ := ho₁.updates hu₂
    have h₂ : Current slot w ⟨.ret r, some c⟩ w₂ := (hret r ho₂ (Updates.honest hu₂)).after hh₁
    cases s with
    | ok => exact h₂
    | err =>
      dsimp only
      rw [wp_bind]
      refine wp_mono ((calm_setError none (.lit "")).wp w₂) fun _ w₃ hc₃ => ?_
      have ho₃ := ho₂.linking hc₃.toLinking
      have h₃ := (hret r ho₃ (hc₃.toLinking.stays ho₂.routed).honest).after h₂.honest
      rw [wp_bind]
      refine wp_mono (redisClusterUpdateSlotmap_updates H w₃) fun s w₄ hu₄ => ?_
      have h₄ := fun r' => (hret r' (ho₃.updates hu₄) (Updates.honest hu₄)).after h₃.honest
      cases s with
      | ok => exact h₄ r
      | err => exact h₄ none

theorem execStep_current {cmd : Cmd} {w₀ w : World ω} {e : Exec}
    (hg : NotReplaced H (e, w)) (h : Current (toUint32 cmd.slotNum) w₀ e w) :
    wp (execStep H cmd e) (fun e' w' => Current (toUint32 cmd.slotNum) w₀ e' w') w := by
  suffices hs : wp (execStep H cmd e) (fun e' w' => Current (toUint32 cmd.slotNum) w e' w') w from
    wp_mono hs fun e' w' h' => h'.after h.honest
  obtain ⟨ho, -, hd, hi⟩ := h
  obtain ⟨pc, u⟩ := e
  cases pc with
  | retry =>
    rcases hi with hnone | hserved
    · dsimp only at hnone
      subst hnone
      exact execRetry_current H ho
    · exact execRetry_served H ho hserved hd
  | send c => exact execSend_current H ho hi.1 hi.2 hd
  | moved n c => exact execMoved_current H hg ho hi.1 hi.2.1 hi.2.2 hd
  | follow n ask =>
    refine connectOrFail_current H ?_ ho hi.1 hi.2 hd
    cases ask with
    | true => exact Or.inr rfl
    | false => exact Or.inl rfl
  | asking c => exact execAsking_current H ho hi.1 hi.2 hd
  | done r => exact execDone_current H ho hd
  | ret r => exact ⟨ho, ⟨[], (List.append_nil _).symm, by simp⟩, trivial, trivial⟩

end Steps

/-! ## The whole run -/

/-- No stale node is used: each node the loop asks for is in the node set then,
and the deferred reply is collected from a connection of a node in the set. -/
def NoStaleNode (H : Hiredis ω) (cmd : Cmd) (w : World ω) : Prop :=
  wp (redisClusterCommandExecute H cmd) (fun _ w' => ∃ new, w'.trace = w.trace ++ new ∧
    (∀ n known, Event.lookup n known ∈ new → known = true) ∧
    ∀ c held, Event.deferred c held ∈ new → held = true) w

theorem noStaleNode_of_notReplaced (H : Hiredis ω) (cmd : Cmd) {w : World ω} (ho : Ordered w)
    (hg : ∀ k, NotReplaced H (execAt H cmd w k)) : NoStaleNode H cmd w := by
  have hstart : Current (toUint32 cmd.slotNum) w execStart w :=
    ⟨ho, ⟨[], (List.append_nil _).symm, by simp⟩, (fun c hc => by cases hc), Or.inl rfl⟩
  have hrun := Machine.iterate_guarded (f := execNext H cmd)
    (I := fun s => Current (toUint32 cmd.slotNum) w s.1 s.2) (G := NotReplaced H)
    (fun s hs hI => execStep_current H hs hI) hg hstart (execFuel w)
  obtain ⟨new, hnew, hev⟩ := hrun.honest
  exact ⟨new, hnew, fun n k he => hev _ he, fun c k he => hev _ he⟩
