/-
# Ending a pipeline

`redisClusterReset` is meant to leave every connection in step: either all that is
outstanding has been read, or the connection is closed.  If an error is set it
closes the connections of all nodes; otherwise it reads as many replies as the
requests stand for, which is enough if the account of the requests is sound
(`Accounted`).
-/
import HiredisCluster.Outstanding
import HiredisCluster.Reporting

open Program

variable {ω : Type}

section Calls

variable (H : Hiredis ω)

/-! ## Connections that owe a reply belong to nodes -/

/-- A usable connection that owes a reply belongs to a node. -/
def Attached (w : World ω) : Prop :=
  ∀ c, (w.conns c).err = none → (w.conns c).queue ≠ [] → w.Held c

theorem Attached.quiet {w w' : World ω} (h : Attached w) (hp : Pipelining w w') (ho : Ordered w)
    (hk : Quiet w w') : Attached w' := by
  intro c herr hq
  rcases hk c with hc | hc
  · rw [hc] at herr hq
    exact hp.held ho (h c herr hq)
  · exact absurd (hc herr) hq

theorem Attached.writes {w w' : World ω} (h : Attached w) (hp : Pipelining w w') (ho : Ordered w)
    {c : ConnId} {q : Sent} (hw : Writes c q w w') (hc : w'.Held c) : Attached w' := by
  obtain ⟨w₁, hk, -, honly, -⟩ := hw.conns
  intro c' herr hq
  rcases eq_or_ne c' c with rfl | hne
  · exact hc
  · rw [honly c' hne] at herr hq
    rcases hk c' with hc' | hc'
    · rw [hc'] at herr hq
      exact hp.held ho (h c' herr hq)
    · exact absurd (hc'.1 herr) hq

/-- Reading takes replies away. -/
def Shrinks (w w' : World ω) : Prop :=
  Reading w w' ∧ ∀ c, (w'.conns c).err = none → (w.conns c).err = none ∧
    ((w'.conns c).queue ≠ [] → (w.conns c).queue ≠ [])

instance : Std.Refl (@Shrinks ω) := ⟨fun w => ⟨Reading.refl w, fun _ h => ⟨h, id⟩⟩⟩

instance : IsTrans (World ω) Shrinks :=
  ⟨fun _ _ _ h h' => ⟨h.1.trans h'.1, fun c herr =>
    ⟨(h.2 c (h'.2 c herr).1).1, fun hq => (h.2 c (h'.2 c herr).1).2 ((h'.2 c herr).2 hq)⟩⟩⟩

theorem Attached.shrinks {w w' : World ω} (h : Attached w) (hs : Shrinks w w') : Attached w' := by
  intro c herr hq
  obtain ⟨herr', hq'⟩ := hs.2 c herr
  obtain ⟨n, hn, hcon⟩ := h c herr' (hq' hq)
  exact ⟨n, hs.1.pipelining.known.mpr hn, by rw [hs.1.heap]; exact hcon⟩

theorem Reading.shrinks {w w' : World ω} (h : Reading w w') (hc : w'.conns = w.conns) :
    Shrinks w w' :=
  ⟨h, fun c herr => by
    rw [hc] at herr ⊢
    exact ⟨herr, id⟩⟩

theorem Reads.shrinks {oc : Option ConnId} {q : Sent} {w w' : World ω} {r : Option Reply}
    (h : Reads oc q w r w') : Shrinks w w' := by
  obtain ⟨hr, h⟩ := h
  refine ⟨hr, fun c herr => ?_⟩
  cases r with
  | none =>
    rcases h.1 c with hc | hc
    · rw [hc] at herr ⊢
      exact ⟨herr, id⟩
    · exact absurd herr hc
  | some reply =>
    obtain ⟨c', a, rest, -, herr', hqueue, honly, -⟩ := h
    rcases eq_or_ne c c' with rfl | hne
    · exact ⟨herr', fun _ => by rw [hqueue]; exact List.cons_ne_nil _ _⟩
    · rw [honly c hne] at herr ⊢
      exact ⟨herr, id⟩

theorem shrinks_clusterGetReply (slot : ℤ) (q : Sent) : Within Shrinks (clusterGetReply H slot q) :=
  fun w => (clusterGetReply_reads H slot q w).shrinks

theorem shrinks_setError (type : Option Err) (str : ErrText) :
    Within Shrinks (setError type str : Prog ω Unit) :=
  fun w => (reading_setError type str w).shrinks rfl

theorem shrinks_getFragmentReplies (frags : List Cmd) :
    ∀ done, Within Shrinks (getFragmentReplies H done frags) := by
  induction frags with
  | nil => exact fun done => within_pure _
  | cons f fs ih =>
    intro done
    refine within_ite (within_bind (shrinks_setError _ _) fun _ => within_pure _) ?_
    refine within_bind (shrinks_clusterGetReply H _ _) fun r => ?_
    cases r with
    | none => exact within_pure _
    | some r => exact ih _

theorem shrinks_getRequestReply (r : Request) : Within Shrinks (getRequestReply H r) := by
  refine within_bind within_get fun w => within_ite (shrinks_clusterGetReply H _ _) ?_
  split
  · split
    · exact fun w => (clusterGetReplyFromNode_reads H _ _ w).shrinks
    · exact within_bind (shrinks_setError _ _) fun _ => within_pure _
  · split
    · exact within_bind (shrinks_setError _ _) fun _ => within_pure _
    · refine within_bind (shrinks_getFragmentReplies H _ _) fun rs => ?_
      cases rs with
      | none => exact within_pure _
      | some rs =>
        exact fun w => (reading_commandPostFragment _ _ _ w).shrinks (commandPostFragment_conns _ _ _ w)

/-- What every call of a pipeline keeps: routing, the connections that owe replies
being those of nodes, and an empty request list as long as there are no nodes. -/
structure Piped (w w' : World ω) : Prop where
  pipelining : Pipelining w w'
  attached : Attached w → Attached w'
  docket : w.cc.nodes = none → w.cc.requests.getD [] = [] → w'.cc.requests.getD [] = []

theorem Piped.trans {w w' w'' : World ω} (h : Piped w w') (h' : Piped w' w'') : Piped w w'' :=
  ⟨h.pipelining.trans h'.pipelining, fun ha => h'.attached (h.attached ha),
    fun hn hr => h'.docket (h.pipelining.nodes.trans hn) (h.docket hn hr)⟩

theorem Shrinks.piped {w w' : World ω} (h : Shrinks w w') : Piped w w' :=
  ⟨h.1.pipelining, fun ha => ha.shrinks h, fun _ hr => by rw [h.1.requests]; exact hr⟩

theorem Formats.piped {w w' : World ω} (h : Formats w w') (ho : Ordered w) : Piped w w' :=
  ⟨h.toPipelining, fun ha => ha.quiet h.toPipelining ho fun c => Or.inl (by rw [h.conns]),
    fun _ hr => h.requests.trans hr⟩

theorem piped_of_cc {w : World ω} {cc : Context} (hn : cc.nodes = w.cc.nodes)
    (ht : cc.table = w.cc.table) (ho : Ordered w)
    (hd : w.cc.nodes = none → w.cc.requests.getD [] = [] → cc.requests.getD [] = []) :
    Piped w { w with cc := cc } :=
  ⟨pipelining_of_cc hn ht, fun ha => ha.quiet (pipelining_of_cc hn ht) ho fun _ => Or.inl rfl, hd⟩

/-- What was written went to a node, if anything was. -/
theorem Linking.piped {w w' : World ω} (h : Linking w w')
    (ha : Attached w → Attached w') : Piped w w' :=
  ⟨h.pipelining, ha, fun _ hr => by rw [h.requests]; exact hr⟩

theorem World.Known.nodes {w : World ω} {n : NodeId} (h : w.Known n) : w.cc.nodes ≠ none := by
  intro hn
  rw [World.Known, World.nodeList, hn] at h
  cases h

/-- A request is added while there are nodes. -/
theorem piped_addRequest {w : World ω} {n : NodeId} (ho : Ordered w) (hn : w.Known n)
    (r : Request) : Piped w (addRequest r w).2 :=
  piped_of_cc rfl rfl ho fun h _ => absurd h hn.nodes

theorem clusterAppendCommand_piped {f : Cmd} {w : World ω} (ho : Ordered w) (hf : 0 ≤ f.slotNum) :
    wp (clusterAppendCommand H f) (fun s w' => Piped w w' ∧ (s = .ok → ∃ n, w'.Known n)) w := by
  refine wp_mono (clusterAppendCommand_spec H ho hf) fun s w' h => ?_
  obtain ⟨hl, h⟩ := h
  have hp := hl.pipelining
  cases s with
  | err => exact ⟨hl.piped fun ha => ha.quiet hp ho h, fun h => by cases h⟩
  | ok =>
    obtain ⟨c, hc, hw⟩ := h
    have hheld := held_of_slotConn (hp.ordered ho) hc
    refine ⟨hl.piped fun ha => ha.writes hp ho hw hheld, fun _ => ?_⟩
    obtain ⟨n, hn, -⟩ := hheld
    exact ⟨n, hn⟩

theorem appendFragments_piped {frags : List Cmd} (hf : ∀ f ∈ frags, 0 ≤ f.slotNum) :
    ∀ {w : World ω}, Ordered w → wp (appendFragments H frags) (fun s w' => Piped w w' ∧
      (s = .ok → frags ≠ [] → ∃ n, w'.Known n)) w := by
  induction frags with
  | nil => exact fun {w} _ => ⟨⟨Pipelining.refl w, id, fun _ h => h⟩, fun _ h => absurd rfl h⟩
  | cons f fs ih =>
    intro w ho
    unfold appendFragments
    rw [wp_bind]
    refine wp_mono (clusterAppendCommand_piped H ho (hf f List.mem_cons_self)) fun s w₁ h₁ => ?_
    obtain ⟨h₁, hn⟩ := h₁
    cases s with
    | err => exact ⟨h₁, fun h => by cases h⟩
    | ok =>
      refine wp_mono (ih (fun g hg => hf g (List.mem_cons_of_mem _ hg)) (h₁.pipelining.ordered ho))
        fun s w₂ h₂ => ⟨h₁.trans h₂.1, fun _ _ => ?_⟩
      obtain ⟨n, hn⟩ := hn rfl
      exact ⟨n, h₂.1.pipelining.known.mpr hn⟩

theorem appendFormatted_piped {r : Request} {w : World ω} (ho : Ordered w) (hr : r.Formatted) :
    wp (appendFormatted H r) (fun s w' => Piped w w' ∧ (s = .ok → ∃ n, w'.Known n)) w := by
  have hslots := hr.slots
  obtain ⟨-, hr⟩ := hr
  unfold appendFormatted
  cases hsub : r.subCommands with
  | none =>
    rw [hsub] at hslots
    exact clusterAppendCommand_piped H ho (hslots _ (List.mem_singleton.mpr rfl))
  | some frags =>
    rw [hsub] at hslots hr
    exact wp_mono (appendFragments_piped H hslots ho) fun s w' h => ⟨h.1, fun hs => h.2 hs hr.2.1⟩

theorem append_piped {cmd : Bytes} {w : World ω} (ho : Ordered w) :
    wp (redisClusterAppendFormattedCommand H cmd) (fun _ w' => Piped w w') w := by
  rw [redisClusterAppendFormattedCommand_eq, wp_bind]
  refine wp_mono (formatRequest_formatted cmd w) fun p w₁ h₁ => ?_
  obtain ⟨hf, -, hform⟩ := h₁
  obtain ⟨slotNum, command⟩ := p
  have h₁ := hf.piped ho
  have ho₁ := hf.ordered ho
  dsimp only
  split
  · exact h₁
  · rename_i hslot
    split
    · exact h₁.trans (piped_of_cc rfl rfl ho₁ fun _ h => h)
    · rw [wp_bind]
      refine wp_mono (appendFormatted_piped H ho₁ (hform (Int.not_lt.mp hslot))) fun s w₂ h₂ => ?_
      have h₁₂ := h₁.trans h₂.1
      cases s with
      | err => exact h₁₂
      | ok =>
        obtain ⟨n, hn⟩ := h₂.2 rfl
        exact h₁₂.trans (piped_addRequest (h₁₂.pipelining.ordered ho) hn command)

theorem appendToNode_piped {n : NodeId} {cmd : Bytes} {w : World ω} (ho : Ordered w)
    (hn : w.Known n) :
    wp (redisClustervAppendCommandToNode H n cmd) (fun _ w' => Piped w w') w := by
  refine wp_mono (appendToNode_spec H ho (ho.routed.lt n hn)) fun s w' h' => ?_
  obtain ⟨w₁, hf, -, h'⟩ := h'
  have h₁ := hf.piped ho
  have ho₁ := hf.ordered ho
  cases s with
  | err =>
    exact h₁.trans (h'.1.piped fun ha => ha.quiet h'.1.pipelining ho₁ h'.2)
  | ok =>
    obtain ⟨w₂, id, c, hl, hcon, hw, rfl⟩ := h'
    have hp := hl.pipelining
    have hn₂ : w₂.Known n := hp.known.mpr (hf.toPipelining.known.mpr hn)
    exact (h₁.trans (hl.piped fun ha => ha.writes hp ho₁ hw ⟨n, hn₂, hcon⟩)).trans
      (piped_addRequest (hp.ordered ho₁) hn₂ _)

theorem getReply_piped {w : World ω} (ho : Ordered w) :
    wp (redisClusterGetReply H) (fun _ w' => Piped w w') w := by
  unfold redisClusterGetReply
  rw [wp_bind]
  refine wp_mono (Within.wp (shrinks_setError none (.lit "")) w) fun _ w₁ h₁ => ?_
  rw [wp_bind, wp_get]
  split
  · exact h₁.piped
  · exact h₁.piped
  · rw [wp_bind]
    refine wp_mono (Within.wp (shrinks_getRequestReply H _) w₁) fun reply w₂ h₂ => ?_
    have h := h₁.piped.trans h₂.piped
    have hdrop : Piped w₂ (dropRequest w₂).2 := by
      refine piped_of_cc rfl rfl (h.pipelining.ordered ho) fun _ hr => ?_
      show (w₂.cc.requests.map List.tail).getD [] = []
      cases hreq : w₂.cc.requests with
      | none => rfl
      | some rs =>
        rw [hreq] at hr
        rw [show rs = [] from hr]
        rfl
    rw [wp_bind]
    refine wp_mono (show wp dropRequest (fun _ w₃ => Piped w w₃) w₂ from h.trans hdrop)
      fun _ w₃ h₃ => ?_
    cases reply with
    | none => exact h₃
    | some reply => exact h₃

/-- The nodes a call names are known. -/
def PipeOp.Known (w : World ω) : PipeOp → Prop
  | .appendToNode n _ => w.Known n
  | _ => True

theorem PipeOp.run_piped {op : PipeOp} {w : World ω} (ho : Ordered w) (hk : op.Known w) :
    wp (op.run H) (fun _ w' => Piped w w') w := by
  cases op with
  | append cmd => exact append_piped H ho
  | appendToNode n cmd => exact appendToNode_piped H ho hk
  | getReply => exact getReply_piped H ho

theorem PipeOp.run_accounted {op : PipeOp} {w : World ω} (h : Accounted w) (hk : op.Known w)
    (hs : abandons H w op = false) : wp (op.run H) (fun _ w' => Accounted w') w := by
  cases op with
  | append cmd => exact append_accounted H h hs
  | appendToNode n cmd => exact appendToNode_accounted H h hk hs
  | getReply => exact (getReply_accounted H h hs).1

/-! ## Reset -/

/-- What closing connections does to the ones in `cs`, and to all others. -/
structure Closes (cs : ConnId → Prop) (w w' : World ω) : Prop where
  closed : ∀ c, cs c → (w'.conns c).queue = []
  others : ∀ c, w'.conns c = w.conns c ∨ (w'.conns c).queue = []
  cc : w'.cc = w.cc

theorem closeNode_closes (n : NodeId) (w : World ω) :
    wp (closeNode n) (fun _ w' => Closes (fun c => (w.heap n).con = some c) w w' ∧
      ∀ m ≠ n, (w'.heap m).con = (w.heap m).con) w := by
  unfold closeNode
  rw [wp_bind, wp_get]
  have hheap : ∀ m ≠ n, (Function.update w.heap n { w.heap n with con := none } m).con =
      (w.heap m).con := fun m hm => by rw [Function.update_of_ne hm]
  cases hcon : (w.heap n).con with
  | none => exact ⟨⟨(fun c hc => by cases hc), fun c => Or.inl rfl, rfl⟩, hheap⟩
  | some c =>
    refine ⟨⟨fun c' hc => ?_, fun c' => ?_, rfl⟩, hheap⟩
    · obtain rfl := Option.some.inj hc
      show (Function.update w.conns c _ c).queue = []
      rw [Function.update_self]
    · show Function.update w.conns c _ c' = _ ∨ (Function.update w.conns c _ c').queue = []
      rcases eq_or_ne c' c with rfl | hne
      · rw [Function.update_self]
        exact Or.inr rfl
      · rw [Function.update_of_ne hne]
        exact Or.inl rfl

theorem closeNodes_closes (ns : List NodeId) : ∀ w : World ω,
    wp (forEach closeNode ns) (fun _ w' =>
      Closes (fun c => ∃ n ∈ ns, (w.heap n).con = some c) w w') w := by
  induction ns with
  | nil => exact fun w => ⟨(fun c hc => by simp at hc), fun c => Or.inl rfl, rfl⟩
  | cons n ns ih =>
    intro w
    unfold forEach
    rw [wp_bind]
    refine wp_mono (closeNode_closes n w) fun _ w₁ h₁ => ?_
    obtain ⟨h₁, hcon⟩ := h₁
    refine wp_mono (ih w₁) fun _ w₂ h₂ => ⟨fun c hc => ?_, fun c => ?_, h₂.cc.trans h₁.cc⟩
    · by_cases hn : (w.heap n).con = some c
      · rcases h₂.others c with h | h
        · rw [h]
          exact h₁.closed c hn
        · exact h
      · obtain ⟨m, hm, hmc⟩ := hc
        have hmn : m ≠ n := fun h => hn (h ▸ hmc)
        rcases List.mem_cons.mp hm with hm | hm
        · exact absurd hm hmn
        · exact h₂.closed c ⟨m, hm, (hcon m hmn).trans hmc⟩
    · rcases h₂.others c with h | h
      · rw [h]
        exact h₁.others c
      · exact Or.inr h

/-- **Closing all nodes leaves nothing unread.** -/
theorem clearAll_idle {w : World ω} (h : Attached w) :
    wp redisClusterClearAll (fun _ w' => ∀ c, Idle c w') w := by
  unfold redisClusterClearAll
  rw [wp_bind]
  refine wp_mono (P := fun _ w₁ => w₁.conns = w.conns ∧ w₁.heap = w.heap ∧
    w₁.cc.nodes = w.cc.nodes) ?_ fun _ w₁ h₁ => ?_
  · unfold resetError
    rw [wp_bind, wp_get]
    split
    · exact ⟨rfl, rfl, rfl⟩
    · exact ⟨rfl, rfl, rfl⟩
  · obtain ⟨hconns, hheap, hnodes⟩ := h₁
    have h₁ : ∀ c, (w₁.conns c).err = none → (w₁.conns c).queue ≠ [] → w.Held c := by
      rw [hconns]
      exact h
    rw [wp_bind, wp_get]
    split
    · rename_i hnone
      intro c herr
      by_contra hq
      obtain ⟨n, hn, -⟩ := h₁ c herr hq
      exact World.Known.nodes hn (hnodes.symm.trans hnone)
    · rename_i nodes hsome
      rw [wp_bind]
      refine wp_mono (closeNodes_closes nodes.vals w₁) fun _ w₂ h₂ => ?_
      intro c (herr : (w₂.conns c).err = none)
      show (w₂.conns c).queue = []
      rcases h₂.others c with hc | hc
      · by_contra hq
        rw [hc] at herr hq
        obtain ⟨n, hn, hcon⟩ := h₁ c herr hq
        rw [World.nodeList, ← hnodes, hsome] at hn
        exact hq (hc ▸ h₂.closed c ⟨n, hn, by rw [hheap]; exact hcon⟩)
      · exact hc

/-- Routing stays, and connections are left alone or idle. -/
def Flushes (w w' : World ω) : Prop := Linking w w' ∧ ∀ c, w'.conns c = w.conns c ∨ Idle c w'

instance : Std.Refl (@Flushes ω) := ⟨fun w => ⟨Linking.refl w, fun _ => Or.inl rfl⟩⟩

instance : IsTrans (World ω) Flushes := by
  refine ⟨fun w w' w'' h h' => ⟨h.1.trans h'.1, fun c => ?_⟩⟩
  rcases h'.2 c with hc | hc
  · rcases h.2 c with hc' | hc'
    · exact Or.inl (hc.trans hc')
    · exact Or.inr (hc'.of_conns hc)
  · exact Or.inr hc

theorem flushes_ctxGetByNode (n : NodeId) : Within Flushes (ctxGetByNode H n) :=
  fun w => ⟨(ctxGetByNode_links H n w).1.1, (settles_ctxGetByNode H n w).conns⟩

theorem flushes_redisBufferWrite (c : ConnId) : Within Flushes (redisBufferWrite H c) := by
  intro w
  show wp (redisBufferWrite H c) (fun _ w' => Flushes w w') w
  refine wp_mono (wp_and (redisBufferWrite_conns H c w) (calmly (within_redisBufferWrite H c) w))
    fun s w' h => ⟨h.2.toLinking, fun c' => ?_⟩
  obtain ⟨⟨honly, -, hs⟩, -⟩ := h
  rcases eq_or_ne c' c with rfl | hne
  · cases s with
    | ok => exact Or.inl hs.1
    | err => exact Or.inr fun herr => absurd herr hs
  · exact Or.inl (honly c' hne)

theorem flushes_sendAllFrom (ns : List NodeId) : Within Flushes (sendAllFrom H ns) := by
  induction ns with
  | nil => exact within_pure _
  | cons n ns ih =>
    refine within_bind (flushes_ctxGetByNode H n) fun c => ?_
    cases c with
    | none => exact ih
    | some c =>
      refine within_bind (flushes_redisBufferWrite H c) fun s => ?_
      cases s with
      | err => exact within_pure _
      | ok => exact ih

theorem flushes_redisClusterSendAll : Within Flushes (redisClusterSendAll H) := by
  refine within_bind within_get fun w => ?_
  split
  · exact within_pure _
  · exact flushes_sendAllFrom H _

theorem Accounted.flushes {w w' : World ω} (h : Accounted w) (hf : Flushes w w') : Accounted w' :=
  h.linking hf.1 (h.covered.settles hf.2)

theorem Attached.flushes {w w' : World ω} (h : Attached w) (ho : Ordered w) (hf : Flushes w w') :
    Attached w' := by
  intro c herr hq
  rcases hf.2 c with hc | hc
  · rw [hc] at herr hq
    exact hf.1.pipelining.held ho (h c herr hq)
  · exact absurd (hc herr) hq

/-- With no requests left, an account that covers all means that all is read. -/
theorem Accounted.idle {w : World ω} (h : Accounted w) (hreq : w.cc.requests.getD [] = [])
    (c : ConnId) : Idle c w := by
  intro herr
  have := h.covered c herr
  rw [World.due, hreq] at this
  exact List.length_eq_zero_iff.mp (Nat.le_zero.mp this)

/-- Fragments that are all read leave nothing to come. -/
theorem getFragmentReplies_whole (frags : List Cmd) : ∀ (done : List (Cmd × Option Reply))
    (w : World ω), wp (getFragmentReplies H done frags) (fun r _ => r ≠ none →
      stopsShort H w frags = false) w := by
  induction frags with
  | nil => exact fun done w _ => rfl
  | cons f fs ih =>
    intro done w
    unfold getFragmentReplies
    split
    · exact fun h => absurd rfl h
    · rw [wp_bind]
      have hdef : wp (clusterGetReply H f.slotNum (.command f.id f.cmd)) (fun r w₁ =>
          r ≠ none → stopsShort H w (f :: fs) = stopsShort H w₁ fs) w := by
        intro hne
        obtain ⟨reply, hreply⟩ := Option.ne_none_iff_exists'.mp hne
        rw [stopsShort, hreply]
      refine wp_mono hdef fun r w₁ hdef => ?_
      cases r with
      | none => exact fun h => absurd rfl h
      | some reply =>
        rw [hdef (Option.some_ne_none reply)]
        exact ih _ w₁

/-- A reply that was obtained leaves nothing behind. -/
theorem getReply_whole (w : World ω) :
    wp (redisClusterGetReply H) (fun p _ => p.1 = .ok → abandons H w .getReply = false) w := by
  unfold redisClusterGetReply
  rw [wp_bind]
  refine wp_mono (P := fun _ w₁ => w₁ = (clearError w).2) rfl fun _ w₁ h₁ => ?_
  have hreq : w₁.cc.requests = w.cc.requests := by rw [h₁]; rfl
  rw [wp_bind, wp_get]
  split
  · exact fun h => by cases h
  · rename_i hnil
    intro _
    simp only [abandons, ← hreq, hnil]
  · rename_i r rs hcons
    rw [wp_bind]
    have hr : wp (getRequestReply H r) (fun reply _ => reply ≠ none →
        abandons H w .getReply = false) w₁ := by
      have hab : abandons H w .getReply = (decide (r.slotNum < 0) && r.nodeAddr.isNone &&
          stopsShort H w₁ (r.subCommands.getD [])) := by
        simp only [abandons, ← hreq, hcons, ← h₁]
      rw [hab]
      unfold getRequestReply
      rw [wp_bind, wp_get]
      split
      · rename_i hslot
        rw [decide_eq_false (Int.not_lt.mpr hslot)]
        exact fun _ => rfl
      · split
        · rename_i addr haddr
          rw [haddr]
          exact fun _ => by rw [Option.isNone_some, Bool.and_false, Bool.false_and]
        · split
          · exact fun h => absurd rfl h
          · rename_i frags hsub
            rw [wp_bind, hsub]
            refine wp_mono (getFragmentReplies_whole H frags [] w₁) fun rs w₂ h₂ => ?_
            cases rs with
            | none => exact fun h => absurd rfl h
            | some rs =>
              intro _
              rw [Option.getD_some, h₂ (Option.some_ne_none rs), Bool.and_false]
    refine wp_mono hr fun reply w₂ h₂ => ?_
    rw [wp_bind]
    refine wp_mono (P := fun _ _ => True) trivial fun _ w₃ _ => ?_
    cases reply with
    | none => exact fun h => by cases h
    | some reply => exact fun _ => h₂ (Option.some_ne_none reply)

/-- **Draining leaves nothing unread**: all replies are read, or the connections are
closed. -/
theorem drainReplies_idle (fuel : ℕ) : ∀ {w : World ω}, Accounted w → Attached w →
    (w.cc.requests.getD []).length < fuel →
    wp (drainReplies H fuel) (fun _ w' => ∀ c, Idle c w') w := by
  induction fuel with
  | zero => exact fun _ _ h => absurd h (Nat.not_lt_zero _)
  | succ fuel ih =>
    intro w ha hat hlen
    unfold drainReplies
    rw [wp_bind]
    have hget : wp (redisClusterGetReply H) (fun p w' => p.1 = .ok → Accounted w' ∧
        w'.cc.requests.getD [] = (w.cc.requests.getD []).tail ∧
        (p = (.ok, none) → w'.cc.requests.getD [] = []) ∧
        (p.2 ≠ none → w.cc.requests.getD [] ≠ [])) w :=
      fun hok => getReply_accounted H ha (getReply_whole H w hok)
    refine wp_mono (wp_and hget (getReply_piped H ha.ordered)) fun p w₁ h₁ => ?_
    obtain ⟨h₁, hpiped⟩ := h₁
    obtain ⟨s, reply⟩ := p
    cases s with
    | err => exact clearAll_idle (hpiped.attached hat)
    | ok =>
      obtain ⟨ha₁, htail, hnone, hsome⟩ := h₁ rfl
      cases reply with
      | none => exact ha₁.idle (hnone rfl)
      | some reply =>
        refine ih ha₁ (hpiped.attached hat) ?_
        have hpos := List.length_pos_iff.mpr (hsome (Option.some_ne_none reply))
        rw [htail, List.length_tail]
        omega

/-- The update at the end leaves nothing unread. -/
theorem updateIfNeeded_idle {w : World ω} (h : ∀ c, Idle c w) :
    wp (updateIfNeeded H) (fun _ w' => ∀ c, Idle c w') w := by
  unfold updateIfNeeded
  rw [wp_bind, wp_get]
  split
  · rw [wp_bind]
    refine wp_mono (Within.wp (settles_redisClusterUpdateSlotmap H) w) fun s w₁ h₁ => ?_
    have h₁ : ∀ c, Idle c w₁ := fun c => h₁.idle (h c)
    cases s with
    | err => exact h₁
    | ok => exact h₁
  · exact h

theorem updateIfNeeded_requests (w : World ω) :
    wp (updateIfNeeded H) (fun _ w' => w'.cc.requests = w.cc.requests) w := by
  unfold updateIfNeeded
  rw [wp_bind, wp_get]
  split
  · rw [wp_bind]
    refine wp_mono (redisClusterUpdateSlotmap_updates H w) fun s w₁ h₁ => ?_
    have hreq : w₁.cc.requests = w.cc.requests :=
      show w₁.cc.settings.requests = w.cc.settings.requests by rw [h₁.advance.settings]
    cases s with
    | err => exact hreq
    | ok => exact hreq
  · rfl

/-- The client is in step: no request is listed, and no usable connection owes a
reply. -/
def InStep (w : World ω) : Prop := w.cc.requests.getD [] = [] ∧ ∀ c, Idle c w

/-- **Reset brings the client back in step**, if the requests account for what is owed,
or an error is set. -/
theorem redisClusterReset_inStep {w : World ω} (ho : Ordered w) (hat : Attached w)
    (hdocket : w.cc.nodes = none → w.cc.requests.getD [] = []) (h : Accounted w ∨ w.Failed) :
    wp (redisClusterReset H) (fun _ w' => InStep w') w := by
  unfold redisClusterReset
  rw [wp_bind, wp_get]
  split
  · rename_i hnone
    refine ⟨hdocket hnone, fun c herr => ?_⟩
    by_contra hq
    obtain ⟨n, hn, -⟩ := hat c herr hq
    exact World.Known.nodes hn hnone
  · have hrest : ∀ {w₁ : World ω}, (∀ c, Idle c w₁) → wp (do
        modifyCc fun cc => { cc with requests := none }
        updateIfNeeded H) (fun _ w' => InStep w') w₁ := by
      intro w₁ h₁
      rw [wp_bind, wp_modifyCc]
      refine wp_mono (wp_and (updateIfNeeded_idle H ?_) (updateIfNeeded_requests H _))
        fun _ w₂ h₂ => ⟨by rw [h₂.2]; rfl, h₂.1⟩
      exact h₁
    split
    · rw [wp_bind]
      exact wp_mono (clearAll_idle hat) fun _ w₁ h₁ => hrest h₁
    · rename_i herr
      have ha : Accounted w := h.resolve_right fun hf =>
        hf (Option.not_isSome_iff_eq_none.mp herr)
      rw [wp_bind]
      refine wp_mono (Within.wp (flushes_redisClusterSendAll H) w) fun _ w₁ h₁ => ?_
      rw [wp_bind]
      refine wp_mono (drainReplies_idle H _ (ha.flushes h₁) (hat.flushes ho h₁) ?_)
        fun _ w₂ h₂ => hrest h₂
      rw [h₁.1.requests]
      exact Nat.lt_succ_self _

/-! ## Whole pipelines -/

/-- The state after a sequence of calls. -/
def pipeline : List PipeOp → World ω → World ω
  | [], w => w
  | op :: ops, w => pipeline ops (op.run H w).2

/-- No call of the pipeline leaves a reply behind. -/
def tidy : List PipeOp → World ω → Bool
  | [], _ => true
  | op :: ops, w => !abandons H w op && tidy ops (op.run H w).2

theorem PipeOp.Known.piped {op : PipeOp} {w w' : World ω} (h : op.Known w) (hp : Piped w w') :
    op.Known w' := by
  cases op with
  | appendToNode n cmd => exact hp.pipelining.known.mpr h
  | _ => exact trivial

theorem pipeline_piped {ops : List PipeOp} : ∀ {w : World ω}, Ordered w →
    (∀ op ∈ ops, op.Known w) → Piped w (pipeline H ops w) := by
  induction ops with
  | nil => exact fun {w} _ _ => ⟨Pipelining.refl w, id, fun _ h => h⟩
  | cons op ops ih =>
    intro w ho hk
    obtain ⟨hop, hops⟩ := List.forall_mem_cons.mp hk
    have hp : Piped w (op.run H w).2 := PipeOp.run_piped H ho hop
    exact hp.trans (ih (hp.pipelining.ordered ho) fun op' hop' => (hops op' hop').piped hp)

theorem pipeline_accounted {ops : List PipeOp} : ∀ {w : World ω}, Accounted w →
    (∀ op ∈ ops, op.Known w) → tidy H ops w = true → Accounted (pipeline H ops w) := by
  induction ops with
  | nil => exact fun h _ _ => h
  | cons op ops ih =>
    intro w h hk ht
    obtain ⟨hop, hops⟩ := List.forall_mem_cons.mp hk
    obtain ⟨ht, hts⟩ := Bool.and_eq_true_iff.mp ht
    have hp : Piped w (op.run H w).2 := PipeOp.run_piped H h.ordered hop
    exact ih (PipeOp.run_accounted H h hop (by simpa using ht))
      (fun op' hop' => (hops op' hop').piped hp) hts

theorem InStep.accounted {w : World ω} (h : InStep w) (ho : Ordered w) : Accounted w := by
  refine ⟨ho, fun c herr => ?_, ?_⟩
  · rw [h.2 c herr]
    exact Nat.zero_le _
  · rw [h.1]
    exact fun r hr => by cases hr

/-- From a client in step, a pipeline followed by a reset leads to a client in step, if
no call has left a reply behind or an error is set when the reset is called. -/
theorem inStep_of_tidy {ops : List PipeOp} {w : World ω} (ho : Ordered w) (hs : InStep w)
    (hk : ∀ op ∈ ops, op.Known w)
    (ht : tidy H ops w = true ∨ (pipeline H ops w).Failed) :
    InStep (redisClusterReset H (pipeline H ops w)).2 := by
  have hp := pipeline_piped H ho hk
  refine redisClusterReset_inStep H (hp.pipelining.ordered ho) (hp.attached fun c herr hq => ?_)
    (fun hn => hp.docket (hp.pipelining.nodes.symm.trans hn) hs.1)
    (ht.imp_left (pipeline_accounted H (hs.accounted ho) hk))
  exact absurd (hs.2 c herr) hq

end Calls
