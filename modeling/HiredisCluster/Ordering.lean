/-
# Pipelined replies come back in order

The requests are one list, while the replies arrive on the connections of many
nodes.  As long as no connection fails, each connection owes exactly what is due on
it, in the order of the requests (`Tracked`); so the replies read for the oldest
request are the answers to its own transmissions.
-/
import HiredisCluster.Splitting
import HiredisCluster.Draining

open Program

variable {ω : Type}

/-! ## Connections that owe what is due -/

/-- No connection of a node is in error. -/
def Sane (w : World ω) : Prop := ∀ c, w.Held c → (w.conns c).err = none

/-- Each usable connection owes what is due on it, in order, and all that is due has a
connection. -/
structure Tracked (l : List Due) (w : World ω) : Prop where
  queue : ∀ c, (w.conns c).err = none → (w.conns c).queue = dueAt c l
  placed : ∀ p ∈ l, ∃ c, p.1 = some c ∧ w.Held c

theorem dueAt_eq_nil {c : ConnId} {l : List Due} (h : ∀ p ∈ l, p.1 ≠ some c) : dueAt c l = [] :=
  List.filterMap_eq_nil_iff.mpr fun p hp => if_neg (h p hp)

/-- Where all that is due has a connection, it stays there. -/
theorem Tracked.firmer {l l' : List Due} {w : World ω} (h : Tracked l w)
    (hf : List.Forall₂ Firmer l l') : l' = l := by
  have hplaced : ∀ p ∈ l, ∃ c, p.1 = some c := fun p hp => (h.placed p hp).imp fun _ h => h.1
  clear h
  induction hf with
  | nil => rfl
  | @cons p p' l l' hp _ ih =>
    obtain ⟨hp₁, hp₂⟩ := List.forall_mem_cons.mp hplaced
    obtain ⟨c, hc⟩ := hp₁
    rw [ih hp₂, show p' = p from Prod.ext ((hp.2 c hc).trans hc.symm) hp.1]

theorem Sane.kept {w w' : World ω} (ho : Ordered w) (hs : Sane w) {c : ConnId} (hc : w.Held c)
    (hk : Kept w w' c) : w'.conns c = w.conns c := by
  rcases hk with hk | ⟨-, hk | hk⟩
  · exact hk
  · exact absurd (hs c hc) hk
  · obtain ⟨n, -, hcon⟩ := hc
    exact absurd (ho.wired.lt n c hcon) (not_lt.mpr hk)

/-- A connection that has just been written to is in no error. -/
theorem Sane.writes {w w' : World ω} {c : ConnId} {q : Sent} (ho : Ordered w) (hs : Sane w)
    (hw : Writes c q w w') : Sane w' := by
  obtain ⟨w₁, hk, herr₁, honly, hconn⟩ := hw.conns
  intro c' hc'
  rcases eq_or_ne c' c with rfl | hne
  · rw [hconn]
    exact herr₁
  · have hheld := (hw.held c' hc').resolve_right hne
    rw [honly c' hne, Sane.kept ho hs hheld (hk c')]
    exact hs c' hheld

/-- Connections with something due have not changed, and others are left alone or
idle. -/
theorem Tracked.unchanged {l : List Due} {w w' : World ω} (h : Tracked l w) (ho : Ordered w)
    (hs : Sane w) (hk : ∀ c, Kept w w' c) (c : ConnId) (herr : (w'.conns c).err = none) :
    (w'.conns c).queue = dueAt c l := by
  by_cases hc : ∃ p ∈ l, p.1 = some c
  · obtain ⟨p, hp', hpc⟩ := hc
    obtain ⟨c', hc', hheld⟩ := h.placed p hp'
    obtain rfl := Option.some.inj (hc'.symm.trans hpc)
    rw [Sane.kept ho hs hheld (hk c')] at herr ⊢
    exact h.queue c' herr
  · rcases hk c with h' | ⟨hidle, -⟩
    · rw [h'] at herr ⊢
      exact h.queue c herr
    · rw [dueAt_eq_nil fun p hp' hpc => hc ⟨p, hp', hpc⟩]
      exact hidle herr

theorem Tracked.writes {l : List Due} {w w' : World ω} {c : ConnId} {q : Sent} (h : Tracked l w)
    (hp : Pipelining w w') (ho : Ordered w) (hs : Sane w) (hw : Writes c q w w')
    (hc : w'.Held c) : Tracked (l ++ [(some c, q)]) w' := by
  obtain ⟨w₁, hk, herr₁, honly, hconn⟩ := hw.conns
  have hqueue := h.unchanged ho hs hk
  refine ⟨fun c' herr => ?_, fun p hp' => ?_⟩
  · rcases eq_or_ne c' c with rfl | hne
    · rw [hconn, dueAt_append, dueAt_cons_self]
      show (w₁.conns c').queue ++ [q] = _
      rw [hqueue c' herr₁]
      rfl
    · rw [honly c' hne] at herr ⊢
      rw [dueAt_append, dueAt_cons_of_ne (Ne.symm (by simpa using hne)), dueAt_nil, List.append_nil]
      exact hqueue c' herr
  · rcases List.mem_append.mp hp' with hp' | hp'
    · obtain ⟨c', hpc, hheld⟩ := h.placed p hp'
      exact ⟨c', hpc, hp.held ho hheld⟩
    · obtain rfl := List.mem_singleton.mp hp'
      exact ⟨c, rfl, hc⟩

/-- Nothing can be read from where a reply is due only if the connection has failed. -/
theorem Tracked.unread {oc : Option ConnId} {q : Sent} {l : List Due} {w w' : World ω}
    (h : Tracked ((oc, q) :: l) w) (hr : Reads oc q w none w') (ho : Ordered w) : ¬ Sane w' := by
  obtain ⟨hread, -, hfail, -⟩ := hr
  obtain ⟨⟨c, hc, hheld⟩, -⟩ := List.forall_mem_cons.mp h.placed
  exact fun hs => hfail c hc (hs c (hread.pipelining.held ho hheld))

/-- A reply that is read from where it is due answers what it is due for. -/
theorem Tracked.reads {oc : Option ConnId} {q : Sent} {l : List Due} {w w' : World ω}
    {reply : Reply} (h : Tracked ((oc, q) :: l) w) (hr : Reads oc q w (some reply) w')
    (ho : Ordered w) : Tracked l w' ∧ ∃ c, w'.trace = w.trace ++ [.read c q q reply] := by
  obtain ⟨hread, c, a, rest, hoc, herr, hqueue, honly, hconn, htrace⟩ := hr
  have hhead : a :: rest = q :: dueAt c l := by
    rw [← hqueue, h.queue c herr, hoc, dueAt_cons_self]
  obtain ⟨rfl, hrest⟩ := List.cons_eq_cons.mp hhead
  refine ⟨⟨fun c' herr' => ?_, fun p hp => ?_⟩, c, htrace⟩
  · rcases eq_or_ne c' c with rfl | hne
    · rw [hconn]
      exact hrest
    · rw [honly c' hne] at herr' ⊢
      rw [h.queue c' herr',
        dueAt_cons_of_ne (by rw [hoc]; exact fun h => hne (Option.some.inj h).symm)]
  · exact ((List.forall_mem_cons.mp h.placed).2 p hp).imp fun _ h =>
      ⟨h.1, hread.pipelining.held ho h.2⟩

/-! ## Requests and their answers -/

/-- What is sent for a request: its own bytes, or those of its fragments. -/
def Request.transmissions (r : Request) : List Sent :=
  (r.subCommands.getD [r.toCmd]).map fun f => .command f.id f.cmd

/-- The replies read, with what they answer. -/
def answersIn (events : List Event) : List (Sent × Reply) :=
  events.filterMap fun
    | .read _ _ answered reply => some (answered, reply)
    | _ => none

@[simp] theorem answersIn_append (es es' : List Event) :
    answersIn (es ++ es') = answersIn es ++ answersIn es' :=
  List.filterMap_append

/-- Each fragment is answered with an error or with the reply type and length its
command has. -/
def Request.WellAnswered (r : Request) (replies : List Reply) : Prop :=
  ∀ frags, r.subCommands = some frags → List.Forall₂ (WellTyped r.type) frags replies

/-- What the replies to the transmissions of a request come to. -/
def Request.Answered (r : Request) (replies : List Reply) (x : Reply) : Prop :=
  match r.subCommands with
  | none => replies = [x]
  | some frags => Merged r.type r.fragSeq frags replies x

/-- A request of the list: a formatted command, or one for a node. -/
def Request.Listed (r : Request) : Prop :=
  (r.Formatted ∧ ∀ frags, r.subCommands = some frags → r.Fragmented frags) ∨
    r.slotNum < 0 ∧ r.nodeAddr.isSome ∧ r.subCommands = none

section Calls

variable (H : Hiredis ω)

/-! ## Reading a request -/

theorem getFragmentReplies_tracked {frags : List Cmd} (hf : ∀ f ∈ frags, 0 ≤ f.slotNum) :
    ∀ {w : World ω} {l : List Due} {done : List (Cmd × Option Reply)}, Ordered w →
      Tracked (w.dueFragments frags ++ l) w →
      wp (getFragmentReplies H done frags) (fun rs w' => Reading w w' ∧ (Sane w' →
        Tracked l w' ∧ ∃ replies events, rs = some (done ++ frags.zip (replies.map some)) ∧
          w'.trace = w.trace ++ events ∧ frags.length = replies.length ∧
          answersIn events = (frags.map fun f => Sent.command f.id f.cmd).zip replies)) w := by
  induction frags with
  | nil =>
    intro w l done _ htr
    exact ⟨Reading.refl w, fun _ => ⟨htr, [], [], by rw [List.zip_nil_left, List.append_nil]; rfl,
      (List.append_nil _).symm, rfl, rfl⟩⟩
  | cons f fs ih =>
    intro w l done ho htr
    unfold getFragmentReplies
    rw [if_neg (Int.not_lt.mpr (hf f List.mem_cons_self)), wp_bind]
    refine wp_mono (clusterGetReply_reads H f.slotNum (.command f.id f.cmd) w) fun r w₁ hr => ?_
    cases r with
    | none => exact ⟨hr.1, fun hs => absurd hs (htr.unread hr ho)⟩
    | some reply =>
      have htr' : Tracked ((w.slotConn f.slotNum, .command f.id f.cmd) ::
          (w.dueFragments fs ++ l)) w := htr
      obtain ⟨htr₁, c, htrace⟩ := htr'.reads hr ho
      have ho₁ := hr.1.ordered ho
      rw [← hr.1.dueFragments] at htr₁
      refine wp_mono (ih (fun g hg => hf g (List.mem_cons_of_mem _ hg)) ho₁ htr₁)
        fun rs w₂ h₂ => ⟨hr.1.trans h₂.1, fun hs => ?_⟩
      obtain ⟨htr₂, replies, events, hrs, htrace₂, hlen, hans⟩ := h₂.2 hs
      refine ⟨htr₂, reply :: replies, .read c (.command f.id f.cmd) (.command f.id f.cmd) reply ::
        events, ?_, ?_, ?_, ?_⟩
      · rw [hrs, List.append_assoc]
        rfl
      · rw [htrace₂, htrace, List.append_assoc]
        rfl
      · rw [List.length_cons, List.length_cons, hlen]
      · rw [List.map_cons, List.zip_cons_cons, ← hans]
        rfl

/-- What reading the replies to a request comes to if no connection fails: the replies
are the answers to its transmissions, and the result is what they come to. -/
def Serves (r : Request) (x : Option Reply) (w w' : World ω) : Prop :=
  ∃ events, w'.trace = w.trace ++ events ∧
    (answersIn events).map Prod.fst = r.transmissions ∧
    (r.WellAnswered ((answersIn events).map Prod.snd) →
      ∃ y, x = some y ∧ r.Answered ((answersIn events).map Prod.snd) y)

theorem serves_one {r : Request} {c : ConnId} {reply : Reply} {w w' : World ω}
    (hsub : r.subCommands = none)
    (htrace : w'.trace = w.trace ++
      [.read c (.command r.id r.cmd) (.command r.id r.cmd) reply]) :
    Serves r (some reply) w w' := by
  refine ⟨_, htrace, ?_, fun _ => ⟨reply, rfl, ?_⟩⟩
  · rw [Request.transmissions, hsub]
    rfl
  · rw [Request.Answered, hsub]
    rfl

theorem commandPostFragment_trace (type : CmdType) (fragSeq : List ℤ)
    (frags : List (Cmd × Option Reply)) (w : World ω) :
    (commandPostFragment type fragSeq frags w).2.trace = w.trace := by
  show wp (commandPostFragment type fragSeq frags) (fun _ w' => w'.trace = w.trace) w
  unfold commandPostFragment
  split
  · rfl
  · rfl
  · rfl

theorem serves_fragments {r : Request} {frags : List Cmd} {replies : List Reply}
    {events : List Event} {w w₁ : World ω} (hsub : r.subCommands = some frags)
    (hr : r.Fragmented frags) (htrace : w₁.trace = w.trace ++ events)
    (hlen : frags.length = replies.length)
    (hans : answersIn events = (frags.map fun f => Sent.command f.id f.cmd).zip replies) :
    wp (commandPostFragment r.type r.fragSeq (frags.zip (replies.map some)))
      (fun x w' => Serves r x w w') w₁ := by
  have hfst : (answersIn events).map Prod.fst = r.transmissions := by
    rw [hans, List.map_fst_zip (by simp [hlen]), Request.transmissions, hsub]
    rfl
  have hsnd : (answersIn events).map Prod.snd = replies := by
    rw [hans, List.map_snd_zip (by simp [hlen])]
  refine ⟨events, (commandPostFragment_trace _ _ _ w₁).trans htrace, hfst, fun hw => ?_⟩
  rw [hsnd] at hw ⊢
  obtain ⟨x, hx, hmerged⟩ := mergeReplies_merged hr.splittable hr.split (hw frags hsub)
  refine ⟨x, ?_, ?_⟩
  · show (commandPostFragment r.type r.fragSeq (frags.zip (replies.map some)) w₁).1 = some x
    rw [commandPostFragment, hr.fragSeq, hx]
    rfl
  · rw [Request.Answered, hsub, hr.fragSeq]
    exact hmerged

theorem Tracked.conns_eq {l : List Due} {w w' : World ω} (h : Tracked l w) (hr : Reading w w')
    (ho : Ordered w) (hc : w'.conns = w.conns) : Tracked l w' := by
  refine ⟨fun c herr => ?_, fun p hp => ?_⟩
  · rw [hc] at herr ⊢
    exact h.queue c herr
  · exact (h.placed p hp).imp fun _ h => ⟨h.1, hr.pipelining.held ho h.2⟩

/-- Reading the reply to a command that was not split. -/
theorem Tracked.serves {r : Request} {oc : Option ConnId} {l : List Due} {w w' : World ω}
    {x : Option Reply} (h : Tracked ((oc, .command r.id r.cmd) :: l) w)
    (hr : Reads oc (.command r.id r.cmd) w x w') (ho : Ordered w) (hsub : r.subCommands = none)
    (hs : Sane w') : Tracked l w' ∧ Serves r x w w' := by
  cases x with
  | none => exact absurd hs (h.unread hr ho)
  | some reply =>
    obtain ⟨htr, c, htrace⟩ := h.reads hr ho
    exact ⟨htr, serves_one hsub htrace⟩

theorem getRequestReply_tracked {r : Request} {w : World ω} {l : List Due} (hr : r.Listed)
    (ho : Ordered w) (htr : Tracked (w.dueOf r ++ l) w) :
    wp (getRequestReply H r) (fun x w' => Reading w w' ∧ (Sane w' → Tracked l w' ∧ Serves r x w w'))
      w := by
  unfold World.dueOf at htr
  unfold getRequestReply
  rw [wp_bind, wp_get]
  rcases hr with ⟨⟨haddr, hform⟩, hfrag⟩ | ⟨hslot, haddr, hsub⟩
  · cases hsub : r.subCommands with
    | none =>
      rw [hsub] at hform
      rw [if_pos hform] at htr ⊢
      exact wp_mono (clusterGetReply_reads H r.slotNum _ w) fun x w' h =>
        ⟨h.1, fun hs => Tracked.serves htr h ho hsub hs⟩
    | some frags =>
      rw [hsub] at hform htr
      rw [if_neg (Int.not_le.mpr hform.1), haddr] at htr ⊢
      dsimp only
      rw [wp_bind]
      refine wp_mono (getFragmentReplies_tracked H hform.2.2 ho htr) fun rs w₁ h₁ => ?_
      obtain ⟨hread, h₁⟩ := h₁
      cases rs with
      | none =>
        refine ⟨hread, fun hs => ?_⟩
        obtain ⟨-, replies, events, hrs, -⟩ := h₁ hs
        cases hrs
      | some rs =>
        have hconns := commandPostFragment_conns r.type r.fragSeq rs w₁
        have hpost := reading_commandPostFragment r.type r.fragSeq rs w₁
        refine ⟨hread.trans hpost, fun hs => ?_⟩
        have hs₁ : Sane w₁ := fun c hc =>
          (congrFun hconns c) ▸ hs c (hpost.pipelining.held (hread.ordered ho) hc)
        obtain ⟨htr₁, replies, events, hrs, htrace, hlen, hans⟩ := h₁ hs₁
        obtain rfl := Option.some.inj hrs
        exact ⟨htr₁.conns_eq hpost (hread.ordered ho) hconns,
          serves_fragments hsub (hfrag frags hsub) htrace hlen hans⟩
  · rw [if_neg (Int.not_le.mpr hslot)] at htr ⊢
    obtain ⟨addr, haddr⟩ := Option.isSome_iff_exists.mp haddr
    rw [haddr] at htr ⊢
    dsimp only at htr ⊢
    obtain ⟨c, hc, -⟩ := htr.placed _ List.mem_cons_self
    obtain ⟨n, hn, hcon⟩ := Option.bind_eq_some_iff.mp (show w.addrConn addr = some c from hc)
    have hconn : w.addrConn addr = (w.heap n).con := by rw [World.addrConn, hn, Option.bind_some]
    rw [hconn] at htr
    rw [hn]
    exact wp_mono (clusterGetReplyFromNode_reads H n _ w) fun x w' h =>
      ⟨h.1, fun hs => Tracked.serves htr h ho hsub hs⟩

/-! ## Appending a request -/

theorem appendFragments_tracked {frags : List Cmd} (hf : ∀ f ∈ frags, 0 ≤ f.slotNum) :
    ∀ {w : World ω} {l : List Due}, Ordered w → Sane w → Tracked l w →
      wp (appendFragments H frags) (fun r w' => r = .ok →
        Sane w' ∧ Tracked (l ++ w'.dueFragments frags) w') w := by
  induction frags with
  | nil =>
    intro w l _ hs htr _
    rw [World.dueFragments, List.map_nil, List.append_nil]
    exact ⟨hs, htr⟩
  | cons f fs ih =>
    intro w l ho hs htr
    have hfs : ∀ g ∈ fs, 0 ≤ g.slotNum := fun g hg => hf g (List.mem_cons_of_mem _ hg)
    unfold appendFragments
    rw [wp_bind]
    refine wp_mono (clusterAppendCommand_spec H ho (hf f List.mem_cons_self)) fun r w₁ h₁ => ?_
    cases r with
    | err => exact fun h => by cases h
    | ok =>
      obtain ⟨hl₁, c, hc, hw⟩ := h₁
      have ho₁ := ho.linking hl₁
      have htr₁ := htr.writes hl₁.pipelining ho hs hw (held_of_slotConn ho₁ hc)
      refine wp_mono (wp_and (ih hfs ho₁ (hs.writes ho hw) htr₁) (linking_appendFragments H hfs ho₁))
        fun r w₂ h₂ hr => ?_
      obtain ⟨h₂, hl₂⟩ := h₂
      have h₂ := h₂ hr
      rw [List.append_assoc] at h₂
      have hslot : w₂.slotConn f.slotNum = some c := hl₂.pipelining.slotConn ho₁ hc
      rw [World.dueFragments, List.map_cons, hslot]
      exact h₂

theorem appendFormatted_tracked {r : Request} {w : World ω} {l : List Due} (ho : Ordered w)
    (hs : Sane w) (htr : Tracked l w) (hr : r.Formatted) :
    wp (appendFormatted H r) (fun s w' => Linking w w' ∧ (s = .ok →
      Sane w' ∧ Tracked (l ++ w'.dueOf r) w')) w := by
  unfold appendFormatted
  have hslots := hr.slots
  cases hsub : r.subCommands with
  | none =>
    rw [hsub] at hslots
    dsimp only
    refine wp_mono (clusterAppendCommand_spec H ho (hslots r.toCmd (List.mem_singleton.mpr rfl)))
      fun s w' h => ⟨h.1, fun hok => ?_⟩
    subst hok
    obtain ⟨hl, c, hc, hw⟩ := h
    rw [hr.dueOf, hsub, World.dueFragments, Option.getD_none, List.map_singleton, hc]
    exact ⟨hs.writes ho hw,
      htr.writes hl.pipelining ho hs hw (held_of_slotConn (ho.linking hl) hc)⟩
  | some frags =>
    rw [hsub] at hslots
    dsimp only
    refine wp_mono (wp_and (linking_appendFragments H hslots ho)
      (appendFragments_tracked H hslots ho hs htr)) fun s w' h => ⟨h.1, fun hok => ?_⟩
    rw [hr.dueOf, hsub]
    exact h.2 hok

/-! ## The queue of requests -/

/-- What holds between the calls of a pipeline in which nothing fails. -/
structure Queued (w : World ω) : Prop where
  ordered : Ordered w
  sane : Sane w
  tracked : Tracked w.due w
  listed : ∀ r ∈ w.cc.requests.getD [], r.Listed

theorem Sane.formats {w w' : World ω} (h : Sane w) (hf : Formats w w') : Sane w' := by
  intro c hc
  obtain ⟨n, hn, hcon⟩ := hc
  rw [hf.conns]
  rw [hf.heap] at hcon
  exact h c ⟨n, hf.toPipelining.known.mp hn, hcon⟩

theorem Tracked.pipelining {w w' : World ω} (h : Tracked w.due w) (hp : Pipelining w w')
    (ho : Ordered w) (hreq : w'.cc.requests.getD [] = w.cc.requests.getD []) : w'.due = w.due :=
  h.firmer (hp.due ho hreq)

theorem Queued.formats {w w' : World ω} (h : Queued w) (hf : Formats w w') : Queued w' := by
  refine ⟨hf.ordered h.ordered, h.sane.formats hf, ?_, by rw [hf.requests]; exact h.listed⟩
  rw [h.tracked.pipelining hf.toPipelining h.ordered hf.requests]
  refine ⟨fun c herr => ?_, fun p hp => ?_⟩
  · rw [hf.conns] at herr ⊢
    exact h.tracked.queue c herr
  · exact (h.tracked.placed p hp).imp fun _ h' => ⟨h'.1, hf.toPipelining.held h.ordered h'.2⟩

/-- A request was added for what was written meanwhile. -/
theorem Queued.add {w w' : World ω} {r : Request} (h : Queued w) (hl : Linking w w')
    (hsome : w.cc.requests.isSome) (hr : r.Listed) (hs : Sane w')
    (htr : Tracked (w.due ++ w'.dueOf r) w') :
    Queued (addRequest r w').2 ∧
      (addRequest r w').2.cc.requests.getD [] = w.cc.requests.getD [] ++ [r] := by
  obtain ⟨rs, hrs⟩ := Option.isSome_iff_exists.mp hsome
  have hreq : (addRequest r w').2.cc.requests.getD [] = w.cc.requests.getD [] ++ [r] := by
    show (w'.cc.requests.map (· ++ [r])).getD [] = _
    rw [hl.requests, hrs]
    rfl
  have hdue : (addRequest r w').2.due = w.due ++ w'.dueOf r := by
    rw [← h.tracked.pipelining hl.pipelining h.ordered (by rw [hl.requests])]
    unfold World.due
    rw [hreq, hl.requests, List.flatMap_append, List.flatMap_singleton]
    rfl
  refine ⟨⟨(h.ordered.linking hl).of_cc rfl rfl, hs, ?_, ?_⟩, hreq⟩
  · rw [hdue]
    exact ⟨htr.queue, htr.placed⟩
  · rw [hreq]
    intro r' hr'
    rcases List.mem_append.mp hr' with hr' | hr'
    · exact h.listed r' hr'
    · obtain rfl := List.mem_singleton.mp hr'
      exact hr

theorem commandFormatBySlot_cmd (id : ℕ) (cmd : Bytes) (w : World ω) :
    wp (commandFormatBySlot { id, cmd }) (fun p _ => p.2.cmd = cmd) w := by
  unfold commandFormatBySlot
  split
  · rfl
  · split
    · rfl
    · dsimp only
      split
      · rfl
      · rfl
      · unfold commandPreFragment
        rw [wp_bind, wp_get, wp_bind, wp_modify]
        split
        · rfl
        · rfl

theorem formatRequest_fragmented (cmd : Bytes) (w : World ω) :
    wp (formatRequest cmd) (fun p _ => p.2.cmd = cmd ∧
      ∀ frags, p.2.subCommands = some frags → p.2.Fragmented frags) w := by
  unfold formatRequest
  rw [wp_bind]
  refine wp_mono (P := fun _ _ => True) trivial fun _ w₁ _ => ?_
  rw [wp_bind]
  refine wp_mono (P := fun _ _ => True) trivial fun id w₂ _ => ?_
  exact wp_and (commandFormatBySlot_cmd id cmd w₂) (commandFormatBySlot_fragmented id cmd w₂)

/-- A successful append puts its command at the end of the queue. -/
def Enqueues (cmd : Bytes) (w : World ω) (s : Status) (w' : World ω) : Prop :=
  s = .ok → Queued w' ∧
    ∃ r : Request, r.cmd = cmd ∧ w'.cc.requests.getD [] = w.cc.requests.getD [] ++ [r]

theorem append_queued {cmd : Bytes} {w : World ω} (h : Queued w) :
    wp (redisClusterAppendFormattedCommand H cmd) (fun s w' => Enqueues cmd w s w') w := by
  rw [redisClusterAppendFormattedCommand_eq, wp_bind]
  refine wp_mono (wp_and (formatRequest_formatted cmd w) (formatRequest_fragmented cmd w))
    fun p w₁ h₁ => ?_
  obtain ⟨⟨hf, hsome, hform⟩, hcmd, hfrag⟩ := h₁
  obtain ⟨slotNum, command⟩ := p
  have hq := h.formats hf
  dsimp only
  split
  · exact fun h => by cases h
  · rename_i hslot
    split
    · exact fun h => by cases h
    · rw [wp_bind]
      have hr := hform (Int.not_lt.mp hslot)
      refine wp_mono (appendFormatted_tracked H hq.ordered hq.sane hq.tracked hr) fun s w₂ h₂ => ?_
      obtain ⟨hl, h₂⟩ := h₂
      cases s with
      | err => exact fun h => by cases h
      | ok =>
        intro _
        obtain ⟨hs, htr⟩ := h₂ rfl
        obtain ⟨hq', hreq⟩ := hq.add hl hsome (Or.inl ⟨hr, hfrag⟩) hs htr
        exact ⟨hq', command, hcmd, by rw [← hf.requests]; exact hreq⟩

theorem appendToNode_queued {n : NodeId} {cmd : Bytes} {w : World ω} (h : Queued w)
    (hn : w.Known n)
    (hfind : (w.cc.nodes.getD HashTable.empty).find (cstr (w.heap n).addr) = some n) :
    wp (redisClustervAppendCommandToNode H n cmd) (fun s w' => Enqueues cmd w s w') w := by
  refine wp_mono (appendToNode_spec H h.ordered (h.ordered.routed.lt n hn)) fun s w' h' => ?_
  obtain ⟨w₁, hf, hsome, h'⟩ := h'
  cases s with
  | err => exact fun h => by cases h
  | ok =>
    intro _
    obtain ⟨w₂, id, c, hl, hcon, hw, rfl⟩ := h'
    have hq := h.formats hf
    have hn₂ : w₂.Known n := hl.pipelining.known.mpr (hf.toPipelining.known.mpr hn)
    have haddr : w₂.addrConn (cstr (w.heap n).addr) = some c := by
      rw [World.addrConn, hl.nodes, hf.nodes, hfind, Option.bind_some, hcon]
    have htr := hq.tracked.writes hl.pipelining hq.ordered hq.sane hw ⟨n, hn₂, hcon⟩
    obtain ⟨hq', hreq⟩ := hq.add (r := { id, cmd, nodeAddr := some (cstr (w.heap n).addr) }) hl hsome
      (Or.inr ⟨show (-1 : ℤ) < 0 by decide, rfl, rfl⟩) (hq.sane.writes hq.ordered hw) (by
        rw [World.dueOf, if_neg (show ¬ (0 : ℤ) ≤ -1 by decide)]
        dsimp only
        rw [haddr]
        exact htr)
    exact ⟨hq', _, rfl, by rw [← hf.requests]; exact hreq⟩

/-- Taking the oldest request off the queue. -/
theorem getReply_queued {r : Request} {rs : List Request} {w : World ω} (h : Queued w)
    (hreq : w.cc.requests = some (r :: rs)) :
    wp (redisClusterGetReply H) (fun p w' => Sane w' → Queued w' ∧ w'.cc.requests.getD [] = rs ∧
      ∃ x, Serves r x w w' ∧ p = (match x with
        | none => (.err, none)
        | some x => (.ok, some x))) w := by
  unfold redisClusterGetReply
  rw [wp_bind]
  refine wp_mono (P := fun _ w₁ => Formats w w₁ ∧ w₁.cc.requests = w.cc.requests)
    ⟨formats_of_cc rfl rfl rfl, rfl⟩ fun _ w₁ h₁ => ?_
  obtain ⟨hf, hreq₁⟩ := h₁
  have hq := h.formats hf
  rw [wp_bind, wp_get, hreq₁, hreq]
  dsimp only
  have hdue : w₁.due = w₁.dueOf r ++ rs.flatMap w₁.dueOf := by
    rw [World.due, hreq₁, hreq, Option.getD_some, List.flatMap_cons]
  have hlisted := hq.listed
  rw [hreq₁, hreq, Option.getD_some] at hlisted
  obtain ⟨hr, hrs⟩ := List.forall_mem_cons.mp hlisted
  have htr := hq.tracked
  rw [hdue] at htr
  rw [wp_bind]
  refine wp_mono (getRequestReply_tracked H hr hq.ordered htr) fun x w₂ h₂ => ?_
  obtain ⟨hread, h₂⟩ := h₂
  have hreq₂ : (dropRequest w₂).2.cc.requests = some rs := by
    show w₂.cc.requests.map List.tail = _
    rw [hread.requests, hreq₁, hreq]
    rfl
  have hdone : Sane (dropRequest w₂).2 → Queued (dropRequest w₂).2 ∧
      (dropRequest w₂).2.cc.requests.getD [] = rs ∧ Serves r x w (dropRequest w₂).2 := by
    intro hs
    obtain ⟨htr₂, events, htrace, hserves⟩ := h₂ hs
    refine ⟨⟨(hread.ordered hq.ordered).of_cc rfl rfl, hs, ?_, ?_⟩, ?_, events, ?_, hserves⟩
    · have hdue₂ : (dropRequest w₂).2.due = rs.flatMap w₁.dueOf := by
        rw [World.due, hreq₂, Option.getD_some, ← hread.dueOf]
        rfl
      rw [hdue₂]
      exact ⟨htr₂.queue, htr₂.placed⟩
    · rw [hreq₂]
      exact hrs
    · rw [hreq₂]
      rfl
    · rw [← hf.trace]
      exact htrace
  rw [wp_bind]
  refine wp_mono (show wp dropRequest (fun _ w' => Sane w' → Queued w' ∧ w'.cc.requests.getD [] = rs ∧
    Serves r x w w') w₂ from hdone) fun _ w₃ h₃ => ?_
  cases x with
  | none => exact fun hs => ⟨(h₃ hs).1, (h₃ hs).2.1, none, (h₃ hs).2.2, rfl⟩
  | some x => exact fun hs => ⟨(h₃ hs).1, (h₃ hs).2.1, some x, (h₃ hs).2.2, rfl⟩

/-- Without requests there is nothing to read. -/
theorem getReply_idle {w : World ω} (h : Queued w) (hreq : w.cc.requests.getD [] = []) :
    wp (redisClusterGetReply H) (fun _ w' => Queued w' ∧ w'.cc.requests.getD [] = []) w := by
  unfold redisClusterGetReply
  rw [wp_bind]
  refine wp_mono (P := fun _ w₁ => Formats w w₁) (formats_of_cc rfl rfl rfl) fun _ w₁ hf => ?_
  have hq := h.formats hf
  have hreq₁ : w₁.cc.requests.getD [] = [] := hf.requests.trans hreq
  rw [wp_bind, wp_get]
  split
  · exact ⟨hq, hreq₁⟩
  · exact ⟨hq, hreq₁⟩
  · rename_i hcons
    rw [hcons] at hreq₁
    cases hreq₁

/-! ## Whole pipelines -/

/-- The command of an append. -/
def PipeOp.command? : PipeOp → Option Bytes
  | .append cmd => some cmd
  | .appendToNode _ cmd => some cmd
  | .getReply => none

/-- An append that succeeds. -/
def PipeOp.Succeeds (w : World ω) : PipeOp → Prop
  | .append cmd => (redisClusterAppendFormattedCommand H cmd w).1 = .ok
  | .appendToNode n cmd => (redisClustervAppendCommandToNode H n cmd w).1 = .ok
  | .getReply => True

/-- The node of a node-directed command is known, and found by the address that is
kept for it. -/
def PipeOp.Located (w : World ω) : PipeOp → Prop
  | .appendToNode n _ =>
    w.Known n ∧ (w.cc.nodes.getD HashTable.empty).find (cstr (w.heap n).addr) = some n
  | _ => True

/-- All appends succeed, and no connection of a node is ever in error. -/
def Flawless : List PipeOp → World ω → Prop
  | [], w => Sane w
  | op :: ops, w => Sane w ∧ op.Succeeds H w ∧ Flawless ops (op.run H w).2

/-- The requests that the appends of a pipeline list. -/
def appended : List PipeOp → World ω → List Request
  | [], _ => []
  | op :: ops, w =>
    let w' := (op.run H w).2
    if op.isAppend then (w'.cc.requests.getD []).getLast?.toList ++ appended ops w'
    else appended ops w'

/-- A call of `redisClusterGetReply` that finds a request: the replies read in it, with
what they answer, and what it returns. -/
structure Got where
  answers : List (Sent × Reply)
  result : Status × Option Reply

/-- The calls of `redisClusterGetReply` that find a request. -/
def got : List PipeOp → World ω → List Got
  | [], _ => []
  | .getReply :: ops, w =>
    let t := redisClusterGetReply H w
    if w.cc.requests.getD [] = [] then got ops t.2
    else ⟨answersIn (t.2.trace.drop w.trace.length), t.1⟩ :: got ops t.2
  | op :: ops, w => got ops (op.run H w).2

/-- The call returned the answer to the request: the replies it read answer the
transmissions of the request one by one, and it returns what they come to. -/
def Got.AnswerTo (g : Got) (r : Request) : Prop :=
  g.answers.map Prod.fst = r.transmissions ∧
    (r.WellAnswered (g.answers.map Prod.snd) →
      ∃ x, g.result = (.ok, some x) ∧ r.Answered (g.answers.map Prod.snd) x)

theorem Serves.answerTo {r : Request} {x : Option Reply} {w w' : World ω} {p : Status × Option Reply}
    (hp : p = (match x with
      | none => (.err, none)
      | some x => (.ok, some x))) (h : Serves r x w w') :
    (Got.mk (answersIn (w'.trace.drop w.trace.length)) p).AnswerTo r := by
  obtain ⟨events, htrace, hfst, hres⟩ := h
  have hdrop : w'.trace.drop w.trace.length = events := by rw [htrace, List.drop_left]
  refine ⟨by rw [hdrop]; exact hfst, fun hw => ?_⟩
  rw [hdrop] at hw ⊢
  obtain ⟨y, rfl, hy⟩ := hres hw
  exact ⟨y, hp, hy⟩

/-- An append from a queue puts its command at the end. -/
theorem PipeOp.run_enqueues {op : PipeOp} {w : World ω} (h : Queued w) (hl : op.Located w)
    (hs : op.Succeeds H w) (happ : op.isAppend) : Queued (op.run H w).2 ∧
      ∃ r : Request, op.command? = some r.cmd ∧
        (op.run H w).2.cc.requests.getD [] = w.cc.requests.getD [] ++ [r] := by
  cases op with
  | append cmd =>
    obtain ⟨hq, r, hcmd, hreq⟩ := append_queued H h hs
    exact ⟨hq, r, by rw [PipeOp.command?, hcmd], hreq⟩
  | appendToNode n cmd =>
    obtain ⟨hq, r, hcmd, hreq⟩ := appendToNode_queued H h hl.1 hl.2 hs
    exact ⟨hq, r, by rw [PipeOp.command?, hcmd], hreq⟩
  | getReply => cases happ

theorem PipeOp.Located.run {op op' : PipeOp} {w : World ω} (ho : Ordered w)
    (hp : Pipelining w (op.run H w).2) (h : op'.Located w) : op'.Located (op.run H w).2 := by
  cases op' with
  | appendToNode n cmd =>
    obtain ⟨hn, hfind⟩ := h
    refine ⟨hp.known.mpr hn, ?_⟩
    rw [hp.nodes, hp.addr n (ho.routed.lt n hn)]
    exact hfind
  | _ => exact trivial

theorem Flawless.sane {ops : List PipeOp} {w : World ω} (h : Flawless H ops w) : Sane w := by
  cases ops with
  | nil => exact h
  | cons op ops => exact h.1

theorem PipeOp.Located.known {op : PipeOp} {w : World ω} (h : op.Located w) : op.Known w := by
  cases op with
  | appendToNode n cmd => exact h.1
  | _ => exact trivial

theorem appended_append {op : PipeOp} {ops : List PipeOp} {w : World ω} (happ : op.isAppend) :
    appended H (op :: ops) w =
      ((op.run H w).2.cc.requests.getD []).getLast?.toList ++ appended H ops (op.run H w).2 := by
  rw [appended, if_pos happ]

theorem got_append {op : PipeOp} {ops : List PipeOp} {w : World ω} (happ : op.isAppend) :
    got H (op :: ops) w = got H ops (op.run H w).2 := by
  cases op with
  | getReply => cases happ
  | _ => rfl

/-- From a queue on, the calls that find a request answer the requests of the queue and
then those of the appends; the latter are for the appended commands. -/
theorem got_from_queue {ops : List PipeOp} : ∀ {w : World ω}, Queued w →
    (∀ op ∈ ops, op.Located w) → Flawless H ops w →
    (∀ (k : ℕ) (g : Got), (got H ops w)[k]? = some g →
      ∃ r, (w.cc.requests.getD [] ++ appended H ops w)[k]? = some r ∧ g.AnswerTo r) ∧
    (appended H ops w).map (fun r => r.cmd) = ops.filterMap PipeOp.command? := by
  induction ops with
  | nil => exact fun _ _ _ => ⟨(fun k g h => by cases h), rfl⟩
  | cons op ops ih =>
    intro w hq hl hfl
    obtain ⟨hs, hok, hfl⟩ := hfl
    obtain ⟨hlop, hlops⟩ := List.forall_mem_cons.mp hl
    have hp : Pipelining w (op.run H w).2 :=
      (PipeOp.run_piped H hq.ordered hlop.known).pipelining
    have hl' : ∀ op' ∈ ops, op'.Located (op.run H w).2 := fun op' hop' =>
      (hlops op' hop').run H hq.ordered hp
    by_cases happ : op.isAppend
    · obtain ⟨hq', r, hcmd, hreq⟩ := PipeOp.run_enqueues H hq hlop hok happ
      obtain ⟨hgot, hcmds⟩ := ih hq' hl' hfl
      rw [got_append H happ, appended_append H happ, hreq, List.getLast?_concat, Option.toList_some]
      rw [hreq, List.append_assoc] at hgot
      refine ⟨hgot, ?_⟩
      rw [List.map_append, hcmds, List.filterMap_cons, hcmd]
      rfl
    · cases op with
      | append cmd => exact absurd rfl happ
      | appendToNode n cmd => exact absurd rfl happ
      | getReply =>
        have happended : appended H (.getReply :: ops) w =
            appended H ops (redisClusterGetReply H w).2 := rfl
        rw [happended]
        cases hreq : w.cc.requests.getD [] with
        | nil =>
          obtain ⟨hq', hreq'⟩ := getReply_idle H hq hreq
          obtain ⟨hgot, hcmds⟩ := ih hq' hl' hfl
          rw [got, if_pos hreq]
          rw [hreq'] at hgot
          exact ⟨hgot, hcmds⟩
        | cons r rs =>
          have hreq' : w.cc.requests = some (r :: rs) := by
            cases hopt : w.cc.requests with
            | none =>
              rw [hopt] at hreq
              cases hreq
            | some l =>
              rw [hopt] at hreq
              rw [show l = r :: rs from hreq]
          obtain ⟨hq', hrs, x, hserves, hp⟩ := getReply_queued H hq hreq' (Flawless.sane H hfl)
          obtain ⟨hgot, hcmds⟩ := ih hq' hl' hfl
          rw [hrs] at hgot
          refine ⟨fun k g hg => ?_, hcmds⟩
          rw [got, if_neg (by rw [hreq]; exact List.cons_ne_nil _ _)] at hg
          cases k with
          | zero =>
            obtain rfl := Option.some.inj hg
            exact ⟨r, rfl, Serves.answerTo hp hserves⟩
          | succ k => exact hgot k g hg

/-- **Replies come back in order**: from a client in step, the `k`-th call that finds a
request returns the answer to the `k`-th command that was appended. -/
theorem got_in_order {ops : List PipeOp} {w : World ω} (ho : Ordered w) (hi : InStep w)
    (hl : ∀ op ∈ ops, op.Located w) (hf : Flawless H ops w) :
    (∀ (k : ℕ) (g : Got), (got H ops w)[k]? = some g →
      ∃ r, (appended H ops w)[k]? = some r ∧ g.AnswerTo r) ∧
    (appended H ops w).map (fun r => r.cmd) = ops.filterMap PipeOp.command? := by
  have hdue : w.due = [] := by rw [World.due, hi.1, List.flatMap_nil]
  have hq : Queued w := by
    refine ⟨ho, Flawless.sane H hf, ?_, by rw [hi.1]; exact fun r hr => by cases hr⟩
    rw [hdue]
    exact ⟨fun c herr => hi.2 c herr, fun p hp => by cases hp⟩
  have := got_from_queue H hq hl hf
  rw [hi.1, List.nil_append] at this
  exact this

end Calls
