/-
# Reply correlation of the blocking command path

The topology query that goes along with a command is answered on the same
connection, after the command's own reply, and its reply is only collected at
the end.  As long as the loop does not come back to the connection that carries
the deferred query (`Apart`), every reply is the answer to what it was read for,
and no usable connection owes a reply on return.

The loop does come back there: a TRYAGAIN leads to `retry`, and to the same
connection.  The reply read next is then the one to the topology query.
-/
import HiredisCluster.Execute

open Program

variable {ω : Type}

/-! ## The invariant -/

/-- No usable connection owes a reply, but for the deferred query `q` on `u`. -/
def Clean (q : Sent) (u : Option ConnId) (w : World ω) : Prop :=
  ∀ c, (w.conns c).err = none →
    (w.conns c).queue = [] ∨ u = some c ∧ (w.conns c).queue = [q]

theorem Clean.settles {q : Sent} {u : Option ConnId} {w w' : World ω} (h : Clean q u w)
    (hs : Settles w w') : Clean q u w' := by
  intro c herr
  rcases hs.conns c with heq | hi
  · rw [heq] at herr ⊢
    exact h c herr
  · exact Or.inl (hi herr)

theorem Clean.idle {q : Sent} {u : Option ConnId} {w : World ω} (h : Clean q u w) {c : ConnId}
    (hu : u ≠ some c) : Idle c w := by
  intro herr
  rcases h c herr with hq | ⟨heq, -⟩
  · exact hq
  · exact absurd heq hu

theorem clean_none_iff {q : Sent} {w : World ω} :
    Clean q none w ↔ ∀ c, (w.conns c).err = none → (w.conns c).queue = [] := by
  constructor
  · intro h c
    exact h.idle (Option.some_ne_none c).symm
  · intro h c herr
    exact Or.inl (h c herr)

/-- The deferred query is collected. -/
theorem Clean.collect {q : Sent} {c : ConnId} {w w' : World ω} (h : Clean q (some c) w)
    (hs : Settles w w') (hi : Idle c w') : Clean q none w' := by
  rw [clean_none_iff]
  intro c'
  rcases eq_or_ne c' c with rfl | hc'
  · exact hi
  · exact hs.idle (h.idle fun heq => hc' (Option.some.inj heq).symm)

/-- One connection changed, and is as it should be. -/
theorem Clean.onlyAt {q : Sent} {u u' : Option ConnId} {w w' : World ω} (h : Clean q u w)
    {c : ConnId} (honly : OnlyAt c w w') (hu : ∀ c' ≠ c, u = some c' → u' = some c')
    (hc : (w'.conns c).err = none →
      (w'.conns c).queue = [] ∨ u' = some c ∧ (w'.conns c).queue = [q]) : Clean q u' w' := by
  intro c' herr
  rcases eq_or_ne c' c with rfl | hc'
  · exact hc herr
  · rw [honly c' hc'] at herr ⊢
    exact (h c' herr).imp_right fun h => ⟨hu c' hc' h.1, h.2⟩

/-- The loop is not about to write to the connection of the deferred query. -/
def Apart (e : Exec) : Prop :=
  match e.pc with
  | .send c => e.cUpdatingRoute ≠ some c
  | .asking c => e.cUpdatingRoute ≠ some c
  | _ => True

instance : DecidablePred Apart
  | ⟨.send c, u⟩ => inferInstanceAs (Decidable (u ≠ some c))
  | ⟨.asking c, u⟩ => inferInstanceAs (Decidable (u ≠ some c))
  | ⟨.retry, _⟩ => .isTrue trivial
  | ⟨.moved _ _, _⟩ => .isTrue trivial
  | ⟨.follow _ _, _⟩ => .isTrue trivial
  | ⟨.done _, _⟩ => .isTrue trivial
  | ⟨.ret _, _⟩ => .isTrue trivial

/-- The reply that is about to be returned, if any. -/
def Exec.answer (e : Exec) : Option Answer :=
  match e.pc with
  | .done r => r
  | .ret r => r
  | _ => none

/-- The topology query that is still to be collected. -/
def Exec.deferred (e : Exec) : Option ConnId :=
  match e.pc with
  | .ret _ => none
  | _ => e.cUpdatingRoute

/-- What holds between the steps of the loop that was entered in `w₀`. -/
structure Correlated (cmd : Cmd) (w₀ : World ω) (e : Exec) (w : World ω) : Prop where
  query : w.cc.topologyQuery = w₀.cc.topologyQuery
  matched : Matches w₀ w
  answer : ∀ a, e.answer = some a → a.answers = .command cmd.id cmd.cmd
  clean : Clean w₀.cc.topologyQuery e.deferred w

theorem Advance.topologyQuery {w w' : World ω} (h : Advance w w') :
    w'.cc.topologyQuery = w.cc.topologyQuery := by
  have hs : w'.cc.settings.routeUseSlots = w.cc.settings.routeUseSlots := by rw [h.settings]
  change w'.cc.routeUseSlots = w.cc.routeUseSlots at hs
  rw [Context.topologyQuery, Context.topologyQuery, hs]

/-! ## The steps -/

section Steps

variable (H : Hiredis ω) {cmd : Cmd} {w₀ w : World ω}

/-- A step that proceeds to a place without an answer. -/
theorem Correlated.proceeds {e e' : Exec} {w' : World ω} (h : Correlated cmd w₀ e w)
    (hp : Proceeds w w') (hans : e'.answer = none) (hdef : e'.deferred = e.deferred) :
    Correlated cmd w₀ e' w' where
  query := hp.advance.topologyQuery.trans h.query
  matched := h.matched.trans hp.settles.matched
  answer a ha := by
    rw [hans] at ha
    cases ha
  clean := by
    rw [hdef]
    exact h.clean.settles hp.settles

theorem execRedirect_query (c : ConnId) (u : Option ConnId) (type : ErrorType) (str : Bytes)
    (w : World ω) :
    wp (execRedirect c u type str) (fun e w' => w'.cc.topologyQuery = w.cc.topologyQuery ∧
      e.answer = none ∧ e.deferred = u) w := by
  unfold execRedirect
  rw [wp_bind, wp_modifyCc, wp_bind, wp_get]
  split
  · exact ⟨rfl, rfl, rfl⟩
  · split
    · rw [wp_bind]
      refine wp_mono ((advance_handleMoved str).wp _) fun r w₁ h₁ => ?_
      cases r with
      | none => exact ⟨h₁.topologyQuery, rfl, rfl⟩
      | some n => exact ⟨h₁.topologyQuery, rfl, rfl⟩
    · rw [wp_bind]
      refine wp_mono ((advance_handleAsk str).wp _) fun r w₁ h₁ => ?_
      cases r with
      | none => exact ⟨h₁.topologyQuery, rfl, rfl⟩
      | some n => exact ⟨h₁.topologyQuery, rfl, rfl⟩
    · exact ⟨rfl, rfl, rfl⟩

/-- The reply to the command is returned, or leads on without an answer. -/
theorem execReply_query (c : ConnId) (u : Option ConnId) (a : Answer) (w : World ω) :
    wp (execReply c u a) (fun e w' => w'.cc.topologyQuery = w.cc.topologyQuery ∧
      (e.answer = none ∨ e.answer = some a) ∧ e.deferred = u) w := by
  unfold execReply
  split
  · exact ⟨rfl, Or.inr rfl, rfl⟩
  · exact ⟨rfl, Or.inr rfl, rfl⟩
  · exact wp_mono (execRedirect_query c u _ _ w) fun e w' h => ⟨h.1, Or.inl h.2.1, h.2.2⟩

theorem execReadFailed_query (c : ConnId) (u : Option ConnId) (w : World ω) :
    wp (execReadFailed c u) (fun e w' => w'.cc.topologyQuery = w.cc.topologyQuery ∧
      e.answer = none ∧ e.deferred = u) w := by
  unfold execReadFailed
  rw [wp_bind]
  refine wp_mono (calmly (within_copyError c) w) fun _ w₁ h₁ => ?_
  rw [wp_bind, wp_get]
  split
  · exact ⟨h₁.advance.topologyQuery, rfl, rfl⟩
  · exact ⟨h₁.advance.topologyQuery, rfl, rfl⟩

/-- **Sending on a connection that carries no deferred query.** -/
theorem execSend_correlated {c : ConnId} {u : Option ConnId}
    (h : Correlated cmd w₀ ⟨.send c, u⟩ w) (hu : u ≠ some c) :
    wp (execSend H cmd c u) (fun e w' => Correlated cmd w₀ e w') w := by
  have hidle : Idle c w := h.clean.idle hu
  have hother : ∀ c' ≠ c, u = some c' → u = some c' := fun _ _ h => h
  unfold execSend
  rw [wp_bind]
  refine wp_mono (wp_and (redisAppendCommand_owes H (.command cmd.id cmd.cmd) hidle)
    (calmly (within_redisAppendCommand H c _) w)) fun r w₁ hr => ?_
  obtain ⟨⟨honly₁, hm₁, hr⟩, hc₁⟩ := hr
  have hq₁ := hc₁.advance.topologyQuery.trans h.query
  cases r with
  | err =>
    have hclean := h.clean.onlyAt honly₁ hother fun herr => absurd herr hr
    have hcopy := proceeds_copyError c w₁
    exact ⟨hcopy.advance.topologyQuery.trans hq₁,
      (h.matched.trans hm₁).trans hcopy.settles.matched, (fun a ha => by cases ha),
      hclean.settles hcopy.settles⟩
  | ok =>
    obtain ⟨-, hqueue⟩ := hr
    dsimp only
    rw [wp_bind]
    refine wp_mono (wp_and (pipelineUpdate_conns H c u w₁) (calmly (within_pipelineUpdate H c u) w₁))
      fun u' w₂ hr => ?_
    obtain ⟨⟨honly₂, hm₂, hp⟩, hc₂⟩ := hr
    have hq₂ := hc₂.advance.topologyQuery.trans hq₁
    rw [wp_bind]
    refine wp_mono (wp_and (redisGetReply_conns H c (.command cmd.id cmd.cmd) w₂)
      (calmly (within_redisGetReply H c _) w₂)) fun r w₃ hr => ?_
    obtain ⟨⟨honly₃, hr⟩, hc₃⟩ := hr
    have hq₃ := hc₃.advance.topologyQuery.trans hq₂
    have honly : OnlyAt c w w₃ := (honly₁.trans honly₂).trans honly₃
    have hu' : ∀ c' ≠ c, u = some c' → u' = some c' := by
      intro c' _ heq
      rcases hp with ⟨hp, -⟩ | ⟨hp, -⟩ | ⟨hp, -⟩
      · exact hp.trans heq
      · rw [hp] at heq
        cases heq
      · rw [hp] at heq
        cases heq
    have hm := (h.matched.trans hm₁).trans hm₂
    cases r with
    | none =>
      have hclean := h.clean.onlyAt honly hu' fun herr => absurd herr hr.1
      refine wp_mono (wp_and (execReadFailed_query c u' w₃)
        ((settles_execReadFailed c u').wp w₃)) fun e w₄ he => ?_
      obtain ⟨⟨hq, hans, hdef⟩, hs⟩ := he
      refine ⟨hq.trans hq₃, (hm.trans (Matches.of_trace hr.2)).trans hs.matched, fun a ha => ?_, ?_⟩
      · rw [hans] at ha
        cases ha
      · rw [hdef]
        exact hclean.settles hs
    | some a =>
      obtain ⟨herr₂, rest, hqueue₂, hconn₃, htrace₃⟩ := hr
      -- what was written to the idle connection: the command, and perhaps the query
      have hsent : a.answers = .command cmd.id cmd.cmd ∧
          (rest = [] ∨ u' = some c ∧ rest = [w₀.cc.topologyQuery]) := by
        rcases hp with ⟨-, hconn⟩ | ⟨-, hu', herr₁, hconn⟩ | ⟨-, -, herr⟩
        · rw [hconn] at herr₂ hqueue₂
          rw [hqueue herr₂] at hqueue₂
          obtain ⟨ha, hrest⟩ := List.cons_eq_cons.mp hqueue₂
          exact ⟨ha.symm, Or.inl hrest.symm⟩
        · rw [hconn] at hqueue₂
          change (w₁.conns c).queue ++ [w₁.cc.topologyQuery] = _ at hqueue₂
          rw [hqueue herr₁, hq₁] at hqueue₂
          obtain ⟨ha, hrest⟩ := List.cons_eq_cons.mp hqueue₂
          exact ⟨ha.symm, Or.inr ⟨hu', hrest.symm⟩⟩
        · exact absurd herr₂ herr
      have hclean : Clean w₀.cc.topologyQuery u' w₃ := h.clean.onlyAt honly hu' fun _ => by
        rw [hconn₃]
        exact hsent.2
      refine wp_mono (wp_and (execReply_query c u' a w₃)
        ((settles_execReply c u' a).wp w₃)) fun e w₄ he => ?_
      obtain ⟨⟨hq, hans, hdef⟩, hs⟩ := he
      refine ⟨hq.trans hq₃, (hm.trans (Matches.one htrace₃ hsent.1.symm)).trans hs.matched,
        fun a' ha' => ?_, ?_⟩
      · rcases hans with hans | hans
        · rw [hans] at ha'
          cases ha'
        · obtain rfl := Option.some.inj (hans.symm.trans ha')
          exact hsent.1
      · rw [hdef]
        exact hclean.settles hs

theorem execMoved_correlated {n : NodeId} {c : ConnId} {u : Option ConnId}
    (h : Correlated cmd w₀ ⟨.moved n c, u⟩ w) :
    wp (execMoved H n c u) (fun e w' => Correlated cmd w₀ e w') w := by
  unfold execMoved
  cases u with
  | some c' => exact ⟨h.query, h.matched, (fun a ha => by cases ha), h.clean⟩
  | none =>
    dsimp only
    rw [wp_bind]
    refine wp_mono (wp_and (clusterUpdateRouteSendCommand_conns H c w)
      (calmly (within_clusterUpdateRouteSendCommand H c) w)) fun r w₁ hr => ?_
    obtain ⟨⟨honly, hm, hr⟩, hc⟩ := hr
    have hq₁ := hc.advance.topologyQuery.trans h.query
    have hnone : ∀ c' ≠ c, none = some c' → some c = some c' := fun c' _ heq => by cases heq
    cases r with
    | ok =>
      obtain ⟨herr, hconn⟩ := hr
      have hclean : Clean w₀.cc.topologyQuery (some c) w₁ := by
        refine h.clean.onlyAt honly hnone fun _ => Or.inr ⟨rfl, ?_⟩
        rw [hconn]
        show (w.conns c).queue ++ [w.cc.topologyQuery] = _
        rw [h.clean.idle (Option.some_ne_none c).symm herr, h.query, List.nil_append]
      exact ⟨hq₁, h.matched.trans hm, (fun a ha => by cases ha), hclean⟩
    | err =>
      have hclean : Clean w₀.cc.topologyQuery none w₁ :=
        h.clean.onlyAt honly (fun c' _ heq => by cases heq) fun herr => absurd herr hr
      dsimp only
      rw [wp_bind]
      refine wp_mono ((proceeds_redisClusterUpdateSlotmap H).wp w₁) fun r w₂ hp => ?_
      have h₂ : Correlated cmd w₀ ⟨.done none, none⟩ w₂ :=
        ⟨hp.advance.topologyQuery.trans hq₁, (h.matched.trans hm).trans hp.settles.matched,
          (fun a ha => by cases ha), hclean.settles hp.settles⟩
      cases r with
      | ok =>
        exact h₂.proceeds ⟨(calm_setError _ _ w₂).advance, settles_setError _ _ w₂⟩ rfl rfl
      | err => exact h₂

theorem execAsking_correlated {c : ConnId} {u : Option ConnId}
    (h : Correlated cmd w₀ ⟨.asking c, u⟩ w) (hu : u ≠ some c) :
    wp (execAsking H c u) (fun e w' => Correlated cmd w₀ e w') w := by
  unfold execAsking
  rw [wp_bind]
  refine wp_mono (wp_and ((talks_redisCommand H c .asking).wp w)
    (calmly (within_redisCommand H c rfl) w)) fun r w₁ hr => ?_
  have hp : Proceeds w w₁ := ⟨hr.2.advance, hr.1 (h.clean.idle hu)⟩
  cases r with
  | none => exact h.proceeds (hp.trans (proceeds_copyError c w₁)) rfl rfl
  | some a => exact h.proceeds hp rfl rfl

/-- **Collecting the deferred topology reply.** -/
theorem execDone_correlated {r : Option Answer} {u : Option ConnId}
    (h : Correlated cmd w₀ ⟨.done r, u⟩ w) :
    wp (execDone H r u) (fun e w' => Correlated cmd w₀ e w') w := by
  unfold execDone
  cases u with
  | none => exact ⟨h.query, h.matched, h.answer, h.clean⟩
  | some c =>
    dsimp only
    rw [wp_bind, wp_get, wp_bind, wp_record, wp_bind]
    have hrec : Settles w { w with trace := w.trace ++ [.deferred c (decide (w.Held c))] } :=
      ⟨fun _ => Or.inl rfl, Matches.one rfl trivial⟩
    have howes : Owes c w.cc.topologyQuery w := by
      rw [h.query]
      exact fun herr => (h.clean c herr).imp_right And.right
    refine wp_mono (wp_and (clusterUpdateRouteHandleReply_collects H (c := c) howes)
      (clusterUpdateRouteHandleReply_updates H c _)) fun s w₁ hs => ?_
    obtain ⟨⟨hset, hidle⟩, hu⟩ := hs
    have hclean := h.clean.collect (hrec.trans hset) hidle
    have hq : w₁.cc.topologyQuery = w₀.cc.topologyQuery := hu.advance.topologyQuery.trans h.query
    have hm := h.matched.trans (hrec.trans hset).matched
    cases s with
    | ok => exact ⟨hq, hm, h.answer, hclean⟩
    | err =>
      have h₁ : Correlated cmd w₀ ⟨.ret none, some c⟩ w₁ :=
        ⟨hq, hm, (fun a ha => by cases ha), hclean⟩
      dsimp only
      rw [wp_bind]
      refine wp_mono (P := fun _ w' => Proceeds w₁ w')
        ⟨(calm_setError _ _ w₁).advance, settles_setError _ _ w₁⟩ fun _ w₂ hp₂ => ?_
      rw [wp_bind]
      refine wp_mono ((proceeds_redisClusterUpdateSlotmap H).wp w₂) fun s w₃ hp₃ => ?_
      have h₃ : Correlated cmd w₀ ⟨.ret none, some c⟩ w₃ := h₁.proceeds (hp₂.trans hp₃) rfl rfl
      cases s with
      | ok => exact ⟨h₃.query, h₃.matched, h.answer, h₃.clean⟩
      | err => exact h₃

theorem execStep_correlated {e : Exec} (h : Correlated cmd w₀ e w) (ha : Apart e) :
    wp (execStep H cmd e) (fun e' w' => Correlated cmd w₀ e' w') w := by
  obtain ⟨pc, u⟩ := e
  cases pc with
  | retry =>
    refine wp_mono (execRetry_next H cmd u w) fun e w' he => ?_
    obtain ⟨hp, hu, hpc | ⟨c, hpc⟩⟩ := he
    · exact h.proceeds hp (by simp only [Exec.answer, hpc]) (by simp only [Exec.deferred, hpc, hu])
    · exact h.proceeds hp (by simp only [Exec.answer, hpc]) (by simp only [Exec.deferred, hpc, hu])
  | send c => exact execSend_correlated H h ha
  | moved n c => exact execMoved_correlated H h
  | follow n ask =>
    refine wp_mono (connectOrFail_next H n _ u w) fun e w' he => ?_
    obtain ⟨hp, hu, hpc | ⟨c, hpc⟩⟩ := he
    · exact h.proceeds hp (by simp only [Exec.answer, hpc]) (by simp only [Exec.deferred, hpc, hu])
    · cases ask with
      | true => exact h.proceeds hp (by simp [Exec.answer, hpc]) (by simp [Exec.deferred, hpc, hu])
      | false => exact h.proceeds hp (by simp [Exec.answer, hpc]) (by simp [Exec.deferred, hpc, hu])
  | asking c => exact execAsking_correlated H h ha
  | done r => exact execDone_correlated H h
  | ret r => exact ⟨h.query, h.matched, h.answer, h.clean⟩

end Steps

/-! ## The whole run -/

/-- The command path correlates replies: if no usable connection owes a reply on
entry, then a reply returned answers a transmission of the command, every reply
read meanwhile answers what it was read for (the command, ASKING, or the topology
query), and no usable connection owes a reply on return. -/
def Correlates (H : Hiredis ω) (cmd : Cmd) (w : World ω) : Prop :=
  (∀ c, (w.conns c).err = none → (w.conns c).queue = []) →
    wp (redisClusterCommandExecute H cmd) (fun r w' =>
      (∀ a, r = some a → a.answers = .command cmd.id cmd.cmd) ∧
      (∃ new, w'.trace = w.trace ++ new ∧
        ∀ c awaited answered reply, Event.read c awaited answered reply ∈ new →
          awaited = answered) ∧
      ∀ c, (w'.conns c).err = none → (w'.conns c).queue = []) w

/-- **Reply correlation** holds in every run in which the loop never comes back to
the connection that carries the deferred topology query. -/
theorem redisClusterCommandExecute_correlates (H : Hiredis ω) (cmd : Cmd) (w : World ω)
    (hapart : ∀ k, Apart (execAt H cmd w k).1) : Correlates H cmd w := by
  intro hidle
  have hstart : Correlated cmd w execStart w :=
    ⟨rfl, Matches.refl w, (fun a ha => by cases ha), clean_none_iff.mpr hidle⟩
  have hrun := Machine.iterate_guarded (f := execNext H cmd)
    (I := fun s => Correlated cmd w s.1 s.2) (G := fun s => Apart s.1)
    (fun s hs hI => execStep_correlated H hI hs) hapart hstart (execFuel w)
  change Correlated cmd w (execAt H cmd w (execFuel w)).1 (execAt H cmd w (execFuel w)).2 at hrun
  obtain ⟨r, hr⟩ := execAt_returned H cmd w
  obtain ⟨new, hnew, hm⟩ := hrun.matched
  refine ⟨fun a ha => hrun.answer a ?_, ⟨new, hnew, fun c q q' _ he => hm _ he⟩, ?_⟩
  · simp only [redisClusterCommandExecute, Exec.result, hr] at ha
    simp only [Exec.answer, hr, ha]
  · have hclean := hrun.clean
    simp only [Exec.deferred, hr] at hclean
    exact clean_none_iff.mp hclean

/-- A client with a topology query scheduled. -/
def updateScheduled (replies : List Reply) : World (List Reply) :=
  let w := singleNode replies
  { w with cc := { w.cc with needUpdateRoute := true } }

/-- A command that is answered, and then the query that went along with it. -/
theorem redisClusterCommandExecute_correlates_get :
    Correlates Hiredis.scripted { id := 1, cmd := ascii "GET k", slotNum := 3 }
      (updateScheduled
        [.string (ascii "v"), .string (ascii "i a:1 master - 0 0 1 connected 3\n")]) :=
  redisClusterCommandExecute_correlates _ _ _
    (execAt_forall (P := fun s => Apart s.1) _ 3 (by decide +kernel) (by decide +kernel))

/-- The node that carries the deferred query asks to try again. -/
def tryagainBehindQuery : World (List Reply) :=
  updateScheduled
    [.error (ascii "TRYAGAIN rehashing"), .string (ascii "i a:1 master - 0 0 1 connected 3\n"),
      .string (ascii "v"), .string (ascii "i a:1 master - 0 0 1 connected 3\n")]

/-- **The reply to the topology query is returned as the reply to the command.** -/
theorem tryagainBehindQuery_not_correlates :
    ¬ Correlates Hiredis.scripted { id := 1, cmd := ascii "GET k", slotNum := 3 }
      tryagainBehindQuery := by
  intro h
  have hidle : ∀ c, (tryagainBehindQuery.conns c).err = none →
      (tryagainBehindQuery.conns c).queue = [] := fun _ _ => rfl
  have hr : (redisClusterCommandExecute Hiredis.scripted
      { id := 1, cmd := ascii "GET k", slotNum := 3 } tryagainBehindQuery).1.map Answer.answers =
        some .clusterNodes := by decide +kernel
  obtain ⟨a, ha, hans⟩ := Option.map_eq_some_iff.mp hr
  have := (h hidle).1 a ha
  rw [hans] at this
  cases this
