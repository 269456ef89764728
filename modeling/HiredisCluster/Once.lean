/-
# A command is executed at most once

Redirects and transient errors make the command loop send its command again, and they are
the replies of servers that did not execute it.  Here it is shown that the loop does not
send it again for any other reason: at every moment of a run all transmissions of the command
but the last one were refused.  A reply that is returned was read for the command, and is not
a refusal.

The replies must answer what they are read for, so the loop has to stay away from the
connection of a deferred topology query (`Apart`).
-/
import HiredisCluster.Correlation
import HiredisCluster.Retries

open Program

variable {ω : Type}

/-! ## Transmissions and refusals -/

/-- A reply of a server that has not executed the command: a redirect, or a transient error. -/
def Reply.refuses (r : Reply) : Bool :=
  match clusterReplyErrorType r with
  | .notErr => false
  | .sentinel => false
  | _ => true

/-- A transmission of `q` was refused. -/
def Event.refused (q : Sent) : Event → Bool
  | .read _ awaited answered r => decide (awaited = q ∧ answered = q) && r.refuses
  | _ => false

/-- All transmissions of the user's commands were refused. -/
def Repelled (q : Sent) (events : List Event) : Prop :=
  events.countP Event.writesCommand ≤ events.countP (Event.refused q)

/-- At no time was there more than one transmission that was not refused. -/
def OneAtATime (q : Sent) (events : List Event) : Prop :=
  ∀ p, p <+: events → p.countP Event.writesCommand ≤ p.countP (Event.refused q) + 1

section Events

variable {q : Sent} {l l' : List Event}

theorem repelled_nil : Repelled q [] := Nat.le_refl 0

theorem oneAtATime_nil : OneAtATime q [] := by
  intro p hp
  rw [List.prefix_nil.mp hp]
  exact Nat.zero_le _

theorem countP_unsent (h : ∀ e ∈ l', e.writesCommand = false) :
    l'.countP Event.writesCommand = 0 := by
  rw [List.countP_eq_zero]
  intro e he
  rw [h e he]
  exact Bool.false_ne_true

theorem Repelled.unsent (h : Repelled q l) (hno : ∀ e ∈ l', e.writesCommand = false) :
    Repelled q (l ++ l') := by
  unfold Repelled at h ⊢
  rw [List.countP_append, List.countP_append, countP_unsent hno]
  omega

/-- Nothing is sent. -/
theorem OneAtATime.unsent (h : OneAtATime q l) (hno : ∀ e ∈ l', e.writesCommand = false) :
    OneAtATime q (l ++ l') := by
  intro p hp
  rcases List.prefix_or_prefix_of_prefix hp (List.prefix_append l l') with hle | hge
  · exact h p hle
  · -- beyond `l` only refusals are added
    obtain ⟨p', rfl⟩ := hge
    have hp' : p' <+: l' := (List.prefix_append_right_inj l).mp hp
    have hzero := countP_unsent fun e he => hno e (hp'.subset he)
    have hl := h l (List.prefix_refl l)
    rw [List.countP_append, List.countP_append, hzero]
    omega

/-- One command is sent when all before it were refused. -/
theorem OneAtATime.sent (h : OneAtATime q l) (hrep : Repelled q l) (e : Event) :
    OneAtATime q (l ++ [e]) := by
  intro p hp
  rcases List.prefix_concat_iff.mp hp with rfl | hle
  · unfold Repelled at hrep
    rw [List.countP_append, List.countP_append, List.countP_singleton]
    split <;> omega
  · exact h p hle

/-- The transmission that was out is refused. -/
theorem OneAtATime.refused (h : OneAtATime q l) {e : Event} (he : e.refused q = true) :
    Repelled q (l ++ [e]) := by
  have hl := h l (List.prefix_refl l)
  have hno : e.writesCommand = false := by
    cases e with
    | read c q₁ q₂ r => rfl
    | _ => exact absurd he Bool.false_ne_true
  unfold Repelled
  rw [List.countP_append, List.countP_append, List.countP_singleton, List.countP_singleton,
    he, hno]
  simp only [Bool.false_eq_true, if_false, if_true]
  omega

end Events

/-! ## Between two transmissions -/

/-- No command is sent. -/
def Unsent (w w' : World ω) : Prop :=
  ∃ new, w'.trace = w.trace ++ new ∧ ∀ e ∈ new, e.writesCommand = false

theorem unsent_of_trace {w w' : World ω} (h : w'.trace = w.trace) : Unsent w w' :=
  ⟨[], by rw [h, List.append_nil], fun _ he => by cases he⟩

theorem Unsent.trans {w w' w'' : World ω} (h : Unsent w w') (h' : Unsent w' w'') :
    Unsent w w'' := by
  obtain ⟨new, hnew, hno⟩ := h
  obtain ⟨new', hnew', hno'⟩ := h'
  refine ⟨new ++ new', by rw [hnew', hnew, List.append_assoc], fun e he => ?_⟩
  rcases List.mem_append.mp he with he | he
  · exact hno e he
  · exact hno' e he

instance : Std.Refl (@Unsent ω) := ⟨fun _ => unsent_of_trace rfl⟩

instance : IsTrans (World ω) Unsent := ⟨fun _ _ _ => Unsent.trans⟩

theorem unsent_one {w w' : World ω} {e : Event} (h : w'.trace = w.trace ++ [e])
    (he : e.writesCommand = false) : Unsent w w' := by
  refine ⟨[e], h, fun e' he' => ?_⟩
  rw [List.mem_singleton.mp he']
  exact he

theorem unsent_record {e : Event} (he : e.writesCommand = false) :
    Within Unsent (record e : Prog ω Unit) := fun _ => unsent_one rfl he

theorem unsent_detachAsync (a : Option AConnId) : Within Unsent (detachAsync a : Prog ω Unit) := by
  cases a with
  | none => exact within_pure _
  | some a => exact fun _ => unsent_of_trace rfl

instance : LoopClosed (@Unsent ω) where
  ask _ _ := unsent_of_trace rfl
  modifyConn _ _ _ := unsent_of_trace rfl
  newConn _ _ _ _ := unsent_of_trace rfl
  setError _ _ _ := unsent_of_trace rfl
  wroteOwn _ _ hq := unsent_record hq
  read _ _ _ _ := unsent_record rfl
  closed _ := unsent_record rfl
  userHook := within_bind within_get fun _ => unsent_record rfl
  looked _ _ := unsent_record rfl
  deferred _ _ := unsent_record rfl

instance : ParseClosed (@Unsent ω) where
  setError _ _ _ := unsent_of_trace rfl
  redisFree := within_redisFree
  detachAsync := unsent_detachAsync
  released _ := unsent_record rfl
  newNode _ _ := unsent_of_trace rfl
  editNode _ _ _ _ := unsent_of_trace rfl

instance : UpdateClosed (@Unsent ω) where
  modifyCc _ _ := unsent_of_trace rfl
  modifyNode _ _ _ := unsent_of_trace rfl
  relinkAsync a _ := by
    cases a with
    | none => exact within_pure _
    | some a => exact fun _ => unsent_of_trace rfl
  stored _ _ := unsent_record rfl

instance (H : Hiredis ω) : CallClosed H (@Unsent ω) where
  ctxGetByNode := within_ctxGetByNode H
  updateSlotmap := within_redisClusterUpdateSlotmap H (within_clusterUpdateRouteHandleReply H)
  handleReply := within_clusterUpdateRouteHandleReply H

/-! ## The steps -/

/-- The loop has stopped trying. -/
def Exec.ended (e : Exec) : Prop :=
  match e.pc with
  | .done _ => True
  | .ret _ => True
  | _ => False

/-- What holds between the steps of a loop for `q` that was entered in `w₀`. -/
def Once (q : Sent) (w₀ : World ω) (e : Exec) (w : World ω) : Prop :=
  ∃ new, w.trace = w₀.trace ++ new ∧ OneAtATime q new ∧ (¬ e.ended → Repelled q new) ∧
    ∀ a, e.answer = some a → a.reply.refuses = false ∧ ∃ c, .read c q q a.reply ∈ new

/-- A step that sends nothing and has no answer. -/
def SendsNothing (w : World ω) (e : Exec) (w' : World ω) : Prop := Unsent w w' ∧ e.answer = none

section Steps

variable (H : Hiredis ω) {cmd : Cmd} {q : Sent} {w₀ w : World ω}

/-- The answer, if there is one, is the one there was. -/
theorem Once.unsent {e e' : Exec} {w' : World ω} (h : Once q w₀ e w) (hw : Unsent w w')
    (hended : ¬ e'.ended → ¬ e.ended) (hans : ∀ a, e'.answer = some a → e.answer = some a) :
    Once q w₀ e' w' := by
  obtain ⟨new, htrace, hone, hrep, ha⟩ := h
  obtain ⟨more, hmore, hno⟩ := hw
  refine ⟨new ++ more, ?_, hone.unsent hno, ?_, ?_⟩
  · rw [hmore, htrace, List.append_assoc]
  · intro he
    exact (hrep (hended he)).unsent hno
  · intro a he
    obtain ⟨hr, c, hc⟩ := ha a (hans a he)
    exact ⟨hr, c, List.mem_append_left more hc⟩

theorem Once.sendsNothing {e e' : Exec} {w' : World ω} (h : Once q w₀ e w) (ho : SendsNothing w e' w')
    (he : ¬ e.ended) : Once q w₀ e' w' := by
  apply h.unsent ho.1
  · exact fun _ => he
  · intro a ha
    rw [ho.2] at ha
    cases ha

theorem sendsNothing_done {w' : World ω} {u : Option ConnId} (h : Unsent w w') :
    SendsNothing w ⟨.done none, u⟩ w' := ⟨h, rfl⟩

/-- A redirect is followed, or the loop gives up; nothing is sent. -/
theorem execRedirect_sendsNothing (c : ConnId) (u : Option ConnId) (type : ErrorType) (str : Bytes)
    (w : World ω) : wp (execRedirect c u type str) (fun e w' => SendsNothing w e w') w := by
  unfold execRedirect
  rw [wp_bind, wp_modifyCc, wp_bind, wp_get]
  generalize hw₁ : ({ w with cc := { w.cc with retryCount := w.cc.retryCount + 1 } } :
    World ω) = w₁
  have h₁ : Unsent w w₁ := by
    rw [← hw₁]
    exact unsent_of_trace rfl
  split
  · exact sendsNothing_done h₁
  · split
    · rw [wp_bind]
      refine wp_mono (Within.wp (R := Unsent) (within_handleMoved str) w₁) fun r w₂ h₂ => ?_
      cases r with
      | none => exact sendsNothing_done (h₁.trans h₂)
      | some n => exact ⟨h₁.trans h₂, rfl⟩
    · rw [wp_bind]
      refine wp_mono (Within.wp (R := Unsent) (within_handleAsk str) w₁) fun r w₂ h₂ => ?_
      cases r with
      | none => exact sendsNothing_done (h₁.trans h₂)
      | some n => exact ⟨h₁.trans h₂, rfl⟩
    · exact ⟨h₁, rfl⟩

theorem execMoved_answer (n : NodeId) (c : ConnId) (u : Option ConnId) (w : World ω) :
    wp (execMoved H n c u) (fun e _ => e.answer = none) w := by
  unfold execMoved
  cases u with
  | some c' => exact rfl
  | none =>
    dsimp only
    rw [wp_bind]
    refine wp_mono (Within.wp (R := Unsent) (within_clusterUpdateRouteSendCommand H c) w)
      fun s w₁ _ => ?_
    cases s with
    | ok => exact rfl
    | err =>
      dsimp only
      rw [wp_bind]
      refine wp_mono (Within.wp (R := Unsent) (CallClosed.updateSlotmap (H := H)) w₁)
        fun s w₂ _ => ?_
      cases s with
      | ok => exact rfl
      | err => exact rfl

theorem execAsking_answer (c : ConnId) (u : Option ConnId) (w : World ω) :
    wp (execAsking H c u) (fun e _ => e.answer = none) w := by
  unfold execAsking
  rw [wp_bind]
  refine wp_mono (Within.wp (R := Unsent) (within_redisCommand H c rfl) w) fun r w₁ _ => ?_
  cases r with
  | none => exact rfl
  | some a => exact rfl

theorem redisAppendCommand_trace (c : ConnId) (w : World ω) :
    wp (redisAppendCommand H c q) (fun s w' =>
      match s with
      | .ok => w'.trace = w.trace ++ [.wrote c q]
      | .err => w'.trace = w.trace) w := by
  unfold redisAppendCommand
  rw [wp_bind, wp_get, wp_bind, wp_ask]
  split
  · exact rfl
  · exact rfl

/-- The reply that was read for the command: the transmission that was out is refused, or
the reply is the answer. -/
theorem execReply_once {c : ConnId} {u : Option ConnId} {a : Answer} {new : List Event}
    (htrace : w.trace = w₀.trace ++ (new ++ [.read c q a.answers a.reply]))
    (hone : OneAtATime q new) :
    wp (execReply c u a) (fun e w' => Matches w₀ w' → Once q w₀ e w') w := by
  have hone' : OneAtATime q (new ++ [.read c q a.answers a.reply]) := by
    apply hone.unsent
    simp [Event.writesCommand]
  -- what was matched by the end was matched when it was read
  have hanswers : ∀ w', Unsent w w' → Matches w₀ w' → a.answers = q := by
    rintro w' ⟨more, hmore, -⟩ ⟨all, hall, hm⟩
    rw [hmore, htrace, List.append_assoc, List.append_cancel_left_eq] at hall
    have hmem : Event.read c q a.answers a.reply ∈ all := by
      rw [← hall]
      simp
    exact (hm _ hmem).symm
  have hend : a.reply.refuses = false → ∀ u, Matches w₀ w → Once q w₀ ⟨.done (some a), u⟩ w := by
    intro href u hm
    refine ⟨_, htrace, hone', fun he => absurd trivial he, fun a' ha' => ?_⟩
    obtain rfl := Option.some.inj ha'
    have heq := hanswers w (Std.Refl.refl w) hm
    refine ⟨href, c, ?_⟩
    rw [heq]
    simp
  unfold execReply
  split
  · rename_i htype
    exact hend (by rw [Reply.refuses, htype]) u
  · rename_i htype
    exact hend (by rw [Reply.refuses, htype]) u
  · rename_i hnot hsent
    refine wp_mono (execRedirect_sendsNothing c u _ _ w) fun e w' ho hm => ?_
    have heq := hanswers w' ho.1 hm
    have href : a.reply.refuses = true := by
      unfold Reply.refuses
      split
      · exact absurd ‹_› hnot
      · exact absurd ‹_› hsent
      · rfl
    have hrep : Repelled q (new ++ [.read c q a.answers a.reply]) := by
      apply hone.refused
      simp [Event.refused, heq, href]
    obtain ⟨more, hmore, hno⟩ := ho.1
    refine ⟨_ ++ more, ?_, hone'.unsent hno, fun _ => hrep.unsent hno, fun a' ha' => ?_⟩
    · rw [hmore, htrace, List.append_assoc]
    · rw [ho.2] at ha'
      cases ha'

/-- **The command is sent when all transmissions before were refused.** -/
theorem execSend_once {c : ConnId} {u : Option ConnId}
    (h : Once (.command cmd.id cmd.cmd) w₀ ⟨.send c, u⟩ w) :
    wp (execSend H cmd c u) (fun e w' =>
      Matches w₀ w' → Once (.command cmd.id cmd.cmd) w₀ e w') w := by
  obtain ⟨new, htrace, hone, hrep, -⟩ := h
  have hrep := hrep fun he => he
  unfold execSend
  rw [wp_bind]
  refine wp_mono (redisAppendCommand_trace H c w) fun s w₁ h₁ => ?_
  cases s with
  | err =>
    -- nothing was written, and the loop gives up
    dsimp only
    rw [wp_bind]
    refine wp_mono (Within.wp (R := Unsent) (within_copyError c) w₁) fun _ w₂ h₂ _ => ?_
    obtain ⟨more, hmore, hno⟩ := (unsent_of_trace h₁).trans h₂
    refine ⟨new ++ more, ?_, hone.unsent hno, fun he => absurd trivial he, fun a ha => by cases ha⟩
    show w₂.trace = _
    rw [hmore, htrace, List.append_assoc]
  | ok =>
    have hsent := hone.sent hrep (.wrote c (.command cmd.id cmd.cmd))
    dsimp only
    rw [wp_bind]
    refine wp_mono (Within.wp (R := Unsent) (within_pipelineUpdate H c u) w₁) fun u' w₂ h₂ => ?_
    obtain ⟨more, hmore, hno⟩ := h₂
    have hone₂ := hsent.unsent hno
    rw [wp_bind]
    refine wp_mono (redisGetReply_conns H c _ w₂) fun r w₃ hr => ?_
    obtain ⟨-, hr⟩ := hr
    cases r with
    | none =>
      unfold execReadFailed
      dsimp only
      rw [wp_bind]
      refine wp_mono (Within.wp (R := Unsent) (within_copyError c) w₃) fun _ w₄ h₄ => ?_
      have hend : ∀ w', w'.trace = w₄.trace →
          Once (.command cmd.id cmd.cmd) w₀ ⟨.done none, u'⟩ w' := by
        intro w' hw'
        obtain ⟨more', hmore', hno'⟩ := h₄
        refine ⟨_, ?_, hone₂.unsent hno', fun he => absurd trivial he, fun a ha => by cases ha⟩
        rw [hw', hmore', hr.2, hmore, h₁, htrace]
        simp only [List.append_assoc]
      rw [wp_bind, wp_get]
      split
      · exact fun _ => hend w₄ rfl
      · exact fun _ => hend _ rfl
    | some a =>
      obtain ⟨-, rest, -, -, hread⟩ := hr
      refine execReply_once ?_ hone₂
      rw [hread, hmore, h₁, htrace]
      simp only [List.append_assoc]

/-- Each step keeps the command to one transmission at a time. -/
theorem execStep_once {e : Exec} (h : Once (.command cmd.id cmd.cmd) w₀ e w) :
    wp (execStep H cmd e) (fun e' w' =>
      Matches w₀ w' → Once (.command cmd.id cmd.cmd) w₀ e' w') w := by
  have hnothing : ∀ {m : Prog ω Exec}, ¬ e.ended → Within Unsent m →
      wp m (fun e' _ => e'.answer = none) w →
      wp m (fun e' w' => Matches w₀ w' → Once (.command cmd.id cmd.cmd) w₀ e' w') w := by
    intro m he hm hans
    exact wp_mono (wp_and (hm.wp w) hans) fun e' w' ho _ => h.sendsNothing ho he
  obtain ⟨pc, u⟩ := e
  cases pc with
  | retry =>
    apply hnothing (fun he => he) (within_execRetry H cmd u)
    refine wp_mono (execRetry_next H cmd u w) fun e' w' hn => ?_
    obtain ⟨-, -, hpc | ⟨c, hpc⟩⟩ := hn
    · rw [Exec.answer, hpc]
    · rw [Exec.answer, hpc]
  | send c => exact execSend_once H h
  | moved n c =>
    apply hnothing (fun he => he) (within_execMoved H n c u)
    exact execMoved_answer H n c u w
  | follow n ask =>
    apply hnothing (fun he => he) (within_connectOrFail H n _ u)
    refine wp_mono (connectOrFail_next H n _ u w) fun e' w' hn => ?_
    obtain ⟨-, -, hpc | ⟨c, hpc⟩⟩ := hn
    · rw [Exec.answer, hpc]
    · cases ask with
      | true => simp [Exec.answer, hpc]
      | false => simp [Exec.answer, hpc]
  | asking c =>
    apply hnothing (fun he => he) (within_execAsking H c u)
    exact execAsking_answer H c u w
  | done r =>
    refine wp_mono (wp_and (Within.wp (R := Unsent) (within_execDone H r u) w)
      (execDone_returns H r u w)) fun e' w' hn _ => ?_
    obtain ⟨hw, -, hpc⟩ := hn
    rcases hpc with hpc | hpc
    · apply h.unsent hw
      · intro he
        simp [Exec.ended, hpc] at he
      · intro a ha
        simpa [Exec.answer, hpc] using ha
    · apply h.unsent hw
      · intro he
        simp [Exec.ended, hpc] at he
      · intro a ha
        simp [Exec.answer, hpc] at ha
  | ret r => exact fun _ => h

/-! ## The whole run -/

theorem once_start (q : Sent) (w : World ω) : Once q w execStart w := by
  refine ⟨[], (List.append_nil _).symm, oneAtATime_nil, fun _ => repelled_nil, ?_⟩
  intro a ha
  cases ha

/-- A transmission of the command is followed by another one only after a server refused it;
and a reply that is returned was read for the command, and refuses nothing. -/
def AtMostOnce (cmd : Cmd) (w : World ω) : Prop :=
  wp (redisClusterCommandExecute H cmd) (fun r w' =>
    ∃ new, w'.trace = w.trace ++ new ∧ OneAtATime (.command cmd.id cmd.cmd) new ∧
      ∀ a, r = some a → a.reply.refuses = false ∧
        ∃ c, .read c (.command cmd.id cmd.cmd) (.command cmd.id cmd.cmd) a.reply ∈ new) w

/-- **At most once**, in a run that stays away from the connection of a deferred topology
query. -/
theorem redisClusterCommandExecute_atMostOnce (cmd : Cmd) (w : World ω)
    (hidle : ∀ c, (w.conns c).err = none → (w.conns c).queue = [])
    (hapart : ∀ k, Apart (execAt H cmd w k).1) : AtMostOnce H cmd w := by
  have hstart : Correlated cmd w execStart w :=
    ⟨rfl, Matches.refl w, (fun a ha => by cases ha), clean_none_iff.mpr hidle⟩
  have hrun := Machine.iterate_guarded (f := execNext H cmd)
    (I := fun s => Correlated cmd w s.1 s.2 ∧ Once (.command cmd.id cmd.cmd) w s.1 s.2)
    (G := fun s => Apart s.1)
    (fun s hs hI => by
      have hc := execStep_correlated H hI.1 hs
      exact ⟨hc, execStep_once H hI.2 hc.matched⟩)
    hapart ⟨hstart, once_start _ w⟩ (execFuel w)
  change _ ∧ Once _ w (execAt H cmd w (execFuel w)).1 (execAt H cmd w (execFuel w)).2 at hrun
  obtain ⟨-, new, htrace, hone, -, hans⟩ := hrun
  obtain ⟨r, hr⟩ := execAt_returned H cmd w
  refine ⟨new, htrace, hone, fun a ha => hans a ?_⟩
  simp only [redisClusterCommandExecute, Exec.result, hr] at ha
  simp only [Exec.answer, hr, ha]

end Steps

/-- The node serving the slot sends the command to another one, which executes it. -/
def sentOnward : World (List Reply) :=
  singleNode [.error (ascii "MOVED 3 b:2"), .string (ascii "v"),
    .string (ascii "i b:2 master - 0 0 1 connected 3\n")]

/-- The command is sent twice, and executed once. -/
theorem sentOnward_atMostOnce :
    AtMostOnce Hiredis.scripted { id := 1, cmd := ascii "GET k", slotNum := 3 } sentOnward ∧
      (redisClusterCommandExecute Hiredis.scripted
        { id := 1, cmd := ascii "GET k", slotNum := 3 } sentOnward).2.written = 2 :=
  ⟨redisClusterCommandExecute_atMostOnce _ _ _ (fun _ _ => rfl)
    (execAt_forall (P := fun s => Apart s.1) _ 6 (by decide +kernel) (by decide +kernel)),
    by decide +kernel⟩
