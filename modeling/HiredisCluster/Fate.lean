/-
# Every accepted command is answered once

The invariants of whole runs that follow from what a single callback does: a command that
is never lost is pending on one connection or has had its callback called, and never both
(`Booked`); a command is submitted at most as often as its counter allows (`Tallied`).
-/
import HiredisCluster.Callbacks
import HiredisCluster.Reporting
import HiredisCluster.Retries

open Program

variable {ω : Type}

theorem Turn.callsOf {k : ℕ} {n : ℤ} {sub : List AConnId} {calls : List (Option Reply)}
    {w w' : World ω} (h : Turn k n sub calls w w') (j : ℕ) :
    w'.callsOf j = w.callsOf j ++ if j = k then calls else [] := by
  rw [World.callsOf, h.called, List.filter_append, List.map_append, World.callsOf]
  congr 1
  rcases eq_or_ne j k with rfl | hj
  · rw [if_pos rfl, List.filter_eq_self.mpr (by simp), List.map_map]
    exact List.map_id calls
  · simp [hj, hj.symm]

/-! ## Exactly once -/

/-- An accepted command is pending on exactly one connection and its function was not
called, or it is pending nowhere and its function, if there is one, was called exactly
once. -/
def CalledOnce (w : World ω) (k : ℕ) : Prop :=
  (w.pendingOn k).length = 1 ∧ w.callsOf k = [] ∨
    w.pendingOn k = [] ∧ ((w.cads k).callback ≠ none → (w.callsOf k).length = 1)

/-- Every accepted command is answered exactly once, and neither a `NULL` function nor a
`NULL` connection was used. -/
def ExactlyOnce (w : World ω) : Prop :=
  (∀ k ∈ w.acc.accepted, CalledOnce w k) ∧
    ∀ j, w.acc.fatal ≠ some (.nullCallback j) ∧ w.acc.fatal ≠ some (.nullConnection j)

/-- The account of the commands of the user. -/
structure Booked (w : World ω) : Prop where
  lt : ∀ k ∈ w.acc.accepted, k < w.nextCad
  balance : ∀ k ∈ w.acc.accepted, (w.pendingOn k).length + (w.callsOf k).length = 1
  others : ∀ k ∉ w.acc.accepted, w.pendingOn k = [] ∧ w.callsOf k = []
  harmless : ∀ j, w.acc.fatal ≠ some (.nullCallback j) ∧ w.acc.fatal ≠ some (.nullConnection j)

theorem Booked.exactlyOnce {w : World ω} (h : Booked w) : ExactlyOnce w := by
  refine ⟨fun k hk => ?_, h.harmless⟩
  have hb := h.balance k hk
  by_cases hp : w.pendingOn k = []
  · rw [hp] at hb
    exact Or.inr ⟨hp, fun _ => by simpa using hb⟩
  · have hpos := List.length_pos_iff.mpr hp
    refine Or.inl ⟨by omega, List.length_eq_zero_iff.mp (by omega)⟩

theorem Unharmed.harmless {w w' : World ω} (h : Unharmed w w')
    (hw : ∀ j, w.acc.fatal ≠ some (.nullCallback j) ∧ w.acc.fatal ≠ some (.nullConnection j))
    (j : ℕ) : w'.acc.fatal ≠ some (.nullCallback j) ∧ w'.acc.fatal ≠ some (.nullConnection j) := by
  rcases h with h | h
  · rw [h]
    exact hw j
  · rw [h]
    simp

theorem Booked.steady {w w' : World ω} (h : Booked w) (hs : Steady w w') : Booked w' := by
  have hcalls : ∀ k, w'.callsOf k = w.callsOf k := fun k => by
    rw [World.callsOf, hs.called]
    rfl
  refine ⟨?_, ?_, ?_, Unharmed.harmless hs.fatal h.harmless⟩
  · rw [hs.accepted, hs.cads.2]
    exact h.lt
  · rw [hs.accepted]
    intro k hk
    rw [hs.pending k, hcalls k]
    exact h.balance k hk
  · rw [hs.accepted]
    intro k hk
    rw [hs.pending k, hcalls k]
    exact h.others k hk

theorem Booked.admitted {n : ℤ} {sub : List AConnId} {w w' : World ω} (h : Booked w)
    (ha : Admitted n sub w w') (hsub : sub.length ≤ 1) : Booked w' := by
  have hcalls : ∀ k, w'.callsOf k = w.callsOf k := fun k => by
    rw [World.callsOf, ha.called]
    rfl
  have hnew : w.nextCad ∉ w.acc.accepted := fun hk => Nat.lt_irrefl _ (h.lt _ hk)
  have hmem : ∀ k, k ∈ w'.acc.accepted ↔ k ∈ w.acc.accepted ∨ k = w.nextCad ∧ sub ≠ [] := by
    intro k
    rw [ha.accepted, List.mem_append]
    refine or_congr Iff.rfl ⟨fun hk => ?_, ?_⟩
    · obtain ⟨a, ha, rfl⟩ := List.mem_map.mp hk
      exact ⟨rfl, List.ne_nil_of_mem ha⟩
    · rintro ⟨hk, hne⟩
      obtain ⟨a, ha⟩ := List.exists_mem_of_ne_nil _ hne
      exact List.mem_map.mpr ⟨a, ha, hk.symm⟩
  refine ⟨fun k hk => ?_, fun k hk => ?_, fun k hk => ?_, Unharmed.harmless ha.fatal h.harmless⟩
  · rw [ha.nextCad]
    rcases (hmem k).mp hk with hk | ⟨rfl, -⟩
    · exact Nat.lt_succ_of_lt (h.lt k hk)
    · exact Nat.lt_succ_self _
  · rw [ha.pending k, hcalls k]
    rcases (hmem k).mp hk with hk | ⟨rfl, hne⟩
    · have hne : k ≠ w.nextCad := fun h' => hnew (h' ▸ hk)
      rw [if_neg hne, List.append_nil]
      exact h.balance k hk
    · have hpos := List.length_pos_iff.mpr hne
      rw [(h.others _ hnew).1, (h.others _ hnew).2, if_pos rfl]
      show sub.length + 0 = 1
      omega
  · rw [ha.pending k, hcalls k]
    have hk' : k ∉ w.acc.accepted := fun h' => hk ((hmem k).mpr (Or.inl h'))
    refine ⟨?_, (h.others k hk').2⟩
    rw [(h.others k hk').1]
    split
    · rename_i heq
      by_contra hne
      exact hk ((hmem k).mpr (Or.inr ⟨heq, hne⟩))
    · rfl

section Runs

variable {H : Hiredis ω}

/-- The command whose callback is run is pending nowhere else. -/
theorem Booked.taken {w : World ω} (h : Booked w) {a : AConnId} {k : ℕ}
    (hk : w.oldest a = some (.user k)) : k ∈ w.acc.accepted ∧
      (takeCallback a w).2.pendingOn k = [] ∧ w.callsOf k = [] := by
  have hlen := takeCallback_pending hk k
  rw [if_pos rfl] at hlen
  have hacc : k ∈ w.acc.accepted := by
    by_contra hnot
    rw [(h.others k hnot).1] at hlen
    cases hlen
  have hb := h.balance k hacc
  exact ⟨hacc, List.length_eq_zero_iff.mp (by omega), List.length_eq_zero_iff.mp (by omega)⟩

theorem takeCallback_pending_other {a : AConnId} {k : ℕ} {w : World ω}
    (h : w.oldest a = some (.user k)) {j : ℕ} (hj : j ≠ k) :
    (takeCallback a w).2.pendingOn j = w.pendingOn j := by
  obtain ⟨before, after, hin, htake⟩ := World.oldest_split h
  have hne : ACallback.user k ≠ .user j := fun h' => by
    injection h' with h'
    exact hj h'.symm
  rw [World.pendingOn, World.pendingOn, htake, hin]
  simp [hne]

/-- A callback that does not lose its command keeps the account. -/
theorem Booked.outcome {w w' : World ω} (h : Booked w) {a : AConnId} {k : ℕ} {b : Bool}
    (hk : w.oldest a = some (.user k)) (ho : Outcome k (takeCallback a w).2 b w' true) :
    Booked w' := by
  obtain ⟨hacc, hnone, hcalls⟩ := h.taken hk
  -- what the turn of `k` must come to
  have hfinish : ∀ {n : ℤ} {sub : List AConnId} {calls : List (Option Reply)},
      Turn k n sub calls (takeCallback a w).2 w' → Unharmed (takeCallback a w).2 w' →
      sub.length + calls.length = 1 → Booked w' := by
    intro n sub calls ht hf hone
    have hacc' : w'.acc.accepted = w.acc.accepted := ht.accepted
    refine ⟨fun j hj => ?_, fun j hj => ?_, fun j hj => ?_, Unharmed.harmless hf h.harmless⟩
    · rw [ht.nextCad]
      exact h.lt j (hacc' ▸ hj)
    · rw [ht.pending j, ht.callsOf j]
      show _ + (w.callsOf j ++ _).length = 1
      rcases eq_or_ne j k with rfl | hjk
      · rw [hnone, hcalls, if_pos rfl, if_pos rfl]
        exact hone
      · rw [if_neg hjk, if_neg hjk, List.append_nil, List.append_nil,
          takeCallback_pending_other hk hjk]
        exact h.balance j (hacc' ▸ hj)
    · have hj' : j ∉ w.acc.accepted := fun h' => hj (hacc' ▸ h')
      have hjk : j ≠ k := fun h' => hj' (h' ▸ hacc)
      rw [ht.pending j, ht.callsOf j, if_neg hjk, if_neg hjk, List.append_nil, List.append_nil,
        takeCallback_pending_other hk hjk]
      exact h.others j hj'
  cases ho with
  | called ht hf _ => exact hfinish ht hf rfl
  | resubmitted ht hf _ _ => exact hfinish ht hf rfl

/-- The callbacks that are run lose no command. -/
def CallbacksSafe (H : Hiredis ω) (c : Client ω) : ClientAction → Prop
  | .deliver a reply =>
    match c.world.oldest a with
    | some (.user k) => (callbackSafe H a k reply (takeCallback a c.world).2).1 = true
    | _ => True
  | _ => True

theorem Booked.act {c : Client ω} {x : ClientAction} (h : Booked c.world)
    (hx : CallbacksSafe H c x) : Booked (act H c x).world := by
  cases act_effect H c x with
  | steady hs => exact h.steady hs
  | admits _ ha _ =>
    rcases ha with ⟨-, hs⟩ | ⟨a, ha⟩
    · exact h.steady hs
    · exact h.admitted ha (by split <;> simp)
  | delivered hk ho =>
    simp only [CallbacksSafe, hk] at hx
    rw [hx] at ho
    exact h.outcome hk ho

theorem World.Fresh.booked {w : World ω} (hw : w.Fresh) : Booked w := by
  have hp : ∀ k, w.pendingOn k = [] := fun k => by rw [World.pendingOn, hw.inflight]; rfl
  have hc : ∀ k, w.callsOf k = [] := fun k => by rw [World.callsOf, hw.called]; rfl
  refine ⟨?_, ?_, fun k _ => ⟨hp k, hc k⟩, ?_⟩
  · rw [hw.accepted]
    simp
  · rw [hw.accepted]
    simp
  · rw [hw.fatal]
    simp

/-- **Exactly-once callbacks**: in every run whose callbacks lose no command. -/
theorem exactlyOnce_of_safe {c : Client ω} (h : Reaches H (CallbacksSafe H) c) :
    ExactlyOnce c.world :=
  (Reaches.invariant H (I := fun c => Booked c.world) (fun _ hw => hw.booked)
    (fun _ _ _ hx hc => hc.act hx) h).exactlyOnce

end Runs

instance (H : Hiredis ω) (c : Client ω) : (x : ClientAction) → Decidable (CallbacksSafe H c x)
  | .deliver a reply => by
    unfold CallbacksSafe
    dsimp only
    split <;> infer_instance
  | .call _ | .connected _ | .failed _ _ | .free _ | .closed _ | .ret => isTrue trivial

/-- A client is connected asynchronously and has read a topology. -/
def asyncServe : List ClientAction :=
  asyncConnect ++ [.connected 0, .deliver 0 (some topologyOfK), .ret, .ret]

/-- `GET k` is sent and answered. -/
theorem exactlyOnce_get : ExactlyOnce (perform Hiredis.atWork (newAsyncClient [])
    (asyncServe ++ [.call (.asyncCommand (some 0) getK),
      .deliver 0 (some (.string (ascii "v")))])).world :=
  exactlyOnce_of_safe (reaches_perform Hiredis.atWork (reaches_newAsyncClient _ _ []) _
    (by decide +kernel))

/-! ### Commands that are lost -/

/-- Host `b` cannot be connected to. -/
def refusesB : Hiredis (List Reply) :=
  { Hiredis.atWork with
    asyncConnect := fun env host _ =>
      if host = ascii "b" then (.failed ⟨.io, ascii "Connection refused"⟩, env) else (.ok, env) }

/-- ASKING is not accepted. -/
def refusesAsking : Hiredis (List Reply) :=
  { Hiredis.atWork with
    submit := fun env _ q => (if q = .asking then .rejected none else .accepted, env) }

/-- `GET k` is sent, and its reply is `r`. -/
def getKReply (fn : Option ℕ) (r : Reply) : List ClientAction :=
  asyncServe ++ [.call (.asyncCommand fn getK), .deliver 0 (some r)]

/-- **A command can be lost, or the process end, in three ways**: a MOVED leads to a host
that cannot be connected to, ASKING is rejected, or there is no function to call. -/
theorem lostCommands_not_exactlyOnce :
    (Reachable refusesB (perform refusesB (newAsyncClient [])
        (getKReply (some 0) (.error (ascii "MOVED 7629 b:2")))) ∧
      ¬ ExactlyOnce (perform refusesB (newAsyncClient [])
        (getKReply (some 0) (.error (ascii "MOVED 7629 b:2")))).world) ∧
    (Reachable refusesAsking (perform refusesAsking (newAsyncClient [])
        (getKReply (some 0) (.error (ascii "ASK 7629 b:2")))) ∧
      ¬ ExactlyOnce (perform refusesAsking (newAsyncClient [])
        (getKReply (some 0) (.error (ascii "ASK 7629 b:2")))).world) ∧
    (Reachable Hiredis.atWork (perform Hiredis.atWork (newAsyncClient [])
        (getKReply none (.string (ascii "v")))) ∧
      ¬ ExactlyOnce (perform Hiredis.atWork (newAsyncClient [])
        (getKReply none (.string (ascii "v")))).world) := by
  refine ⟨⟨Reaches.perform _ (reaches_newAsyncClient _ _ []) _ (by decide +kernel), fun h => ?_⟩,
    ⟨Reaches.perform _ (reaches_newAsyncClient _ _ []) _ (by decide +kernel), fun h => ?_⟩,
    ⟨Reaches.perform _ (reaches_newAsyncClient _ _ []) _ (by decide +kernel), fun h => ?_⟩⟩
  · exact (h.2 0).2 (by decide +kernel)
  · have hlost : ∀ w : World (List Reply), ExactlyOnce w → 0 ∈ w.acc.accepted →
        w.pendingOn 0 = [] → (w.cads 0).callback ≠ none → (w.callsOf 0).length ≠ 0 := by
      intro w hw hacc hpend hfn hcalls
      rcases hw.1 0 hacc with ⟨hone, -⟩ | ⟨-, hone⟩
      · rw [hpend] at hone
        cases hone
      · rw [hone hfn] at hcalls
        cases hcalls
    exact hlost _ h (by decide +kernel) (by decide +kernel) (by decide +kernel) (by decide +kernel)
  · exact (h.2 0).1 (by decide +kernel)

/-! ## The reply that is handed out -/

/-- The user's function of `k` is called with `r` when `r` is delivered. -/
def HandsOut (H : Hiredis ω) (c : Client ω) (a : AConnId) (k : ℕ) (r : Reply) : Prop :=
  (act H c (.deliver a (some r))).world.acc.called = c.world.acc.called ++ [(k, some r)]

/-- What the user gets depends on the error that is set on the context. -/
theorem deliver_called (H : Hiredis ω) {c : Client ω} {a : AConnId} {k : ℕ} {r : Reply}
    (hk : c.world.oldest a = some (.user k)) (hfn : (c.world.cads k).callback ≠ none)
    (hr : c.world.final k r = true) : (act H c (.deliver a (some r))).world.acc.called =
      c.world.acc.called ++ [(k, if c.world.acc.err.isSome then none else some r)] := by
  have hfinal : (takeCallback a c.world).2.final k r = true := hr
  have hstep : (act H c (.deliver a (some r))).world =
      (callUser k (some r) (takeCallback a c.world).2).2 := by
    rw [act_deliver_user H (some r) hk]
    show ((if (takeCallback a c.world).2.final k r then _ else _ : Prog ω Bool) _).2 = _
    rw [if_pos hfinal]
  rw [hstep]
  exact (callUser_turn (some r) (w := (takeCallback a c.world).2) hfn).2.2.called

/-- **The user gets a reply that is not to be retried if and only if no error is set on the
context**, which any other operation may have left there. -/
theorem handsOut_iff (H : Hiredis ω) {c : Client ω} {a : AConnId} {k : ℕ} {r : Reply}
    (hk : c.world.oldest a = some (.user k)) (hfn : (c.world.cads k).callback ≠ none)
    (hr : c.world.final k r = true) : HandsOut H c a k r ↔ c.world.acc.err = none := by
  unfold HandsOut
  rw [deliver_called H hk hfn hr, List.append_cancel_left_eq]
  cases c.world.acc.err with
  | none => simp
  | some e => simp

/-- `GET k` is answered by a value. -/
theorem handsOut_iff_get :
    HandsOut Hiredis.atWork (perform Hiredis.atWork (newAsyncClient [])
      (asyncServe ++ [.call (.asyncCommand (some 0) getK)])) 0 0 (.string (ascii "v")) :=
  (handsOut_iff Hiredis.atWork (by decide +kernel) (by decide +kernel)
    (by decide +kernel)).mpr (by decide +kernel)

/-- In every run, the user gets each reply that is not to be retried. -/
def RepliesHandedOut (H : Hiredis ω) : Prop :=
  ∀ c, Reachable H c → ∀ a k r, Enabled c (.deliver a (some r)) →
    c.world.oldest a = some (.user k) → (c.world.cads k).callback ≠ none →
      c.world.final k r = true → HandsOut H c a k r

/-- **A command that is rejected spoils the reply of another**: it leaves its error on the
context, where the callback of the command before it finds it. -/
theorem rejectedCommand_spoils_reply : ¬ RepliesHandedOut Hiredis.atWork := by
  intro h
  have hreach := Reaches.perform Hiredis.atWork (reaches_newAsyncClient _ _ []) (asyncServe ++
    [.call (.asyncCommand (some 0) getK), .call (.asyncCommand (some 0) (ascii "GET"))])
    (by decide +kernel)
  have hk : (perform Hiredis.atWork (newAsyncClient []) (asyncServe ++
    [.call (.asyncCommand (some 0) getK), .call (.asyncCommand (some 0) (ascii "GET"))])).world.oldest
      0 = some (.user 0) := by decide +kernel
  have hfn : ((perform Hiredis.atWork (newAsyncClient []) (asyncServe ++
    [.call (.asyncCommand (some 0) getK), .call (.asyncCommand (some 0) (ascii "GET"))])).world.cads
      0).callback ≠ none := by decide +kernel
  have herr : (perform Hiredis.atWork (newAsyncClient []) (asyncServe ++
    [.call (.asyncCommand (some 0) getK),
      .call (.asyncCommand (some 0) (ascii "GET"))])).world.acc.err.isSome = true := by decide +kernel
  have henabled : Enabled (perform Hiredis.atWork (newAsyncClient []) (asyncServe ++
    [.call (.asyncCommand (some 0) getK), .call (.asyncCommand (some 0) (ascii "GET"))]))
      (.deliver 0 (some (.string (ascii "v")))) := by decide +kernel
  have hr : ∀ w : World (List Reply), w.final 0 (.string (ascii "v")) = true := fun w => by
    have herr : clusterReplyErrorType (.string (ascii "v")) = .notErr := rfl
    simp [World.final, herr]
  have hout := h _ hreach 0 0 _ henabled hk hfn (hr _)
  rw [HandsOut, deliver_called Hiredis.atWork hk hfn (hr _), herr, List.append_cancel_left_eq] at hout
  simp at hout
