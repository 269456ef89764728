/-
# The fate of an asynchronous command

A command that hiredis accepted is pending on one connection until its callback is run;
the callback then calls the user's function, or submits the command again, or loses it.
`callbackSafe` says from the state before the callback, and from what hiredis answers,
that it is not lost: the function to be called is not `NULL`, the destination of a MOVED
can be connected to, and ASKING and the resubmission are accepted.
-/
import HiredisCluster.Client

open Program

variable {ω : Type}

/-- What happens to the command of `k`: it is submitted to `sub`, the user's function is
called with the replies `calls`, and its counter becomes `n`.  Other commands stay as they
are. -/
structure Turn (k : ℕ) (n : ℤ) (sub : List AConnId) (calls : List (Option Reply))
    (w w' : World ω) : Prop where
  ordered : Ordered w → Ordered w'
  limit : w'.cc.maxRetryCount = w.cc.maxRetryCount
  retryCount : 0 ≤ w.cc.retryCount → 0 ≤ w'.cc.retryCount
  cads : w'.cads = Function.update w.cads k { w.cads k with retryCount := n }
  nextCad : w'.nextCad = w.nextCad
  pending : ∀ j, w'.pendingOn j = w.pendingOn j ++ if j = k then sub else []
  sent : ∀ j, w'.timesSent j = w.timesSent j + if j = k then sub.length else 0
  called : w'.acc.called = w.acc.called ++ calls.map fun r => (k, r)
  accepted : w'.acc.accepted = w.acc.accepted

/-- Nothing but an empty dictionary may have ended the process meanwhile. -/
def Unharmed (w w' : World ω) : Prop :=
  w'.acc.fatal = w.acc.fatal ∨ w'.acc.fatal = some .emptyNodes

theorem Unharmed.trans {w w' w'' : World ω} (h : Unharmed w w') (h' : Unharmed w' w'') :
    Unharmed w w'' := by
  rcases h' with h' | h'
  · unfold Unharmed
    rw [h']
    exact h
  · exact Or.inr h'

theorem Steady.turn {w w' : World ω} (h : Steady w w') (k : ℕ) :
    Turn k (w.cads k).retryCount [] [] w w' where
  ordered := h.ordered
  limit := h.limit
  retryCount := h.retryCount
  cads := by rw [h.cads.1, Function.update_eq_self]
  nextCad := h.cads.2
  pending j := by rw [h.pending j, ite_self, List.append_nil]
  sent j := by rw [h.sent j]; simp
  called := by rw [h.called]; simp
  accepted := h.accepted

theorem Turn.trans {k : ℕ} {n n' : ℤ} {sub sub' : List AConnId} {calls calls' : List (Option Reply)}
    {w w' w'' : World ω} (h : Turn k n sub calls w w') (h' : Turn k n' sub' calls' w' w'') :
    Turn k n' (sub ++ sub') (calls ++ calls') w w'' where
  ordered ho := h'.ordered (h.ordered ho)
  limit := h'.limit.trans h.limit
  retryCount h0 := h'.retryCount (h.retryCount h0)
  cads := by rw [h'.cads, h.cads, Function.update_self, Function.update_idem]
  nextCad := h'.nextCad.trans h.nextCad
  pending j := by
    rw [h'.pending j, h.pending j]
    split <;> simp
  sent j := by
    rw [h'.sent j, h.sent j]
    split
    · rw [List.length_append]
      omega
    · rfl
  called := by rw [h'.called, h.called]; simp
  accepted := h'.accepted.trans h.accepted

theorem Turn.counter {k : ℕ} {n : ℤ} {sub : List AConnId} {calls : List (Option Reply)}
    {w w' : World ω} (h : Turn k n sub calls w w') : (w'.cads k).retryCount = n := by
  rw [h.cads, Function.update_self]

theorem Turn.callback {k : ℕ} {n : ℤ} {sub : List AConnId} {calls : List (Option Reply)}
    {w w' : World ω} (h : Turn k n sub calls w w') (j : ℕ) :
    (w'.cads j).callback = (w.cads j).callback := by
  rw [h.cads]
  rcases eq_or_ne j k with rfl | hj
  · rw [Function.update_self]
  · rw [Function.update_of_ne hj]

/-! ## How a callback ends -/

/-- How the callback of `k` ends: whether it called the user's function, and whether the
command is safe.  It is submitted again only if `P` holds. -/
inductive Ending (k : ℕ) (P : Prop) (w : World ω) : Bool → World ω → Bool → Prop where
  | called {w' : World ω} {r : Option Reply} (h : Turn k (w.cads k).retryCount [] [r] w w')
      (hf : Unharmed w w') : Ending k P w true w' true
  | resubmitted {w' : World ω} {a : AConnId} (h : Turn k (w.cads k).retryCount [a] [] w w')
      (hf : Unharmed w w') (hP : P) : Ending k P w false w' true
  | lost {w' : World ω} (h : Turn k (w.cads k).retryCount [] [] w w') : Ending k P w false w' false

theorem Ending.after_steady {k : ℕ} {P : Prop} {w w₁ w' : World ω} {b safe : Bool}
    (hs : Steady w w₁) (h : Ending k P w₁ b w' safe) : Ending k P w b w' safe := by
  have ht := hs.turn k
  have hcount := ht.counter
  cases h with
  | called h hf =>
    rw [hcount] at h
    exact .called (ht.trans h) (Unharmed.trans hs.fatal hf)
  | resubmitted h hf hP =>
    rw [hcount] at h
    exact .resubmitted (ht.trans h) (Unharmed.trans hs.fatal hf) hP
  | lost h =>
    rw [hcount] at h
    exact .lost (ht.trans h)

/-- The user's function is not `NULL`. -/
def hasCallback (k : ℕ) : Prog ω Bool := do
  let w ← get
  pure (w.cads k).callback.isSome

/-- An end of the process leaves all commands as they are. -/
theorem turn_abort (k : ℕ) (f : Fatal) (w : World ω) :
    Turn k (w.cads k).retryCount [] [] w (abort f w).2 where
  ordered ho := ho.of_async rfl rfl rfl rfl rfl
  limit := rfl
  retryCount := id
  cads := (Function.update_eq_self k w.cads).symm
  nextCad := rfl
  pending j := by rw [ite_self, List.append_nil]; rfl
  sent j := by rw [List.length_nil, ite_self]; rfl
  called := (List.append_nil _).symm
  accepted := rfl

theorem callUser_turn {k : ℕ} (r : Option Reply) {w : World ω} (hfn : (w.cads k).callback ≠ none) :
    wp (callUser k r) (fun b w' => b = true ∧ w'.acc.fatal = w.acc.fatal ∧
      Turn k (w.cads k).retryCount [] [if w.acc.err.isSome then none else r] w w') w := by
  unfold callUser
  rw [wp_bind, wp_get]
  split
  · rename_i hnone
    exact absurd hnone hfn
  · refine ⟨rfl, rfl, ?_⟩
    have hmid : Ordered w → Ordered (userHook (modifyAcc (fun acc =>
        { acc with called := acc.called ++ [(k, if acc.err.isSome then none else r)] }) w).2).2 :=
      fun ho => (keeps_of_steady (steady_of_lawful TalkClosed.userHook)) _
        (ho.of_async rfl rfl rfl rfl rfl)
    exact ⟨hmid, rfl, id, (Function.update_eq_self k w.cads).symm, rfl,
      fun j => by rw [ite_self, List.append_nil]; rfl,
      fun j => by rw [List.length_nil, ite_self]; rfl, rfl, rfl⟩

/-- Calling the user's function is safe if there is one. -/
theorem callUser_ending (k : ℕ) (P : Prop) (r : Option Reply) (w : World ω) :
    Ending k P w (callUser k r w).1 (callUser k r w).2 (w.cads k).callback.isSome := by
  cases hfn : (w.cads k).callback with
  | none =>
    have hcall : wp (callUser k r)
        (fun b w' => b = false ∧ w' = (abort (.nullCallback k) w).2) w := by
      unfold callUser
      rw [wp_bind, wp_get, hfn]
      exact ⟨rfl, rfl⟩
    obtain ⟨hb, hw⟩ := hcall
    rw [hb, hw]
    exact .lost (turn_abort k _ w)
  | some fn =>
    have h := callUser_turn r (w := w) (k := k) (by rw [hfn]; simp)
    obtain ⟨hb, hf, ht⟩ := h
    rw [hb]
    exact .called ht (Or.inl hf)

/-- The user's function is called after something that leaves the commands alone. -/
theorem steadyCallUser_ending {α : Type} {m : Prog ω α} (hm : Within Steady m) (k : ℕ) (P : Prop)
    (r : Option Reply) (w : World ω) :
    alongside (do let _ ← m; callUser k r) (hasCallback k) (Ending k P w) w := by
  have hs := hm w
  have h := (callUser_ending k P r (m w).2).after_steady hs
  rw [(hs.turn k).callback k] at h
  exact h

section Safety

variable (H : Hiredis ω)

/-- hiredis accepts the command of `k` on connection `a`. -/
def accepts (k : ℕ) (a : AConnId) : Prog ω Bool := do
  let w ← get
  let s ← redisAsyncCommand H a (.user k)
    (.command (w.cads k).command.id (w.cads k).command.cmd)
  pure (decide (s = .ok))

/-- A MOVED is followed. -/
def movedSafe (a : AConnId) (k : ℕ) (r : Reply) : Prog ω Bool := do
  throttledUpdateSlotMapAsync H (some a)
  match ← handleMoved r.text with
  | none => hasCallback k
  | some n =>
    match ← actxGetByNode H n with
    | none => pure false
    | some a' => accepts H k a'

/-- An ASK is followed. -/
def askSafe (k : ℕ) (r : Reply) : Prog ω Bool := do
  match ← handleAsk r.text with
  | none => hasCallback k
  | some n =>
    match ← actxGetByNode H n with
    | none => hasCallback k
    | some a =>
      match ← redisAsyncCommand H a .null .asking with
      | .err => pure false
      | .ok => accepts H k a

/-- A redirect or a transient error is followed. -/
def redirectSafe (a : AConnId) (k : ℕ) (type : ErrorType) (r : Reply) : Prog ω Bool := do
  modifyCad k fun cad => { cad with retryCount := cad.retryCount + 1 }
  let w ← get
  if w.cc.maxRetryCount < (w.cads k).retryCount then hasCallback k
  else
    match type with
    | .moved => movedSafe H a k r
    | .ask => askSafe H k r
    | _ => accepts H k a

/-- The command of `k` is not lost by `redisClusterAsyncCallback`. -/
def callbackSafe (a : AConnId) (k : ℕ) (reply : Option Reply) : Prog ω Bool :=
  match reply with
  | none => hasCallback k
  | some r => do
    let w ← get
    if w.final k r then hasCallback k
    else redirectSafe H a k (clusterReplyErrorType r) r

/-- Submitting a command of the user: it is pending if and only if it was accepted. -/
theorem redisAsyncCommand_turn (a : AConnId) (k : ℕ) (q : Sent) (w : World ω) :
    wp (redisAsyncCommand H a (.user k) q) (fun s w' => w'.acc.fatal = w.acc.fatal ∧
      Turn k (w.cads k).retryCount (if s = .ok then [a] else []) [] w w') w := by
  have hcount : ∀ j s, (w.acc.handed ++ [(ACallback.user k, s)]).count (.user j, .ok) =
      w.timesSent j + if j = k then (if s = Status.ok then [a] else []).length else 0 := by
    intro j s
    rw [List.count_append, List.count_singleton, World.timesSent]
    rcases eq_or_ne j k with rfl | hj
    · cases s <;> simp
    · have hne : (ACallback.user k, s) ≠ (.user j, .ok) := fun h => by
        injection h with h _
        injection h with h
        exact hj h.symm
      simp [hne, hj]
  have hpend : ∀ j, ((w.inflight ++ [(a, ACallback.user k)]).filter fun p => p.2 = .user j).map
      Prod.fst = w.pendingOn j ++ if j = k then [a] else [] := by
    intro j
    rw [List.filter_append, List.map_append, World.pendingOn]
    rcases eq_or_ne j k with rfl | hj
    · simp
    · have hne : ACallback.user k ≠ .user j := fun h => by
        injection h with h
        exact hj h.symm
      simp [hne, hj]
  refine wp_mono (redisAsyncCommand_cases H a (.user k) q w) fun s w' h => ?_
  rcases h with ⟨rfl, e, f, rfl⟩ | ⟨rfl, e, rfl⟩
  · refine ⟨rfl, fun ho => ho.of_async rfl rfl rfl rfl rfl, rfl, id,
      (Function.update_eq_self k w.cads).symm, rfl, fun j => ?_, fun j => hcount j .err,
      (List.append_nil _).symm, rfl⟩
    show w.pendingOn j = w.pendingOn j ++ if j = k then [] else []
    rw [ite_self, List.append_nil]
  · exact ⟨rfl, fun ho => ho.of_async rfl rfl rfl rfl rfl, rfl, id,
      (Function.update_eq_self k w.cads).symm, rfl, hpend, fun j => hcount j .ok,
      (List.append_nil _).symm, rfl⟩

section Redirects

variable {P : Prop} (hP : P)
include hP

theorem resubmit_ending (k : ℕ) (a : AConnId) (w : World ω) :
    alongside (resubmit H k a) (accepts H k a) (Ending k P w) w := by
  have h := redisAsyncCommand_turn H a k
    (.command (w.cads k).command.id (w.cads k).command.cmd) w
  obtain ⟨hf, ht⟩ := h
  show Ending k P w false (redisAsyncCommand H a (.user k) _ w).2
    (decide ((redisAsyncCommand H a (.user k) _ w).1 = .ok))
  cases hs : (redisAsyncCommand H a (.user k)
      (.command (w.cads k).command.id (w.cads k).command.cmd) w).1 with
  | ok =>
    rw [hs] at ht
    exact .resubmitted ht (Or.inl hf) hP
  | err =>
    rw [hs] at ht
    exact .lost ht

omit hP in
theorem Ending.after {k : ℕ} {w : World ω} {α : Type} {m : Prog ω α} (hm : Within Steady m)
    {f f' : α → Prog ω Bool} (h : ∀ a w₁, alongside (f a) (f' a) (Ending k P w₁) w₁) :
    alongside (m >>= f) (m >>= f') (Ending k P w) w := by
  rw [alongside_bind]
  exact (h _ _).after_steady (hm w)

theorem asyncMoved_ending (a : AConnId) (k : ℕ) (r : Reply) (w : World ω) :
    alongside (asyncMoved H a k r) (movedSafe H a k r) (Ending k P w) w := by
  refine Ending.after (steady_of_aside (aside_throttledUpdateSlotMapAsync H _)) fun _ w₁ =>
    Ending.after (steady_of_lawful (lawful_handleMoved _)) fun n w₂ => ?_
  cases n with
  | none => exact steadyCallUser_ending (steady_of_aside aside_copyContextError) k P _ w₂
  | some n =>
    refine Ending.after (steady_of_aside (within_actxGetByNode H n)) fun a' w₃ => ?_
    cases a' with
    | none => exact .lost (turn_abort k _ w₃)
    | some a' => exact resubmit_ending H hP k a' w₃

theorem asyncAsk_ending (k : ℕ) (r : Reply) (w : World ω) :
    alongside (asyncAsk H k r) (askSafe H k r) (Ending k P w) w := by
  refine Ending.after (steady_of_lawful (lawful_handleAsk _)) fun n w₁ => ?_
  cases n with
  | none => exact steadyCallUser_ending (steady_of_aside aside_copyContextError) k P _ w₁
  | some n =>
    refine Ending.after (steady_of_aside (within_actxGetByNode H n)) fun a w₂ => ?_
    cases a with
    | none => exact callUser_ending k P _ w₂
    | some a =>
      refine Ending.after (steady_of_aside (aside_redisAsyncCommand H a (fun _ h => by cases h) _))
        fun s w₃ => ?_
      cases s with
      | err => exact .lost ((Steady.refl w₃).turn k)
      | ok => exact resubmit_ending H hP k a w₃

end Redirects

/-- How the counter of a command may change.  Without retries it stays. -/
def Counted (old new : ℤ) : Prop := new = old ∨ old ≠ noRetry ∧ (new = old + 1 ∨ new = 0)

/-- How a whole callback ends.  The command is submitted again only if a retry is left. -/
inductive Outcome (k : ℕ) (w : World ω) : Bool → World ω → Bool → Prop where
  | called {w' : World ω} {n : ℤ} {r : Option Reply} (h : Turn k n [] [r] w w')
      (hf : Unharmed w w') (hn : Counted (w.cads k).retryCount n) : Outcome k w true w' true
  | resubmitted {w' : World ω} {a : AConnId}
      (h : Turn k ((w.cads k).retryCount + 1) [a] [] w w') (hf : Unharmed w w')
      (hle : (w.cads k).retryCount + 1 ≤ w.cc.maxRetryCount)
      (hretry : (w.cads k).retryCount ≠ noRetry) : Outcome k w false w' true
  | lost {w' : World ω} {n : ℤ} (h : Turn k n [] [] w w')
      (hn : Counted (w.cads k).retryCount n) : Outcome k w false w' false

theorem turn_modifyCad (k : ℕ) (f : AsyncData → ℤ) (w : World ω) :
    Turn k (f (w.cads k)) [] [] w (modifyCad k (fun cad => { cad with retryCount := f cad }) w).2 where
  ordered ho := ho.of_async rfl rfl rfl rfl rfl
  limit := rfl
  retryCount := id
  cads := rfl
  nextCad := rfl
  pending j := by rw [ite_self, List.append_nil]; rfl
  sent j := by rw [List.length_nil, ite_self]; rfl
  called := (List.append_nil _).symm
  accepted := rfl

/-- A callback that ends after its counter was changed. -/
theorem Ending.outcome {k : ℕ} {n : ℤ} {P : Prop} {w w₁ w' : World ω} {b safe : Bool}
    (h : Ending k P w₁ b w' safe) (ht : Turn k n [] [] w w₁) (hu : Unharmed w w₁)
    (hn : Counted (w.cads k).retryCount n) (hP : P → n = (w.cads k).retryCount + 1 ∧
      n ≤ w.cc.maxRetryCount ∧ (w.cads k).retryCount ≠ noRetry) : Outcome k w b w' safe := by
  have hcount := ht.counter
  cases h with
  | called h hf =>
    rw [hcount] at h
    exact .called (ht.trans h) (hu.trans hf) hn
  | resubmitted h hf hp =>
    rw [hcount] at h
    obtain ⟨rfl, hle, hretry⟩ := hP hp
    exact .resubmitted (ht.trans h) (hu.trans hf) hle hretry
  | lost h =>
    rw [hcount] at h
    exact .lost (ht.trans h) hn

/-- A callback that treats its reply as final. -/
theorem Ending.final_outcome {k : ℕ} {w w' : World ω} {b safe : Bool}
    (h : Ending k False w b w' safe) : Outcome k w b w' safe :=
  h.outcome ((Steady.refl w).turn k) (Or.inl rfl) (Or.inl rfl) fun hp => hp.elim

theorem asyncRedirect_outcome (a : AConnId) (k : ℕ) (type : ErrorType) (r : Reply) {w : World ω}
    (hretry : (w.cads k).retryCount ≠ noRetry) :
    alongside (asyncRedirect H a k type r) (redirectSafe H a k type r) (Outcome k w) w := by
  unfold asyncRedirect redirectSafe
  rw [alongside_bind]
  have ht : Turn k ((w.cads k).retryCount + 1) [] [] w (modifyCad k (fun cad =>
    { cad with retryCount := cad.retryCount + 1 }) w).2 :=
      turn_modifyCad k (fun cad => cad.retryCount + 1) w
  refine wp_mono (P := fun _ w₁ => Turn k ((w.cads k).retryCount + 1) [] [] w w₁ ∧ Unharmed w w₁)
    ⟨ht, Or.inl rfl⟩ fun _ w₁ h₁ => ?_
  obtain ⟨ht, hu⟩ := h₁
  rw [alongside_bind, wp_get]
  by_cases hmax : w₁.cc.maxRetryCount < (w₁.cads k).retryCount
  · rw [if_pos hmax, if_pos hmax]
    -- the counter is reset, which nobody will see
    have ht₂ := ht.trans (turn_modifyCad k (fun _ => 0) w₁)
    have hs : Steady (modifyCad k (fun cad => { cad with retryCount := 0 }) w₁).2 _ :=
      steady_of_aside (aside_asyncSetError (some .tooManyRetries) (.lit "too many cluster retries"))
        (modifyCad k (fun cad => { cad with retryCount := 0 }) w₁).2
    have h := (callUser_ending k False (some r) _).after_steady hs
    rw [(hs.turn k).callback k, ht₂.callback k, ← ht.callback k] at h
    exact h.outcome ht₂ hu (Or.inr ⟨hretry, Or.inr rfl⟩) fun hp => hp.elim
  · rw [if_neg hmax, if_neg hmax]
    rw [ht.counter, ht.limit] at hmax
    have hn : Counted (w.cads k).retryCount ((w.cads k).retryCount + 1) :=
      Or.inr ⟨hretry, Or.inl rfl⟩
    have hP : True → (w.cads k).retryCount + 1 = (w.cads k).retryCount + 1 ∧
        (w.cads k).retryCount + 1 ≤ w.cc.maxRetryCount ∧ (w.cads k).retryCount ≠ noRetry :=
      fun _ => ⟨rfl, Int.not_lt.mp hmax, hretry⟩
    cases type with
    | moved => exact (asyncMoved_ending H trivial a k r w₁).outcome ht hu hn hP
    | ask => exact (asyncAsk_ending H trivial k r w₁).outcome ht hu hn hP
    | _ => exact (resubmit_ending H trivial k a w₁).outcome ht hu hn hP

/-- **What the callback of a command comes to.** -/
theorem redisClusterAsyncCallback_outcome (a : AConnId) (k : ℕ) (reply : Option Reply)
    (w : World ω) :
    alongside (redisClusterAsyncCallback H a k reply) (callbackSafe H a k reply) (Outcome k w) w := by
  cases reply with
  | none =>
    have hend : ∀ {w₁ : World ω}, Steady w w₁ → wp (callUser k none) (fun b w' =>
        Outcome k w b w' (w.cads k).callback.isSome) w₁ := by
      intro w₁ hs
      have h := (callUser_ending k False none w₁).after_steady hs
      rw [(hs.turn k).callback k] at h
      exact h.final_outcome
    show wp (redisClusterAsyncCallback H a k none) (fun b w' =>
      Outcome k w b w' (w.cads k).callback.isSome) w
    unfold redisClusterAsyncCallback
    dsimp only
    rw [wp_bind]
    refine wp_mono ((steady_of_aside (aside_copyAsyncError a)).wp w) fun _ w₁ h₁ => ?_
    rw [wp_bind, wp_get]
    split
    · exact hend h₁
    · rw [wp_bind]
      refine wp_mono ((steady_of_aside (aside_throttledUpdateSlotMapAsync H none)).wp w₁)
        fun _ w₂ h₂ => ?_
      exact hend (h₁.trans h₂)
  | some r =>
    unfold redisClusterAsyncCallback callbackSafe
    dsimp only
    rw [alongside_bind, wp_get]
    by_cases hfin : w.final k r = true
    · rw [if_pos hfin, if_pos hfin]
      exact (callUser_ending k False (some r) w).final_outcome
    · rw [if_neg hfin, if_neg hfin]
      refine asyncRedirect_outcome H a k _ r fun h => hfin ?_
      simp [World.final, h]

end Safety

/-! ## New commands -/

/-- A new command is submitted to `sub`, with `n` as its counter, and is accepted if it
is pending at all. -/
structure Admitted (n : ℤ) (sub : List AConnId) (w w' : World ω) : Prop where
  ordered : Ordered w → Ordered w'
  limit : w'.cc.maxRetryCount = w.cc.maxRetryCount
  retryCount : 0 ≤ w.cc.retryCount → 0 ≤ w'.cc.retryCount
  cads : ∀ j < w.nextCad, w'.cads j = w.cads j
  counter : (w'.cads w.nextCad).retryCount = n
  nextCad : w'.nextCad = w.nextCad + 1
  pending : ∀ j, w'.pendingOn j = w.pendingOn j ++ if j = w.nextCad then sub else []
  sent : ∀ j, w'.timesSent j = w.timesSent j + if j = w.nextCad then sub.length else 0
  called : w'.acc.called = w.acc.called
  accepted : w'.acc.accepted = w.acc.accepted ++ sub.map fun _ => w.nextCad
  fatal : Unharmed w w'

theorem Admitted.after_steady {n : ℤ} {sub : List AConnId} {w w₁ w' : World ω} (hs : Steady w w₁)
    (h : Admitted n sub w₁ w') : Admitted n sub w w' := by
  obtain ⟨h1, h2, h0, h3, h4, h5, h6, h7, h8, h9, h10⟩ := h
  rw [hs.cads.2] at h3 h4 h5 h6 h7 h9
  refine ⟨fun ho => h1 (hs.ordered ho), h2.trans hs.limit, fun h => h0 (hs.retryCount h),
    fun j hj => ?_, h4, h5, fun j => ?_, fun j => ?_, h8.trans hs.called, ?_,
    Unharmed.trans hs.fatal h10⟩
  · rw [h3 j hj, hs.cads.1]
  · rw [h6 j, hs.pending j]
  · rw [h7 j, hs.sent j]
  · rw [h9, hs.accepted]

/-- What an asynchronous command call does: nothing to the commands, or there is a new one
that starts with counter `n`. -/
def Admits (n : ℤ) (w : World ω) (s : Status) (w' : World ω) : Prop :=
  s = .err ∧ Steady w w' ∨ ∃ a, Admitted n (if s = .ok then [a] else []) w w'

theorem Admits.after_steady {n : ℤ} {w w₁ w' : World ω} {s : Status} (hs : Steady w w₁)
    (h : Admits n w₁ s w') : Admits n w s w' := by
  rcases h with ⟨hs', h⟩ | ⟨a, h⟩
  · exact Or.inl ⟨hs', hs.trans h⟩
  · exact Or.inr ⟨a, h.after_steady hs⟩

section Commands

variable (H : Hiredis ω)

theorem submitCommand_admits (a : AConnId) (cad : AsyncData) (w : World ω) :
    wp (submitCommand H a cad) (fun s w' => Admits cad.retryCount w s w') w := by
  unfold submitCommand
  rw [wp_bind]
  refine wp_mono (P := fun k w₁ => k = w.nextCad ∧ w₁ = { w with
    cads := Function.update w.cads w.nextCad cad, nextCad := w.nextCad + 1 }) ⟨rfl, rfl⟩
      fun k w₁ h₁ => ?_
  obtain ⟨rfl, hw₁⟩ := h₁
  rw [wp_bind]
  refine wp_mono (redisAsyncCommand_turn H a w.nextCad _ w₁) fun s w₂ h₂ => ?_
  obtain ⟨hf, ht⟩ := h₂
  -- the part that does not depend on the answer of hiredis
  have hcads : ∀ j < w.nextCad, w₂.cads j = w.cads j := by
    intro j hj
    rw [ht.cads, Function.update_of_ne (ne_of_lt hj), hw₁]
    exact Function.update_of_ne (ne_of_lt hj) _ _
  have hretry : (w₂.cads w.nextCad).retryCount = cad.retryCount := by
    rw [ht.counter, hw₁]
    simp
  have hord : Ordered w → Ordered w₂ := fun ho =>
    ht.ordered (by rw [hw₁]; exact ho.of_async rfl rfl rfl rfl rfl)
  have hnext : w₂.nextCad = w.nextCad + 1 := by rw [ht.nextCad, hw₁]
  have hlimit : w₂.cc.maxRetryCount = w.cc.maxRetryCount := by rw [ht.limit, hw₁]
  have hnonneg : 0 ≤ w.cc.retryCount → 0 ≤ w₂.cc.retryCount := fun h0 =>
    ht.retryCount (by rw [hw₁]; exact h0)
  have hcalled : w₂.acc.called = w.acc.called := by rw [ht.called, hw₁]; simp
  have hsame : w₁.acc = w.acc ∧ w₁.inflight = w.inflight := by
    rw [hw₁]
    exact ⟨rfl, rfl⟩
  have hpend : ∀ j, w₁.pendingOn j = w.pendingOn j := fun j => by
    rw [World.pendingOn, hsame.2]
    rfl
  have hsent : ∀ j, w₁.timesSent j = w.timesSent j := fun j => by
    rw [World.timesSent, hsame.1]
    rfl
  have hacc : w₂.acc.accepted = w.acc.accepted := by rw [ht.accepted, hsame.1]
  have hfatal : w₂.acc.fatal = w.acc.fatal := by rw [hf, hsame.1]
  have hpend₂ : ∀ j, w₂.pendingOn j =
      w.pendingOn j ++ if j = w.nextCad then (if s = .ok then [a] else []) else [] := fun j => by
    rw [ht.pending j, hpend j]
  have hsent₂ : ∀ j, w₂.timesSent j =
      w.timesSent j + if j = w.nextCad then (if s = .ok then [a] else []).length else 0 :=
    fun j => by rw [ht.sent j, hsent j]
  cases s with
  | ok =>
    refine Or.inr ⟨a, fun ho => (hord ho).of_async rfl rfl rfl rfl rfl, hlimit, hnonneg, hcads, hretry,
      hnext, hpend₂, hsent₂, hcalled, ?_, Or.inl hfatal⟩
    show w₂.acc.accepted ++ [w.nextCad] = _
    rw [hacc]
    rfl
  | err =>
    dsimp only
    rw [wp_bind]
    refine wp_mono ((steady_of_aside (aside_copyAsyncError a)).wp w₂) fun _ w₃ h₃ => ?_
    rw [wp_pure]
    refine Or.inr ⟨a, fun ho => h₃.ordered (hord ho), h₃.limit.trans hlimit,
      fun h0 => h₃.retryCount (hnonneg h0), ?_, ?_,
      h₃.cads.2.trans hnext, fun j => (h₃.pending j).trans (hpend₂ j),
      fun j => (h₃.sent j).trans (hsent₂ j), h₃.called.trans hcalled, ?_,
      Unharmed.trans (Or.inl hfatal) h₃.fatal⟩
    · rw [h₃.cads.1]
      exact hcads
    · rw [h₃.cads.1]
      exact hretry
    · rw [h₃.accepted, hacc]
      simp

theorem redisClusterAsyncFormattedCommand_admits (fn : Option ℕ) (cmd : Bytes) (w : World ω) :
    wp (redisClusterAsyncFormattedCommand H fn cmd) (fun s w' => Admits 0 w s w') w := by
  have hstay : ∀ {w₁ w₂ : World ω}, Steady w w₁ → Steady w₁ w₂ → Admits 0 w .err w₂ :=
    fun h h' => Or.inl ⟨rfl, h.trans h'⟩
  unfold redisClusterAsyncFormattedCommand
  rw [wp_bind, wp_get]
  split
  · exact hstay (Steady.refl w) (steady_of_aside (aside_asyncSetError _ _) w)
  · rw [wp_bind]
    refine wp_mono ((steady_of_lawful within_resetError).wp w) fun _ w₁ h₁ => ?_
    rw [wp_bind]
    refine wp_mono ((steady_of_aside aside_resetAsyncError).wp w₁) fun _ w₂ h₂ => ?_
    rw [wp_bind]
    refine wp_mono ((steady_of_lawful within_commandGet).wp w₂) fun id w₃ h₃ => ?_
    rw [wp_bind]
    refine wp_mono ((steady_of_lawful (within_commandFormatBySlot _)).wp w₃) fun p w₄ h₄ => ?_
    have h₀₄ := ((h₁.trans h₂).trans h₃).trans h₄
    dsimp only
    split
    · exact hstay h₀₄ (steady_of_aside aside_copyContextError w₄)
    · split
      · exact hstay h₀₄ (steady_of_aside (aside_asyncSetError _ _) w₄)
      · split
        · exact hstay h₀₄ (steady_of_aside (aside_asyncSetError _ _) w₄)
        · rw [wp_bind]
          refine wp_mono ((steady_of_lawful (within_nodeGetByTable _)).wp w₄) fun n w₅ h₅ => ?_
          have h₀₅ := h₀₄.trans h₅
          cases n with
          | none =>
            dsimp only
            rw [wp_bind]
            refine wp_mono ((steady_of_aside (aside_throttledUpdateSlotMapAsync H none)).wp w₅)
              fun _ w₆ h₆ => ?_
            exact hstay (h₀₅.trans h₆) (steady_of_aside aside_copyContextError w₆)
          | some n =>
            dsimp only
            rw [wp_bind]
            refine wp_mono ((steady_of_aside (within_actxGetByNode H n)).wp w₅) fun a w₆ h₆ => ?_
            cases a with
            | none => exact hstay h₀₅ h₆
            | some a =>
              exact wp_mono (submitCommand_admits H a _ w₆) fun s w₇ h =>
                h.after_steady (h₀₅.trans h₆)

theorem submitCommand_cc (a : AConnId) (cad : AsyncData) (w : World ω) :
    (submitCommand H a cad w).2.cc = w.cc := by
  show wp (submitCommand H a cad) (fun _ w' => w'.cc = w.cc) w
  unfold submitCommand
  rw [wp_bind]
  refine wp_mono (P := fun _ (w₁ : World ω) => w₁.cc = w.cc) rfl fun k w₁ h₁ => ?_
  rw [wp_bind]
  refine wp_mono (redisAsyncCommand_cases H a (.user k) _ w₁) fun s w₂ h₂ => ?_
  rcases h₂ with ⟨rfl, e, f, rfl⟩ | ⟨rfl, e, rfl⟩
  · exact ((aside_copyAsyncError a) _).cc.trans h₁
  · exact h₁

/-- A command is sent to the node of its slot, so there is a table. -/
theorem redisClusterAsyncFormattedCommand_table (fn : Option ℕ) (cmd : Bytes) (w : World ω) :
    wp (redisClusterAsyncFormattedCommand H fn cmd)
      (fun s w' => s = .ok → w'.cc.table ≠ none) w := by
  have herr : ∀ {α : Type} (m : Prog ω α) (w : World ω), wp (do let _ ← m; pure Status.err)
      (fun s w' => s = .ok → w'.cc.table ≠ none) w := fun m w h => by cases h
  unfold redisClusterAsyncFormattedCommand
  rw [wp_bind, wp_get]
  split
  · exact herr _ w
  · rw [wp_bind]
    refine wp_mono (P := fun _ _ => True) trivial fun _ w₁ _ => ?_
    rw [wp_bind]
    refine wp_mono (P := fun _ _ => True) trivial fun _ w₂ _ => ?_
    rw [wp_bind]
    refine wp_mono (P := fun _ _ => True) trivial fun id w₃ _ => ?_
    rw [wp_bind]
    refine wp_mono (P := fun _ _ => True) trivial fun p w₄ _ => ?_
    dsimp only
    split
    · exact herr _ w₄
    · split
      · exact herr _ w₄
      · split
        · exact herr _ w₄
        · rw [wp_bind]
          refine wp_mono (nodeGetByTable_some _ w₄) fun n w₅ h₅ => ?_
          cases n with
          | none => exact fun h => by cases h
          | some n =>
            obtain ⟨rfl, -, t, ht, -⟩ := h₅ n rfl
            have hsome : w₅.cc.table ≠ none := by
              rw [ht]
              exact Option.some_ne_none t
            dsimp only
            rw [wp_bind]
            refine wp_mono (Within.wp (R := Aside) (within_actxGetByNode H n) w₅) fun a w₆ h₆ => ?_
            cases a with
            | none => exact fun h => by cases h
            | some a =>
              intro _
              rw [submitCommand_cc, h₆.cc]
              exact hsome

theorem redisClusterAsyncFormattedCommandToNode_admits (n : NodeId) (fn : Option ℕ) (cmd : Bytes)
    (w : World ω) : wp (redisClusterAsyncFormattedCommandToNode H n fn cmd) (fun s w' =>
      Admits noRetry w s w') w := by
  unfold redisClusterAsyncFormattedCommandToNode
  rw [wp_bind, wp_get]
  split
  · exact Or.inl ⟨rfl, steady_of_aside (aside_asyncSetError _ _) w⟩
  · rw [wp_bind]
    refine wp_mono ((steady_of_aside (within_actxGetByNode H n)).wp w) fun a w₁ h₁ => ?_
    cases a with
    | none => exact Or.inl ⟨rfl, h₁⟩
    | some a =>
      dsimp only
      rw [wp_bind]
      refine wp_mono ((steady_of_lawful within_resetError).wp w₁) fun _ w₂ h₂ => ?_
      rw [wp_bind]
      refine wp_mono ((steady_of_aside aside_resetAsyncError).wp w₂) fun _ w₃ h₃ => ?_
      rw [wp_bind]
      refine wp_mono ((steady_of_lawful within_commandGet).wp w₃) fun id w₄ h₄ => ?_
      exact wp_mono (submitCommand_admits H a _ w₄) fun s w₅ h =>
        h.after_steady (((h₁.trans h₂).trans h₃).trans h₄)

/-! ## Actions -/

/-- What an action does to the commands of the user. -/
inductive Effect (c : Client ω) : ClientAction → World ω → Prop where
  | steady {x : ClientAction} {w' : World ω} (h : Steady c.world w') : Effect c x w'
  | admits {op : Call} {n : ℤ} {s : Status} {w' : World ω} (hn : n = 0 ∨ n = noRetry)
      (h : Admits n c.world s w') (ht : s = .ok → n ≠ noRetry → w'.cc.table ≠ none) :
      Effect c (.call op) w'
  | delivered {a : AConnId} {reply : Option Reply} {k : ℕ} {b : Bool} {w' : World ω}
      (hk : c.world.oldest a = some (.user k))
      (h : Outcome k (takeCallback a c.world).2 b w'
        (callbackSafe H a k reply (takeCallback a c.world).2).1) : Effect c (.deliver a reply) w'

theorem Call.effect (c : Client ω) (op : Call) :
    Effect H c (.call op) (op.run H c.world).2 := by
  by_cases hb : op.blocking = true
  · exact .steady (steady_of_lawful (Call.within_run_blocking H hb fun addr _ => LibClosed.addNode addr) c.world)
  · cases op with
    | connect2 =>
      refine .steady (within_drop (R := Steady) (within_bind (steady_shutdown false) fun _ => ?_)
        c.world)
      exact steady_of_lawful (within_bind within_get fun _ => within_ite
        (within_bind (TalkClosed.setError _ _) fun _ => within_pure _)
        (lawful_redisClusterUpdateSlotmap H))
    | asyncConnect2 => exact .steady (within_drop (steady_redisClusterAsyncConnect2 H) c.world)
    | asyncCommand fn cmd =>
      exact .admits (Or.inl rfl) (redisClusterAsyncFormattedCommand_admits H fn cmd c.world)
        fun hok _ => redisClusterAsyncFormattedCommand_table H fn cmd c.world hok
    | asyncCommandToNode n fn cmd =>
      exact .admits (Or.inr rfl) (redisClusterAsyncFormattedCommandToNode_admits H n fn cmd c.world)
        fun _ hne => absurd rfl hne
    | asyncDisconnect => exact .steady (steady_redisClusterAsyncDisconnect c.world)
    | asyncFree =>
      exact .steady (within_bind (R := Steady) (steady_shutdown true)
        (fun _ => steady_redisClusterFree) c.world)
    | _ => exact absurd rfl hb

/-- What is taken off a connection is pending there no more. -/
theorem takeCallback_pending {a : AConnId} {cb : ACallback} {w : World ω}
    (h : w.oldest a = some cb) (j : ℕ) :
    (w.pendingOn j).length = ((takeCallback a w).2.pendingOn j).length +
      if cb = .user j then 1 else 0 := by
  obtain ⟨before, after, hin, htake⟩ := World.oldest_split h
  rw [World.pendingOn, World.pendingOn, htake, hin]
  by_cases hcb : cb = .user j
  · simp [hcb]
    omega
  · simp [hcb]

theorem steady_takeCallback {a : AConnId} {cb : ACallback} {w : World ω}
    (h : w.oldest a = some cb) (hcb : ∀ k, cb ≠ .user k) : Steady w (takeCallback a w).2 := by
  refine ⟨fun ho => ho.of_async rfl rfl rfl rfl rfl, rfl, id, ⟨rfl, rfl⟩, fun k => ?_,
    fun _ => rfl, rfl, rfl, Or.inl rfl⟩
  obtain ⟨before, after, hin, htake⟩ := World.oldest_split h
  rw [World.pendingOn, World.pendingOn, htake, hin]
  simp [hcb k]

/-- The callback of a command is run by its delivery. -/
theorem act_deliver_user {c : Client ω} {a : AConnId} {k : ℕ} (reply : Option Reply)
    (hk : c.world.oldest a = some (.user k)) : (act H c (.deliver a reply)).world =
      (redisClusterAsyncCallback H a k reply (takeCallback a c.world).2).2 := by
  unfold act
  simp only [hk]
  show (runCallback H a (.user k) reply (takeCallback a c.world).2).2 = _
  unfold runCallback
  show ((if (redisClusterAsyncCallback H a k reply (takeCallback a c.world).2).1 then _ else _ :
    Prog ω (List Frame)) _).2 = _
  split <;> rfl

theorem act_effect (c : Client ω) (x : ClientAction) : Effect H c x (act H c x).world := by
  have haside : ∀ {w' : World ω}, Aside c.world w' → Effect H c x w' := fun h => .steady h.steady
  cases x with
  | call op => exact Call.effect H c op
  | connected a => exact haside (aside_modifyAConn a (fun conn => { conn with connected := true }) _)
  | failed a f =>
    exact haside (aside_modifyAConn a (fun conn => { conn with err := some f, disconnecting := true }) _)
  | deliver a reply =>
    cases hcb : c.world.oldest a with
    | none =>
      unfold act
      simp only [hcb]
      exact .steady (Steady.refl c.world)
    | some cb =>
      cases cb with
      | null =>
        unfold act
        simp only [hcb]
        exact .steady (steady_takeCallback hcb fun k h => by cases h)
      | topology b =>
        unfold act
        simp only [hcb]
        refine .steady ((steady_takeCallback hcb fun k h => by cases h).trans ?_)
        exact within_bind (R := Steady) (steady_topologyReplyCallback H a b reply) (fun _ =>
          within_ite (within_pure _) (within_pure _)) _
      | user k =>
        refine .delivered (b := (redisClusterAsyncCallback H a k reply
          (takeCallback a c.world).2).1) hcb ?_
        rw [act_deliver_user H reply hcb]
        exact redisClusterAsyncCallback_outcome H a k reply (takeCallback a c.world).2
  | free a =>
    exact haside (aside_modifyAConn a (fun conn => { conn with data := none, freeing := true }) _)
  | closed a => exact haside (aside_unlinkAsyncContextAndNode a c.world)
  | ret =>
    unfold act
    dsimp only
    split
    · exact .steady (Steady.refl c.world)
    · rename_i f stack _
      have hrun : Within Steady (resume f : Prog ω (List Frame)) := by
        unfold resume
        split
        · exact within_bind steady_finishCallback fun _ => within_pure _
        · exact within_bind (steady_of_lawful TalkClosed.userHook) fun _ => within_pure _
        · exact within_bind (steady_of_lawful (lawful_modifyCc (counts_needUpdateRoute _)))
            fun _ => within_pure _
        · exact within_pure _
      exact .steady (hrun c.world)

end Commands
