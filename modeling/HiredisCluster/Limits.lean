/-
# Retries are bounded, in every run

The account of `Retries` for blocking commands, and the one of asynchronous commands: each
resubmission is counted in the data of the command, which has no more than
`max_retry_count` of them, and none at all if it was sent to a given node.
-/
import HiredisCluster.Fate

open Program

variable {ω : Type}

/-- How often the commands of the user may have been accepted by hiredis. -/
structure Tallied (w : World ω) : Prop where
  lt : ∀ k ∈ w.acc.accepted, k < w.nextCad
  fresh : ∀ k, w.nextCad ≤ k → w.pendingOn k = [] ∧ w.timesSent k = 0
  single : ∀ k, (w.pendingOn k).length ≤ 1
  counter : ∀ k < w.nextCad, 0 ≤ (w.cads k).retryCount ∨ (w.cads k).retryCount = noRetry
  bound : ∀ k, (w.timesSent k : ℤ) ≤ w.cc.maxRetryCount + 1
  live : ∀ k, w.pendingOn k ≠ [] → (w.cads k).retryCount ≠ noRetry →
    (w.timesSent k : ℤ) ≤ (w.cads k).retryCount + 1
  sent : ∀ k ∈ w.acc.accepted, 1 ≤ w.timesSent k
  one : ∀ k < w.nextCad, (w.cads k).retryCount = noRetry → w.timesSent k ≤ 1

theorem Tallied.steady {w w' : World ω} (h : Tallied w) (hs : Steady w w') : Tallied w' := by
  constructor
  · rw [hs.accepted, hs.cads.2]
    exact h.lt
  · intro k hk
    rw [hs.cads.2] at hk
    rw [hs.pending k, hs.sent k]
    exact h.fresh k hk
  · intro k
    rw [hs.pending k]
    exact h.single k
  · rw [hs.cads.1, hs.cads.2]
    exact h.counter
  · intro k
    rw [hs.sent k, hs.limit]
    exact h.bound k
  · intro k
    rw [hs.pending k, hs.sent k, hs.cads.1]
    exact h.live k
  · rw [hs.accepted]
    intro k hk
    rw [hs.sent k]
    exact h.sent k hk
  · rw [hs.cads.1, hs.cads.2]
    intro k hk
    rw [hs.sent k]
    exact h.one k hk

theorem Tallied.admitted {n : ℤ} {sub : List AConnId} {w w' : World ω} (h : Tallied w)
    (hmax : 0 ≤ w.cc.maxRetryCount) (ha : Admitted n sub w w') (hn : n = 0 ∨ n = noRetry)
    (hsub : sub.length ≤ 1) : Tallied w' := by
  obtain ⟨hpend, hsent⟩ := h.fresh w.nextCad (Nat.le_refl _)
  -- the new command, and all others
  have hnew : w'.pendingOn w.nextCad = sub ∧ w'.timesSent w.nextCad = sub.length := by
    rw [ha.pending, ha.sent, if_pos rfl, if_pos rfl, hpend, hsent]
    exact ⟨rfl, Nat.zero_add _⟩
  have hold : ∀ k ≠ w.nextCad, w'.pendingOn k = w.pendingOn k ∧ w'.timesSent k = w.timesSent k := by
    intro k hk
    rw [ha.pending, ha.sent, if_neg hk, if_neg hk]
    exact ⟨List.append_nil _, rfl⟩
  have hlt : ∀ k < w'.nextCad, k ≠ w.nextCad → k < w.nextCad := fun k hk hne => by
    rw [ha.nextCad] at hk
    omega
  have hmem : ∀ k ∈ w'.acc.accepted, k = w.nextCad ∧ sub ≠ [] ∨ k ≠ w.nextCad ∧ k ∈ w.acc.accepted := by
    intro k hk
    rw [ha.accepted, List.mem_append] at hk
    rcases hk with hk | hk
    · exact Or.inr ⟨ne_of_lt (h.lt k hk), hk⟩
    · obtain ⟨a, hmem, rfl⟩ := List.mem_map.mp hk
      exact Or.inl ⟨rfl, List.ne_nil_of_mem hmem⟩
  constructor
  · intro k hk
    rw [ha.nextCad]
    rcases hmem k hk with ⟨rfl, -⟩ | ⟨-, hk⟩
    · exact Nat.lt_succ_self _
    · exact Nat.lt_succ_of_lt (h.lt k hk)
  · intro k hk
    rw [ha.nextCad] at hk
    have hne : k ≠ w.nextCad := by omega
    rw [(hold k hne).1, (hold k hne).2]
    exact h.fresh k (by omega)
  · intro k
    by_cases hk : k = w.nextCad
    · rw [hk, hnew.1]
      exact hsub
    · rw [(hold k hk).1]
      exact h.single k
  · intro k hk
    by_cases hne : k = w.nextCad
    · rw [hne, ha.counter]
      omega
    · rw [ha.cads k (hlt k hk hne)]
      exact h.counter k (hlt k hk hne)
  · intro k
    rw [ha.limit]
    by_cases hk : k = w.nextCad
    · rw [hk, hnew.2]
      omega
    · rw [(hold k hk).2]
      exact h.bound k
  · intro k hpk hretry
    by_cases hk : k = w.nextCad
    · subst hk
      rw [ha.counter] at hretry ⊢
      rw [hnew.2]
      have : n = 0 := hn.resolve_right hretry
      omega
    · rw [(hold k hk).1] at hpk
      have hk' : k < w.nextCad := by
        by_contra hge
        exact hpk (h.fresh k (by omega)).1
      rw [ha.cads k hk'] at hretry ⊢
      rw [(hold k hk).2]
      exact h.live k hpk hretry
  · intro k hk
    rcases hmem k hk with ⟨rfl, hne⟩ | ⟨hne, hk⟩
    · rw [hnew.2]
      exact List.length_pos_iff.mpr hne
    · rw [(hold k hne).2]
      exact h.sent k hk
  · intro k hk hretry
    by_cases hne : k = w.nextCad
    · rw [hne, hnew.2]
      exact hsub
    · rw [ha.cads k (hlt k hk hne)] at hretry
      rw [(hold k hne).2]
      exact h.one k (hlt k hk hne) hretry

/-- A callback of a command: its counter is changed, and it is submitted again only if
that is counted. -/
theorem Tallied.turn {w w' : World ω} {a : AConnId} {k : ℕ} {n : ℤ} {sub : List AConnId}
    {calls : List (Option Reply)} (h : Tallied w) (hk : w.oldest a = some (.user k))
    (ht : Turn k n sub calls (takeCallback a w).2 w') (hn : Counted (w.cads k).retryCount n)
    (hsub : sub = [] ∨ sub.length = 1 ∧ n = (w.cads k).retryCount + 1 ∧
      n ≤ w.cc.maxRetryCount ∧ (w.cads k).retryCount ≠ noRetry) : Tallied w' := by
  have hlen := takeCallback_pending hk k
  rw [if_pos rfl] at hlen
  have hsingle := h.single k
  have hpending : w.pendingOn k ≠ [] := List.length_pos_iff.mp (by omega)
  have hklt : k < w.nextCad := by
    by_contra hge
    exact hpending (h.fresh k (by omega)).1
  have hempty : (takeCallback a w).2.pendingOn k = [] := List.length_eq_zero_iff.mp (by omega)
  have hnew : w'.pendingOn k = sub ∧ w'.timesSent k = w.timesSent k + sub.length := by
    rw [ht.pending, ht.sent, if_pos rfl, if_pos rfl, hempty]
    exact ⟨rfl, rfl⟩
  have hold : ∀ j ≠ k, w'.pendingOn j = w.pendingOn j ∧ w'.timesSent j = w.timesSent j := by
    intro j hj
    rw [ht.pending, ht.sent, if_neg hj, if_neg hj, takeCallback_pending_other hk hj]
    exact ⟨List.append_nil _, rfl⟩
  have hcads : ∀ j ≠ k, w'.cads j = w.cads j := fun j hj => by
    rw [ht.cads, Function.update_of_ne hj]
    rfl
  have hnext : w'.nextCad = w.nextCad := ht.nextCad
  have hlimit : w'.cc.maxRetryCount = w.cc.maxRetryCount := ht.limit
  have hacc : w'.acc.accepted = w.acc.accepted := ht.accepted
  have hcounter := h.counter k hklt
  have hno : noRetry = -1 := rfl
  constructor
  · rw [hacc, hnext]
    exact h.lt
  · intro j hj
    rw [hnext] at hj
    have hne : j ≠ k := by omega
    rw [(hold j hne).1, (hold j hne).2]
    exact h.fresh j hj
  · intro j
    by_cases hj : j = k
    · rw [hj, hnew.1]
      rcases hsub with hsub | hsub
      · rw [hsub]
        exact Nat.zero_le 1
      · exact Nat.le_of_eq hsub.1
    · rw [(hold j hj).1]
      exact h.single j
  · intro j hj
    rw [hnext] at hj
    by_cases hne : j = k
    · rw [hne, ht.counter]
      unfold Counted at hn
      omega
    · rw [hcads j hne]
      exact h.counter j hj
  · intro j
    rw [hlimit]
    by_cases hj : j = k
    · rw [hj, hnew.2]
      rcases hsub with hsub | ⟨hone, hn', hle, hretry⟩
      · rw [hsub]
        exact h.bound k
      · have := h.live k hpending hretry
        omega
    · rw [(hold j hj).2]
      exact h.bound j
  · intro j hpj hretry
    by_cases hj : j = k
    · subst hj
      rw [hnew.1] at hpj
      rw [ht.counter, hnew.2]
      obtain ⟨hone, hn', hle, hretry'⟩ := hsub.resolve_left hpj
      have := h.live j hpending hretry'
      omega
    · rw [(hold j hj).1] at hpj
      rw [hcads j hj] at hretry ⊢
      rw [(hold j hj).2]
      exact h.live j hpj hretry
  · rw [hacc]
    intro j hj
    by_cases hne : j = k
    · subst hne
      have := h.sent j hj
      rw [hnew.2]
      omega
    · rw [(hold j hne).2]
      exact h.sent j hj
  · intro j hj hretry
    rw [hnext] at hj
    by_cases hne : j = k
    · subst hne
      rw [ht.counter] at hretry
      unfold Counted at hn
      have hold' : (w.cads j).retryCount = noRetry := by omega
      rw [hnew.2]
      rcases hsub with hsub | ⟨-, -, -, hretry'⟩
      · rw [hsub]
        exact h.one j hj hold'
      · exact absurd hold' hretry'
    · rw [hcads j hne] at hretry
      rw [(hold j hne).2]
      exact h.one j hj hretry

/-- A command that was accepted and that was sent to a given node. -/
structure OneShot (k : ℕ) (w : World ω) : Prop where
  lt : k < w.nextCad
  accepted : k ∈ w.acc.accepted
  counter : (w.cads k).retryCount = noRetry

theorem OneShot.steady {k : ℕ} {w w' : World ω} (h : OneShot k w) (hs : Steady w w') :
    OneShot k w' :=
  ⟨by rw [hs.cads.2]; exact h.lt, by rw [hs.accepted]; exact h.accepted,
    by rw [hs.cads.1]; exact h.counter⟩

section Runs

variable {H : Hiredis ω}

theorem Tallied.act {c : Client ω} (h : Tallied c.world) (hmax : 0 ≤ c.world.cc.maxRetryCount)
    (x : ClientAction) : Tallied (act H c x).world := by
  cases act_effect H c x with
  | steady hs => exact h.steady hs
  | admits hn ha _ =>
    rcases ha with ⟨-, hs⟩ | ⟨a, ha⟩
    · exact h.steady hs
    · exact h.admitted hmax ha hn (by split <;> simp)
  | delivered hk ho =>
    generalize (callbackSafe H _ _ _ _).1 = safe at ho
    cases ho with
    | called ht _ hn => exact h.turn hk ht hn (Or.inl rfl)
    | resubmitted ht _ hle hretry =>
      exact h.turn hk ht (Or.inr ⟨hretry, Or.inl rfl⟩) (Or.inr ⟨rfl, rfl, hle, hretry⟩)
    | lost ht hn => exact h.turn hk ht hn (Or.inl rfl)

theorem act_limit (c : Client ω) (x : ClientAction) :
    (act H c x).world.cc.maxRetryCount = c.world.cc.maxRetryCount ∧
      (0 ≤ c.world.cc.retryCount → 0 ≤ (act H c x).world.cc.retryCount) := by
  cases act_effect H c x with
  | steady hs => exact ⟨hs.limit, hs.retryCount⟩
  | admits _ ha _ =>
    rcases ha with ⟨-, hs⟩ | ⟨a, ha⟩
    · exact ⟨hs.limit, hs.retryCount⟩
    · exact ⟨ha.limit, ha.retryCount⟩
  | delivered _ ho =>
    generalize (callbackSafe H _ _ _ _).1 = safe at ho
    cases ho with
    | called ht _ _ => exact ⟨ht.limit, ht.retryCount⟩
    | resubmitted ht _ _ _ => exact ⟨ht.limit, ht.retryCount⟩
    | lost ht _ => exact ⟨ht.limit, ht.retryCount⟩

/-- A command that was sent to a given node is never retried. -/
theorem OneShot.act {c : Client ω} {k : ℕ} (h : OneShot k c.world) (x : ClientAction) :
    OneShot k (act H c x).world := by
  have hturn : ∀ {a : AConnId} {j : ℕ} {n : ℤ} {sub : List AConnId} {calls : List (Option Reply)}
      {w' : World ω}, Turn j n sub calls (takeCallback a c.world).2 w' →
      Counted (c.world.cads j).retryCount n → OneShot k w' := by
    intro a j n sub calls w' ht hn
    refine ⟨by rw [ht.nextCad]; exact h.lt, by rw [ht.accepted]; exact h.accepted, ?_⟩
    rcases eq_or_ne k j with rfl | hne
    · rw [ht.counter]
      exact (hn.resolve_right fun hno => hno.1 h.counter).trans h.counter
    · rw [ht.cads, Function.update_of_ne hne]
      exact h.counter
  cases act_effect H c x with
  | steady hs => exact h.steady hs
  | admits _ ha _ =>
    rcases ha with ⟨-, hs⟩ | ⟨a, ha⟩
    · exact h.steady hs
    · constructor
      · rw [ha.nextCad]
        exact Nat.lt_succ_of_lt h.lt
      · rw [ha.accepted]
        exact List.mem_append_left _ h.accepted
      · rw [ha.cads k h.lt]
        exact h.counter
  | delivered _ ho =>
    generalize (callbackSafe H _ _ _ _).1 = safe at ho
    cases ho with
    | called ht _ hn => exact hturn ht hn
    | resubmitted ht _ _ hr => exact hturn ht (Or.inr ⟨hr, Or.inl rfl⟩)
    | lost ht hn => exact hturn ht hn

/-- Over a whole run it is sent exactly once. -/
theorem OneShot.perform {k : ℕ} (xs : List ClientAction) : ∀ {c : Client ω}, OneShot k c.world →
    Tallied c.world → 0 ≤ c.world.cc.maxRetryCount → (perform H c xs).world.timesSent k = 1 := by
  induction xs with
  | nil => exact fun h ht _ => Nat.le_antisymm (ht.one k h.lt h.counter) (ht.sent k h.accepted)
  | cons x xs ih =>
    intro c h ht hmax
    refine ih (h.act x) (ht.act hmax x) ?_
    rw [(act_limit c x).1]
    exact hmax

theorem World.Fresh.tallied {w : World ω} (hw : w.Fresh) (hmax : 0 ≤ w.cc.maxRetryCount) :
    Tallied w := by
  have hcads : ∀ k, (w.cads k).retryCount = 0 := fun k => by rw [hw.cads]
  have hp : ∀ k, w.pendingOn k = [] := fun k => by rw [World.pendingOn, hw.inflight]; rfl
  have hs : ∀ k, w.timesSent k = 0 := fun k => by rw [World.timesSent, hw.handed]; rfl
  refine ⟨?_, fun k _ => ⟨hp k, hs k⟩, fun k => ?_, fun k _ => Or.inl (Int.le_of_eq (hcads k).symm), fun k => ?_,
    fun k hk => absurd (hp k) hk, ?_, fun k _ _ => ?_⟩
  · rw [hw.accepted]
    simp
  · rw [hp k]
    exact Nat.zero_le 1
  · rw [hs k]
    omega
  · rw [hw.accepted]
    simp
  · rw [hs k]
    exact Nat.zero_le 1

/-- The counters of a reachable client. -/
theorem Reaches.tallied {G : Client ω → ClientAction → Prop} {c : Client ω} (h : Reaches H G c)
    (hmax : 0 ≤ c.world.cc.maxRetryCount) : Tallied c.world ∧ 0 ≤ c.world.cc.retryCount := by
  induction h with
  | start hw => exact ⟨hw.tallied hmax, Int.le_of_eq hw.retryCount.symm⟩
  | @step c x _ _ _ ih =>
    rw [(act_limit c x).1] at hmax
    exact ⟨(ih hmax).1.act hmax x, (act_limit c x).2 (ih hmax).2⟩

theorem World.budget_le {w : World ω} {m : ℕ} (hm : w.cc.maxRetryCount = m)
    (h : 0 ≤ w.cc.retryCount) : w.budget ≤ m := by
  unfold World.budget
  omega

/-- **Retries are bounded**, whatever the nodes reply and whatever fails: the command loop
returns and has written its command at most `m + 1` times, a command of `n` fragments is
written at most `n + m` times in all, an asynchronous command at most `m + 1` times, and
exactly once if it was sent to a given node. -/
theorem retries_bounded {c : Client ω} (h : Reachable H c) {m : ℕ}
    (hm : c.world.cc.maxRetryCount = m) :
    (∀ cmd, Returned (execAt H cmd c.world (execFuel c.world)) ∧
      (redisClusterCommandExecute H cmd c.world).2.written ≤ c.world.written + (m + 1)) ∧
    (∀ cmd, (redisClusterFormattedCommand H cmd c.world).2.written ≤
        c.world.written + (fragmentCount cmd + m) ∧
      (redisClusterFormattedCommand H cmd c.world).2.cc.retryCount = 0) ∧
    (∀ k ∈ c.world.acc.accepted, 1 ≤ c.world.timesSent k ∧ c.world.timesSent k ≤ m + 1) ∧
    ∀ n fn cmd,
      (redisClusterAsyncFormattedCommandToNode H n fn cmd c.world).1 = .ok →
      ∀ xs, (perform H (act H c (.call (.asyncCommandToNode n fn cmd))) xs).world.timesSent
        c.world.nextCad = 1 := by
  have hmax : 0 ≤ c.world.cc.maxRetryCount := by omega
  obtain ⟨ht, hretry⟩ := h.tallied hmax
  have hbudget := World.budget_le hm hretry
  refine ⟨fun cmd => ⟨execAt_returned H cmd c.world, ?_⟩, fun cmd => ?_, fun k hk => ⟨ht.sent k hk, ?_⟩,
    fun n fn cmd hok xs => ?_⟩
  · have := redisClusterCommandExecute_written H cmd c.world
    unfold wp at this
    omega
  · obtain ⟨hwritten, hreset⟩ := redisClusterFormattedCommand_written H cmd c.world
    exact ⟨by omega, hreset⟩
  · have := ht.bound k
    omega
  · refine OneShot.perform xs ?_ (ht.act hmax _)
      (by rw [(act_limit (H := H) c (.call (.asyncCommandToNode n fn cmd))).1]; exact hmax)
    have ha := redisClusterAsyncFormattedCommandToNode_admits H n fn cmd c.world
    rcases ha with ⟨herr, -⟩ | ⟨a, ha⟩
    · rw [hok] at herr
      cases herr
    · rw [if_pos hok] at ha
      refine ⟨?_, ?_, ha.counter⟩
      · exact Nat.lt_of_lt_of_eq (Nat.lt_succ_self _) ha.nextCad.symm
      · exact ha.accepted.symm ▸ List.mem_append_right _ (List.mem_singleton_self _)

/-- A connected client, with five retries. -/
theorem retries_bounded_serve :
    (perform Hiredis.atWork (newAsyncClient []) asyncServe).world.cc.maxRetryCount = 5 ∧
      (redisClusterFormattedCommand Hiredis.atWork getK
        (perform Hiredis.atWork (newAsyncClient []) asyncServe).world).2.written ≤
      (perform Hiredis.atWork (newAsyncClient []) asyncServe).world.written +
        (fragmentCount getK + 5) := by
  have hmax : (perform Hiredis.atWork (newAsyncClient []) asyncServe).world.cc.maxRetryCount = 5 := by
    decide +kernel
  exact ⟨hmax, ((retries_bounded (m := 5) (Reaches.perform _ (reaches_newAsyncClient _ _ []) _
    (by decide +kernel)) hmax).2.1 getK).1⟩

end Runs
