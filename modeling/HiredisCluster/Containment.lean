/-
# Redirects and the slot table

A redirect that is followed may change the node set and, if it is a MOVED, one entry of
the table.  The index of that entry is read from the text of the reply, modulo `2 ^ 32`, and
is not compared with the size of the table, so that what a redirect does is contained in the
table exactly if the number that its text denotes is a slot.
-/
import HiredisCluster.Exactness
import HiredisCluster.Limits

open Program

variable {ω : Type}

/-- The entry of a slot in `cc->table`. -/
def World.entry (w : World ω) (s : ℕ) : Option NodeId := w.cc.table.bind fun t => t s

/-- An index that was written to by a redirect, with the node that was stored. -/
def Event.store? : Event → Option (ℤ × NodeId)
  | .stored s n => some (s, n)
  | _ => none

/-- What redirects have stored so far. -/
def World.stores (w : World ω) : List (ℤ × NodeId) := w.trace.filterMap Event.store?

/-- What a redirect may do.  It is `live` if it is followed: there are retries left and
the client is not shutting down. -/
structure Contained (type : ErrorType) (str : Bytes) (live : Prop) (w w' : World ω) : Prop where
  /-- only the entry of the slot that a MOVED names is written, and it lies in the table -/
  inside : ∀ p ∈ w'.stores.drop w.stores.length, w.cc.table ≠ none ∧ type = .moved ∧
    ∃ slotText endpoint, redirectFields str = some (slotText, endpoint) ∧
      ∃ v : ℕ, denoted slotText = some v ∧ p.1 = v ∧ v < redisClusterSlots
  /-- the slot of a MOVED is served by the node at its endpoint -/
  entry : type = .moved → live → ∀ slotText endpoint, redirectFields str = some (slotText, endpoint) →
    ∀ v, denoted slotText = some v → v < redisClusterSlots → ∃ n, w'.entry v = some n ∧
      (w'.heap n).addr = endpoint
  /-- every other entry, and with an ASK every entry, stays -/
  others : ∀ s, (type = .moved → ∀ slotText endpoint,
    redirectFields str = some (slotText, endpoint) → denoted slotText ≠ some s) →
      w'.entry s = w.entry s
  /-- a redirect that is rejected changes nothing -/
  rejected : redirectFields str = none → w'.cc.nodes = w.cc.nodes ∧ w'.cc.table = w.cc.table

/-- A MOVED that is followed and names no slot, but a number that is not taken for a
negative one. -/
def Outside (type : ErrorType) (str : Bytes) (live : Prop) : Prop :=
  type = .moved ∧ live ∧ ∃ slotText endpoint, redirectFields str = some (slotText, endpoint) ∧
    ¬ SlotFits slotText

/-! ## What a redirect does -/

/-- Nodes, table and the history of stores stay. -/
structure Unpointed (w w' : World ω) : Prop where
  nodes : w'.cc.nodes = w.cc.nodes
  table : w'.cc.table = w.cc.table
  nextNode : w.nextNode ≤ w'.nextNode
  addr : ∀ n < w.nextNode, (w'.heap n).addr = (w.heap n).addr
  stores : w'.stores = w.stores

theorem Unpointed.refl (w : World ω) : Unpointed w w := ⟨rfl, rfl, Nat.le_refl _, fun _ _ => rfl, rfl⟩

theorem Unpointed.trans {w w' w'' : World ω} (h : Unpointed w w') (h' : Unpointed w' w'') : Unpointed w w'' where
  nodes := h'.nodes.trans h.nodes
  table := h'.table.trans h.table
  nextNode := Nat.le_trans h.nextNode h'.nextNode
  addr n hn := (h'.addr n (Nat.lt_of_lt_of_le hn h.nextNode)).trans (h.addr n hn)
  stores := h'.stores.trans h.stores

instance : Std.Refl (@Unpointed ω) := ⟨Unpointed.refl⟩

instance : IsTrans (World ω) Unpointed := ⟨fun _ _ _ => Unpointed.trans⟩

theorem Linking.unpointed {w w' : World ω} (h : Linking w w') : Unpointed w w' := by
  obtain ⟨e, s, hcc⟩ := h.cc
  obtain ⟨new, hnew, hev⟩ := h.trace
  refine ⟨by rw [hcc], by rw [hcc], h.nextNode, fun n hn => ?_, ?_⟩
  · exact congrArg Prod.fst (h.endpoint n hn)
  · have hnone : new.filterMap Event.store? = [] := by
      refine List.filterMap_eq_nil_iff.mpr fun e he => ?_
      have hroutine := hev e he
      cases e with
      | stored s n => exact hroutine.elim
      | _ => rfl
    rw [World.stores, hnew, List.filterMap_append, hnone, List.append_nil]
    rfl

theorem Aside.unpointed {w w' : World ω} (h : Aside w w') : Unpointed w w' where
  nodes := by rw [h.cc]
  table := by rw [h.cc]
  nextNode := Nat.le_of_eq h.nextNode.symm
  addr n _ := (h.heap n).1
  stores := by
    rw [World.stores, h.trace]
    rfl

/-- What has become of a redirect: it was not followed or was rejected, or it has led to
the node filed under its endpoint, to which a MOVED has pointed the slot it names. -/
inductive Treated (type : ErrorType) (str : Bytes) (live : Prop) (w w' : World ω) : Prop where
  | ignored (h : ¬ live ∨ redirectFields str = none) (hq : Unpointed w w')
  | asked {slotText endpoint : Bytes} (hf : redirectFields str = some (slotText, endpoint))
      (ht : type = .ask) (htable : w'.cc.table = w.cc.table) (hs : w'.stores = w.stores)
  | moved {slotText endpoint : Bytes} {n : NodeId}
      (hf : redirectFields str = some (slotText, endpoint)) (ht : type = .moved) (hlive : live)
      (hn : n < w'.nextNode) (haddr : (w'.heap n).addr = endpoint)
      (htable : w'.cc.table = if 0 ≤ hiAtoi slotText ∧ hiAtoi slotText < redisClusterSlots then
        w.cc.table.map fun t => Function.update t (hiAtoi slotText).toNat (some n) else w.cc.table)
      (hs : w'.stores = w.stores ++ if 0 ≤ hiAtoi slotText then [(hiAtoi slotText, n)] else [])

theorem Treated.after {type : ErrorType} {str : Bytes} {live : Prop} {w w₁ w' : World ω}
    (h : Treated type str live w₁ w') (hq : Unpointed w w₁) : Treated type str live w w' := by
  cases h with
  | ignored h hq' => exact .ignored h (hq.trans hq')
  | asked hf ht htable hs => exact .asked hf ht (htable.trans hq.table) (hs.trans hq.stores)
  | moved hf ht hlive hn haddr htable hs =>
    rw [hq.table] at htable
    rw [hq.stores] at hs
    exact .moved hf ht hlive hn haddr htable hs

theorem Treated.before {type : ErrorType} {str : Bytes} {live : Prop} {w w₁ w' : World ω}
    (h : Treated type str live w w₁) (hq : Unpointed w₁ w') : Treated type str live w w' := by
  cases h with
  | ignored h hq' => exact .ignored h (hq'.trans hq)
  | asked hf ht htable hs => exact .asked hf ht (hq.table.trans htable) (hq.stores.trans hs)
  | moved hf ht hlive hn haddr htable hs =>
    exact .moved hf ht hlive (Nat.lt_of_lt_of_le hn hq.nextNode) ((hq.addr _ hn).trans haddr)
      (hq.table.trans htable) (hq.stores.trans hs)

/-- A slot that is named is read as it is. -/
theorem hiAtoi_of_slot {slotText : Bytes} {v : ℕ} (h : denoted slotText = some v)
    (hv : v < redisClusterSlots) : hiAtoi slotText = v := by
  unfold redisClusterSlots at hv
  rw [hiAtoi_of_denoted h, wrap32_of_lt (by omega), if_neg (by omega)]

/-- **A redirect is contained in the table if and only if the slot it names is.** -/
theorem Treated.contained_iff {type : ErrorType} {str : Bytes} {live : Prop} {w w' : World ω}
    (h : Treated type str live w w') (htab : live → w.cc.table ≠ none) :
    Contained type str live w w' ↔ ¬ Outside type str live := by
  have hsame : ∀ {w'' : World ω}, w''.cc.table = w.cc.table → ∀ s, w''.entry s = w.entry s :=
    fun ht s => by rw [World.entry, ht]; rfl
  have hnone : w'.stores = w.stores → ∀ p, p ∉ w'.stores.drop w.stores.length := by
    intro hs p hp
    rw [hs, List.drop_length] at hp
    cases hp
  cases h with
  | ignored h hq =>
    refine iff_of_true ⟨fun p hp => absurd hp (hnone hq.stores p), fun _ hl slotText endpoint hf => ?_,
      fun s _ => hsame hq.table s, fun _ => ⟨hq.nodes, hq.table⟩⟩ ?_
    · rcases h with h | h
      · exact absurd hl h
      · rw [h] at hf
        cases hf
    · rintro ⟨-, hl, slotText, endpoint, hf, -⟩
      rcases h with h | h
      · exact h hl
      · rw [h] at hf
        cases hf
  | asked hf ht htable hs =>
    have hne : type ≠ .moved := by
      rw [ht]
      decide
    refine iff_of_true ⟨fun p hp => absurd hp (hnone hs p), fun h => absurd h hne,
      fun s _ => hsame htable s, fun hrej => ?_⟩ fun h => hne h.1
    rw [hf] at hrej
    cases hrej
  | @moved slotText endpoint n hf ht hlive _ haddr htable hs =>
    constructor
    · -- the history has the index
      rintro hc ⟨-, -, slotText', endpoint', hf', hnot⟩
      rw [hf] at hf'
      obtain ⟨rfl, rfl⟩ := Prod.mk.inj (Option.some.inj hf')
      refine hnot (slotFits_iff.mpr fun hnonneg => ?_)
      obtain ⟨-, -, slotText', endpoint', hf', v, hv, heq, hlt⟩ := hc.inside (hiAtoi slotText, n) (by
        rw [hs, if_pos hnonneg, List.drop_left]
        exact List.mem_singleton_self _)
      rw [hf] at hf'
      obtain ⟨rfl, rfl⟩ := Prod.mk.inj (Option.some.inj hf')
      exact ⟨v, hv, heq, hlt⟩
    · intro hin
      have hfits : SlotFits slotText := by
        by_contra hnot
        exact hin ⟨ht, hlive, slotText, endpoint, hf, hnot⟩
      have hnamed := slotFits_iff.mp hfits
      obtain ⟨t, ht₀⟩ := Option.ne_none_iff_exists'.mp (htab hlive)
      refine ⟨fun p hp => ?_, fun _ _ slotText' endpoint' hf' v hv hlt => ?_, fun s hs' => ?_,
        fun hrej => ?_⟩
      · rw [hs, List.drop_left] at hp
        split at hp
        · rename_i hnonneg
          obtain rfl := List.mem_singleton.mp hp
          exact ⟨htab hlive, ht, slotText, endpoint, hf, hnamed hnonneg⟩
        · cases hp
      · rw [hf] at hf'
        obtain ⟨rfl, rfl⟩ := Prod.mk.inj (Option.some.inj hf')
        refine ⟨n, ?_, haddr⟩
        rw [World.entry, htable, hiAtoi_of_slot hv hlt,
          if_pos ⟨Int.natCast_nonneg v, Int.ofNat_lt.mpr hlt⟩, ht₀, Int.toNat_natCast]
        exact Function.update_self _ _ _
      · have hne := hs' ht slotText endpoint hf
        rw [World.entry, World.entry, htable]
        split
        · rename_i hrange
          obtain ⟨v, hv, heq, -⟩ := hnamed hrange.1
          rw [ht₀, heq, Int.toNat_natCast]
          refine Function.update_of_ne ?_ _ _
          rintro rfl
          exact hne hv
        · rfl
      · rw [hf] at hrej
        cases hrej

/-! ## The routines -/

theorem stores_record (e : Event) (w : World ω) :
    World.stores { w with trace := w.trace ++ [e] } = w.stores ++ e.store?.toList := by
  show (w.trace ++ [e]).filterMap Event.store? = _
  rw [List.filterMap_append]
  cases e <;> rfl

theorem handleMoved_treated (str : Bytes) {live : Prop} (hlive : live) {w : World ω}
    (ho : Ordered w) : wp (handleMoved str) (fun _ w' => Treated .moved str live w w') w := by
  refine wp_mono (handleMoved_spec str w) fun r w' h => ?_
  split at h
  · rename_i hf
    exact .ignored (Or.inr hf) h.2.toLinking.unpointed
  · rename_i slotText endpoint hf
    obtain ⟨n, d', w₁, -, hl, hd', hfind, rfl⟩ := h
    have hp := storeSlot_pointed (hiAtoi slotText) n w₁
    have hmem := (d'.find_eq_some_iff _ _).mp hfind
    have ho₁ : Ordered w₁ := ho.learns hl
    have haddr : (w₁.heap n).addr = endpoint := ho₁.routed.view.filed d' hd' _ _ hmem
    have hlt : n < w₁.nextNode := ho₁.routed.lt n ((World.known_iff hd').mpr ⟨_, hmem⟩)
    have hstores : w₁.stores = w.stores := by
      rw [World.stores, hl.traceEq]
      rfl
    refine .moved hf rfl hlive ?_ ?_ ?_ ?_ (n := n)
    · rw [hp.nextNode]
      exact hlt
    · rw [hp.heap]
      exact haddr
    · rw [← hl.table]
      unfold storeSlot
      split
      · rename_i hneg
        rw [if_neg fun h => absurd h.1 (Int.not_le.mpr hneg)]
        rfl
      · rename_i hnonneg
        show (wp _ (fun _ w' => w'.cc.table = _) w₁)
        rw [wp_bind, wp_record]
        split
        · rename_i hslot
          rw [if_pos ⟨Int.not_lt.mp hnonneg, by omega⟩]
          rfl
        · rename_i hslot
          rw [if_neg (by omega)]
          rfl
    · rw [← hstores]
      unfold storeSlot
      split
      · rename_i hneg
        rw [if_neg (Int.not_le.mpr hneg)]
        exact (List.append_nil _).symm
      · rename_i hnonneg
        rw [if_pos (Int.not_lt.mp hnonneg)]
        show (wp _ (fun _ w' => w'.stores = _) w₁)
        rw [wp_bind, wp_record]
        split
        · exact stores_record (.stored _ n) w₁
        · exact stores_record (.stored _ n) w₁

theorem handleAsk_treated (str : Bytes) (live : Prop) (w : World ω) :
    wp (handleAsk str) (fun _ w' => Treated .ask str live w w') w := by
  refine wp_mono (handleAsk_spec str w) fun r w' h => ?_
  split at h
  · rename_i hf
    exact .ignored (Or.inr hf) h.2.toLinking.unpointed
  · rename_i slotText endpoint hf
    obtain ⟨n, d', -, hl, -⟩ := h
    refine .asked hf rfl hl.table ?_
    rw [World.stores, hl.traceEq]
    rfl

/-! ## The command loop -/

section Loop

variable (H : Hiredis ω)

/-- The loop has written its command to `c` and has got the answer `a` to it, in state
`w'`. -/
def Receives (cmd : Cmd) (w : World ω) (n : ℕ) (c : ConnId) (u : Option ConnId) (a : Answer)
    (w' : World ω) : Prop :=
  ∃ u₀ w₀ w₁ w₂, execAt H cmd w n = (⟨.send c, u₀⟩, w₀) ∧
    redisAppendCommand H c (.command cmd.id cmd.cmd) w₀ = (.ok, w₁) ∧
    pipelineUpdate H c u₀ w₁ = (u, w₂) ∧
    redisGetReply H c (.command cmd.id cmd.cmd) w₂ = (some a, w')

variable {H}

/-- What comes next is the treatment of the answer. -/
theorem Receives.next {cmd : Cmd} {w w' : World ω} {n : ℕ} {c : ConnId} {u : Option ConnId}
    {a : Answer} (h : Receives H cmd w n c u a w') :
    execAt H cmd w (n + 1) = execReply c u a w' := by
  obtain ⟨u₀, w₀, w₁, w₂, hat, happ, hpipe, hget⟩ := h
  unfold execAt at hat ⊢
  rw [Function.iterate_succ_apply', hat]
  show execSend H cmd c u₀ w₀ = _
  have hbind : ∀ {α β : Type} (m : Prog ω α) (f : α → Prog ω β) {s s' : World ω} {x : α},
      m s = (x, s') → (m >>= f) s = f x s' := by
    intro α β m f s s' x hm
    show f (m s).1 (m s).2 = _
    rw [hm]
  unfold execSend
  rw [hbind _ _ happ]
  dsimp only
  rw [hbind _ _ hpipe, hbind _ _ hget]

/-- The loop goes past label `retry` only if there is a table. -/
def Exec.Backed (e : Exec) (w : World ω) : Prop :=
  match e.pc with
  | .retry | .done _ | .ret _ => True
  | _ => w.cc.table ≠ none

theorem Exec.Backed.of_table {e : Exec} {w : World ω} (h : w.cc.table ≠ none) : e.Backed w := by
  unfold Exec.Backed
  split
  · trivial
  · trivial
  · trivial
  · exact h

variable (H)

theorem execRetry_backed (cmd : Cmd) (u : Option ConnId) (w : World ω) :
    wp (execRetry H cmd u) (fun e w' => e.Backed w') w := by
  have hgo : ∀ {α : Type} {m : Prog ω α} {f : α → Prog ω Exec} {w₁ : World ω},
      Within Lawful (m >>= f) → w₁.cc.table ≠ none → wp (m >>= f) (fun e w' => e.Backed w') w₁ :=
    fun hm ht => Exec.Backed.of_table ((hm _).table ht)
  have hsome : ∀ {n : NodeId} {r : Option NodeId} {w₁ w₂ : World ω} {slot : ℕ},
      (∀ n, r = some n → w₂ = w₁ ∧ slot < redisClusterSlots ∧
        ∃ t, w₁.cc.table = some t ∧ t slot = some n) → r = some n → w₂.cc.table ≠ none := by
    intro n r w₁ w₂ slot h hr
    obtain ⟨rfl, -, t, ht, -⟩ := h n hr
    rw [ht]
    exact Option.some_ne_none t
  unfold execRetry
  rw [wp_bind]
  refine wp_mono (nodeGetByTable_some _ w) fun r w₁ h₁ => ?_
  cases r with
  | some n => exact hgo (within_connectOrUpdate H cmd n u) (hsome h₁ rfl)
  | none =>
    dsimp only
    rw [wp_bind]
    refine wp_mono (P := fun _ _ => True) trivial fun s w₂ _ => ?_
    cases s with
    | err => exact trivial
    | ok =>
      dsimp only
      rw [wp_bind]
      refine wp_mono (nodeGetByTable_some _ w₂) fun r w₃ h₃ => ?_
      cases r with
      | none => exact trivial
      | some n => exact hgo (within_connectOrUpdate H cmd n u) (hsome h₃ rfl)

theorem execAt_backed (cmd : Cmd) (w : World ω) (n : ℕ) :
    (execAt H cmd w n).1.Backed (execAt H cmd w n).2 := by
  induction n with
  | zero => exact trivial
  | succ n ih =>
    unfold execAt at ih ⊢
    rw [Function.iterate_succ_apply']
    generalize (execNext H cmd)^[n] (execStart, w) = s at ih
    obtain ⟨⟨pc, u⟩, w₁⟩ := s
    -- once there is a table there always is one
    have hlaw : Lawful w₁ (execNext H cmd (⟨pc, u⟩, w₁)).2 := within_execStep H cmd _ w₁
    cases pc with
    | retry => exact execRetry_backed H cmd u w₁
    | done r =>
      have hret := (execDone_returns H r u w₁).2
      show Exec.Backed (execDone H r u w₁).1 (execDone H r u w₁).2
      unfold Exec.Backed
      rcases hret with h | h <;> (rw [h]; trivial)
    | ret r => exact trivial
    | send c => exact Exec.Backed.of_table (hlaw.table ih)
    | moved m c => exact Exec.Backed.of_table (hlaw.table ih)
    | follow m b => exact Exec.Backed.of_table (hlaw.table ih)
    | asking c => exact Exec.Backed.of_table (hlaw.table ih)

variable {H}

theorem Receives.table {cmd : Cmd} {w w' : World ω} {n : ℕ} {c : ConnId} {u : Option ConnId}
    {a : Answer} (h : Receives H cmd w n c u a w') (ho : Ordered w) :
    Ordered w' ∧ w'.cc.table ≠ none := by
  obtain ⟨u₀, w₀, w₁, w₂, hat, happ, hpipe, hget⟩ := h
  have hback := execAt_backed H cmd w n
  have hrun : Lawful w (execAt H cmd w n).2 := within_execAt H cmd w n
  rw [hat] at hback hrun
  have h₁ : Lawful w₀ w₁ := by
    have := within_redisAppendCommand (R := Lawful) H c (.command cmd.id cmd.cmd) w₀
    rwa [happ] at this
  have h₂ : Lawful w₁ w₂ := by
    have := within_pipelineUpdate (R := Lawful) H c u₀ w₁
    rwa [hpipe] at this
  have h₃ : Lawful w₂ w' := by
    have := within_redisGetReply (R := Lawful) H c (.command cmd.id cmd.cmd) w₂
    rwa [hget] at this
  have hlaw := (h₁.trans h₂).trans h₃
  exact ⟨hlaw.ordered (hrun.ordered ho), hlaw.table hback⟩

/-- A redirect is an error reply of one of two kinds. -/
def IsRedirect (r : Reply) : Prop :=
  clusterReplyErrorType r = .moved ∨ clusterReplyErrorType r = .ask

theorem unpointed_of_cc {w : World ω} (cc : Context) (hn : cc.nodes = w.cc.nodes)
    (ht : cc.table = w.cc.table) : Unpointed w { w with cc := cc } :=
  ⟨hn, ht, Nat.le_refl _, fun _ _ => rfl, rfl⟩

theorem execReply_treated (c : ConnId) (u : Option ConnId) {a : Answer} (hr : IsRedirect a.reply)
    {w : World ω} (ho : Ordered w) :
    Treated (clusterReplyErrorType a.reply) a.reply.text (w.cc.retryCount < w.cc.maxRetryCount) w
      (execReply c u a w).2 := by
  have hcount := unpointed_of_cc (w := w) { w.cc with retryCount := w.cc.retryCount + 1 } rfl rfl
  have ho₁ : Ordered { w with cc := { w.cc with retryCount := w.cc.retryCount + 1 } } :=
    ho.of_cc rfl rfl
  have hredirect : ∀ type, type = .moved ∨ type = .ask →
      wp (execRedirect c u type a.reply.text) (fun _ w' => Treated type a.reply.text
        (w.cc.retryCount < w.cc.maxRetryCount) w w') w := by
    intro type htype
    unfold execRedirect
    rw [wp_bind, wp_modifyCc, wp_bind, wp_get]
    split
    · rename_i hmax
      have hmax : w.cc.maxRetryCount < w.cc.retryCount + 1 := hmax
      exact .ignored (Or.inl (by omega)) (hcount.trans (unpointed_of_cc _ rfl rfl))
    · rename_i hmax
      have hlive : w.cc.retryCount < w.cc.maxRetryCount := by
        have hmax : ¬ w.cc.maxRetryCount < w.cc.retryCount + 1 := hmax
        omega
      rcases htype with rfl | rfl
      · dsimp only
        rw [wp_bind]
        refine wp_mono (handleMoved_treated _ hlive ho₁) fun r w₁ h₁ => ?_
        cases r with
        | none => exact h₁.after hcount
        | some m => exact h₁.after hcount
      · dsimp only
        rw [wp_bind]
        refine wp_mono (handleAsk_treated _ (w.cc.retryCount < w.cc.maxRetryCount) _) fun r w₁ h₁ => ?_
        cases r with
        | none => exact h₁.after hcount
        | some m => exact h₁.after hcount
  unfold execReply
  rcases hr with hr | hr
  · rw [hr]
    exact hredirect .moved (Or.inl rfl)
  · rw [hr]
    exact hredirect .ask (Or.inr rfl)

end Loop

/-! ## The callback of an asynchronous command -/

section Callback

variable (H : Hiredis ω)

theorem unpointed_callUser (k : ℕ) (r : Option Reply) :
    Within Unpointed (callUser k r : Prog ω Bool) := by
  refine within_bind within_get fun w => ?_
  split
  · exact within_bind (fun _ => ⟨rfl, rfl, Nat.le_refl _, fun _ _ => rfl, rfl⟩) fun _ => within_pure _
  · exact within_bind (fun _ => ⟨rfl, rfl, Nat.le_refl _, fun _ _ => rfl, rfl⟩) fun _ =>
      within_bind (fun w => (calm_userHook w).toLinking.unpointed) fun _ => within_pure _

theorem unpointed_redisAsyncCommand (a : AConnId) (cb : ACallback) (q : Sent) :
    Within Unpointed (redisAsyncCommand H a cb q) := by
  intro w
  have h := redisAsyncCommand_cases H a cb q w
  unfold wp at h
  rcases h with ⟨-, e, f, h⟩ | ⟨-, e, h⟩
  · rw [h]
    exact ⟨rfl, rfl, Nat.le_refl _, fun _ _ => rfl, rfl⟩
  · rw [h]
    exact ⟨rfl, rfl, Nat.le_refl _, fun _ _ => rfl, rfl⟩

theorem unpointed_resubmit (k : ℕ) (a : AConnId) : Within Unpointed (resubmit H k a) :=
  within_bind within_get fun _ =>
    within_bind (unpointed_redisAsyncCommand H a _ _) fun _ => within_pure _

theorem unpointed_of_aside {α : Type} {m : Prog ω α} (h : Within Aside m) : Within Unpointed m :=
  fun w => (h w).unpointed

theorem asyncMoved_treated (a : AConnId) (k : ℕ) (r : Reply) {live : Prop} (hlive : live)
    {w : World ω} (ho : Ordered w) :
    wp (asyncMoved H a k r) (fun _ w' => Treated .moved r.text live w w') w := by
  unfold asyncMoved
  rw [wp_bind]
  refine wp_mono ((aside_throttledUpdateSlotMapAsync H (some a)).wp w) fun _ w₁ h₁ => ?_
  rw [wp_bind]
  refine wp_mono (handleMoved_treated r.text hlive (ho.aside h₁)) fun n w₂ h₂ => ?_
  have h₂ := h₂.after h₁.unpointed
  cases n with
  | none =>
    exact h₂.before (within_bind (unpointed_of_aside aside_copyContextError)
      (fun _ => unpointed_callUser k (some r)) w₂)
  | some n =>
    refine h₂.before (within_bind (unpointed_of_aside (within_actxGetByNode H n)) (fun a' => ?_) w₂)
    cases a' with
    | none =>
      exact within_bind (fun _ => ⟨rfl, rfl, Nat.le_refl _, fun _ _ => rfl, rfl⟩) fun _ =>
        within_pure _
    | some a' => exact unpointed_resubmit H k a'

theorem asyncAsk_treated (k : ℕ) (r : Reply) (live : Prop) (w : World ω) :
    wp (asyncAsk H k r) (fun _ w' => Treated .ask r.text live w w') w := by
  unfold asyncAsk
  rw [wp_bind]
  refine wp_mono (handleAsk_treated r.text live w) fun n w₁ h₁ => ?_
  cases n with
  | none =>
    exact h₁.before (within_bind (unpointed_of_aside aside_copyContextError)
      (fun _ => unpointed_callUser k (some r)) w₁)
  | some n =>
    refine h₁.before (within_bind (unpointed_of_aside (within_actxGetByNode H n)) (fun a => ?_) w₁)
    cases a with
    | none => exact unpointed_callUser k (some r)
    | some a =>
      refine within_bind (unpointed_redisAsyncCommand H a _ _) fun s => ?_
      cases s with
      | err => exact within_pure _
      | ok => exact unpointed_resubmit H k a

/-- The redirect of an asynchronous command is followed. -/
def World.follows (w : World ω) (k : ℕ) (r : Reply) : Prop :=
  w.final k r = false ∧ (w.cads k).retryCount < w.cc.maxRetryCount

theorem redisClusterAsyncCallback_treated (a : AConnId) (k : ℕ) {r : Reply} (hr : IsRedirect r)
    {w : World ω} (ho : Ordered w) :
    Treated (clusterReplyErrorType r) r.text (w.follows k r) w
      (redisClusterAsyncCallback H a k (some r) w).2 := by
  have hredirect : ∀ type, type = .moved ∨ type = .ask → w.final k r = false →
      wp (asyncRedirect H a k type r) (fun _ w' => Treated type r.text (w.follows k r) w w') w := by
    intro type htype hfinal
    have hcount : Unpointed w (modifyCad k (fun cad =>
        { cad with retryCount := cad.retryCount + 1 }) w).2 :=
      ⟨rfl, rfl, Nat.le_refl _, fun _ _ => rfl, rfl⟩
    have hcad : ((modifyCad k (fun cad =>
        { cad with retryCount := cad.retryCount + 1 }) w).2.cads k).retryCount =
          (w.cads k).retryCount + 1 := by
      show (Function.update w.cads k _ k).retryCount = _
      rw [Function.update_self]
    unfold asyncRedirect
    rw [wp_bind]
    refine wp_mono (P := fun _ w₁ => Unpointed w w₁ ∧ Ordered w₁ ∧ w₁.cc = w.cc ∧
      (w₁.cads k).retryCount = (w.cads k).retryCount + 1)
      ⟨hcount, ho.of_async rfl rfl rfl rfl rfl, rfl, hcad⟩ fun _ w₁ h₁ => ?_
    obtain ⟨hq, ho₁, hcc, hcad⟩ := h₁
    rw [wp_bind, wp_get, hcc, hcad]
    split
    · rename_i hmax
      refine .ignored (Or.inl fun h => ?_) (hq.trans ?_)
      · have := h.2
        omega
      · exact within_bind (fun _ => ⟨rfl, rfl, Nat.le_refl _, fun _ _ => rfl, rfl⟩) (fun _ =>
          within_bind (unpointed_of_aside (aside_asyncSetError _ _)) fun _ =>
            unpointed_callUser k (some r)) w₁
    · rename_i hmax
      have hlive : w.follows k r := ⟨hfinal, by omega⟩
      rcases htype with rfl | rfl
      · exact wp_mono (asyncMoved_treated H a k r hlive ho₁) fun _ _ h => h.after hq
      · exact wp_mono (asyncAsk_treated H k r _ w₁) fun _ _ h => h.after hq
  show Treated _ _ _ w ((if w.final k r then callUser k (some r)
    else asyncRedirect H a k (clusterReplyErrorType r) r : Prog ω Bool) w).2
  split
  · rename_i hfinal
    refine .ignored (Or.inl fun h => ?_) (unpointed_callUser k (some r) w)
    rw [h.1] at hfinal
    cases hfinal
  · rename_i hfinal
    exact hredirect _ hr (Bool.eq_false_iff.mpr hfinal)

end Callback

/-! ## There is a table -/

section Table

variable (H : Hiredis ω)

/-- There is a table. -/
def World.Tabled (w : World ω) : Prop := w.cc.table ≠ none

theorem keeps_tabled_of_aside {α : Type} {m : Prog ω α} (h : Within Aside m) :
    Keeps World.Tabled m := fun w ht => by
  unfold World.Tabled
  rw [(h w).cc]
  exact ht

instance : LibClosed (Keeping (@World.Tabled ω)) := LibClosed.of_lawful fun _ _ h => h.table

instance : CommandClosed (Keeping (@World.Tabled ω)) := CommandClosed.of_lawful fun _ _ h => h.table

instance : AsyncClosed H (Keeping (@World.Tabled ω)) where
  toCallClosed := CallClosed.of_lawful H fun _ _ h => h.table
  modifyAcc _ := fun _ ht => ht
  modifyCad _ _ := fun _ ht => ht
  newCad _ := fun _ ht => ht
  send a cb q _ := fun w ht => by
    unfold World.Tabled
    rw [(unpointed_redisAsyncCommand H a cb q w).table]
    exact ht
  actxGetByNode n := keeps_tabled_of_aside (within_actxGetByNode H n)
  updateSlotMapAsync a := keeps_tabled_of_aside (aside_updateSlotMapAsync H a)
  shutdown _ := fun _ ht => ht
  disconnectNode n := keeps_tabled_of_aside (aside_disconnectNode n)

theorem tabled_topologyReplyCallback (a : AConnId) (b : Bool) (reply : Option Reply) :
    Keeps World.Tabled (topologyReplyCallback H a b reply) := by
  have hagain : Keeps World.Tabled (do
      let _ ← updateSlotMapAsync H none
      pure false) :=
    within_bind (keeps_tabled_of_aside (aside_updateSlotMapAsync H none)) fun _ => within_pure _
  refine within_bind (keeps_tabled_of_aside (aside_stampSlotmapUpdate H)) fun _ => ?_
  split
  · exact hagain
  · rename_i r
    refine within_get_bind fun w ht => ?_
    show wp _ (fun _ w' => w'.Tabled) w
    rw [wp_bind]
    refine wp_mono (parseTopology_fresh b (w.aconns a).host r w) fun nodes w₁ h₁ => ?_
    obtain ⟨hc, hfresh⟩ := h₁
    cases nodes with
    | none => exact hagain w₁ (hc.lawful.table ht)
    | some d =>
      dsimp only
      rw [wp_bind]
      refine wp_mono (installNodes_updates hc (hfresh d rfl)) fun s w₂ h₂ => ?_
      cases s with
      | ok => exact h₂.lawful.table ht
      | err => exact hagain w₂ (h₂.lawful.table ht)

variable {H}

/-- Only the release of the context takes the table away. -/
theorem act_tabled {c : Client ω} (h : c.world.Tabled) {x : ClientAction} (hx : x ≠ .call .asyncFree) :
    (act H c x).world.Tabled := by
  cases x with
  | call op =>
    exact Call.within_run (R := Keeping World.Tabled) H op (fun addr _ => LibClosed.addNode addr)
      (fun ho => absurd (by rw [ho]) hx) _ h
  | connected a => exact h
  | failed a f => exact h
  | deliver a reply =>
    unfold act
    dsimp only
    split
    · exact h
    · exact within_runCallback (R := Keeping World.Tabled) H a reply
        (fun b _ => tabled_topologyReplyCallback H a b reply) _ h
  | free a => exact h
  | closed a => exact keeps_tabled_of_aside (aside_unlinkAsyncContextAndNode a) _ h
  | ret =>
    unfold act
    dsimp only
    split
    · exact h
    · exact within_resume (R := Keeping World.Tabled) H _ _ h

theorem act_free {c : Client ω} (h : .free ∈ c.stack) (x : ClientAction) : .free ∈ (act H c x).stack := by
  cases x with
  | call op => exact List.mem_append_right _ h
  | connected a => exact h
  | failed a f => exact h
  | deliver a reply =>
    unfold act
    dsimp only
    split
    · exact h
    · exact List.mem_append_right _ h
  | free a => exact h
  | closed a => exact h
  | ret =>
    unfold act
    dsimp only
    split
    · exact h
    · rename_i f stack hstack
      rw [hstack] at h
      rcases List.mem_cons.mp h with rfl | h
      · exact List.mem_cons_self
      · exact List.mem_append_right _ h

/-- A command that may be retried is pending only as long as there is a table. -/
structure Client.Backed (c : Client ω) : Prop where
  fresh : ∀ k, c.world.nextCad ≤ k → c.world.pendingOn k = []
  table : .free ∈ c.stack ∨ ∀ k, c.world.pendingOn k ≠ [] →
    (c.world.cads k).retryCount ≠ noRetry → c.world.Tabled

/-- No command is pending before it exists. -/
theorem act_fresh {c : Client ω} (h : ∀ k, c.world.nextCad ≤ k → c.world.pendingOn k = [])
    (x : ClientAction) : ∀ k, (act H c x).world.nextCad ≤ k → (act H c x).world.pendingOn k = [] := by
  have hturn : ∀ {a : AConnId} {j : ℕ} {n : ℤ} {sub : List AConnId} {calls : List (Option Reply)}
      {w' : World ω}, Turn j n sub calls (takeCallback a c.world).2 w' →
      c.world.oldest a = some (.user j) → ∀ k, w'.nextCad ≤ k → w'.pendingOn k = [] := by
    intro a j n sub calls w' htn ho k hk
    rw [htn.nextCad] at hk
    have hne : k ≠ j := by
      rintro rfl
      have hlen := takeCallback_pending ho k
      rw [if_pos rfl, h k hk] at hlen
      simp at hlen
    rw [htn.pending, if_neg hne, takeCallback_pending_other ho hne, h k hk]
    rfl
  intro k hk
  cases act_effect H c x with
  | steady hs =>
    rw [hs.cads.2] at hk
    rw [hs.pending]
    exact h k hk
  | admits _ ha _ =>
    rcases ha with ⟨-, hs⟩ | ⟨a, ha⟩
    · rw [hs.cads.2] at hk
      rw [hs.pending]
      exact h k hk
    · rw [ha.nextCad] at hk
      rw [ha.pending, if_neg (by omega), h k (by omega)]
      rfl
  | delivered hj ho =>
    generalize (callbackSafe H _ _ _ _).1 = safe at ho
    cases ho with
    | called htn _ _ => exact hturn htn hj k hk
    | resubmitted htn _ _ _ => exact hturn htn hj k hk
    | lost htn _ => exact hturn htn hj k hk

theorem Client.Backed.act {c : Client ω} (hb : c.Backed) (x : ClientAction) : (act H c x).Backed := by
  refine ⟨act_fresh hb.fresh x, ?_⟩
  rcases hb.table with h | h
  · exact Or.inl (act_free h x)
  by_cases hx : x = .call .asyncFree
  · subst hx
    exact Or.inl List.mem_cons_self
  refine Or.inr fun k hk hretry => ?_
  have hturn : ∀ {a : AConnId} {j : ℕ} {n : ℤ} {sub : List AConnId} {calls : List (Option Reply)}
      {w' : World ω}, Turn j n sub calls (takeCallback a c.world).2 w' →
      c.world.oldest a = some (.user j) → Counted (c.world.cads j).retryCount n →
      w'.pendingOn k ≠ [] → (w'.cads k).retryCount ≠ noRetry →
      c.world.pendingOn k ≠ [] ∧ (c.world.cads k).retryCount ≠ noRetry := by
    intro a j n sub calls w' htn ho hn hk hretry
    rcases eq_or_ne k j with rfl | hne
    · have hlen := takeCallback_pending ho k
      rw [if_pos rfl] at hlen
      refine ⟨List.length_pos_iff.mp (by omega), fun h => ?_⟩
      rw [htn.counter] at hretry
      exact hretry ((hn.resolve_right fun hno => hno.1 h).trans h)
    · rw [htn.pending, if_neg hne, takeCallback_pending_other ho hne, List.append_nil] at hk
      rw [htn.cads, Function.update_of_ne hne] at hretry
      exact ⟨hk, hretry⟩
  cases act_effect H c x with
  | steady hs =>
    rw [hs.pending] at hk
    rw [hs.cads.1] at hretry
    exact act_tabled (h k hk hretry) hx
  | @admits op n s w' hn ha htab =>
    rcases ha with ⟨-, hs⟩ | ⟨a, ha⟩
    · rw [hs.pending] at hk
      rw [hs.cads.1] at hretry
      exact act_tabled (h k hk hretry) hx
    · rcases eq_or_ne k c.world.nextCad with rfl | hne
      · rw [ha.counter] at hretry
        rw [ha.pending, if_pos rfl, hb.fresh _ (Nat.le_refl _)] at hk
        refine htab ?_ hretry
        by_contra hs
        rw [if_neg hs] at hk
        exact hk rfl
      · rw [ha.pending, if_neg hne, List.append_nil] at hk
        have hlt : k < c.world.nextCad := by
          by_contra hge
          exact hk (hb.fresh k (Nat.not_lt.mp hge))
        rw [ha.cads k hlt] at hretry
        exact act_tabled (h k hk hretry) hx
  | delivered hj ho =>
    generalize (callbackSafe H _ _ _ _).1 = safe at ho
    cases ho with
    | called htn _ hn =>
      have hold := hturn htn hj hn hk hretry
      exact act_tabled (h k hold.1 hold.2) hx
    | resubmitted htn _ _ hr =>
      have hold := hturn htn hj (Or.inr ⟨hr, Or.inl rfl⟩) hk hretry
      exact act_tabled (h k hold.1 hold.2) hx
    | lost htn hn =>
      have hold := hturn htn hj hn hk hretry
      exact act_tabled (h k hold.1 hold.2) hx

theorem Reaches.backed {G : Client ω → ClientAction → Prop} {c : Client ω} (h : Reaches H G c) :
    c.Backed := by
  refine Reaches.invariant H (I := Client.Backed) (fun w hw => ?_) (fun _ x _ _ hb => hb.act x) h
  have hp : ∀ k, w.pendingOn k = [] := fun k => by
    rw [World.pendingOn, hw.inflight]
    rfl
  exact ⟨fun k _ => hp k, Or.inr fun k hk => absurd (hp k) hk⟩

end Table

/-! ## Every redirect -/

section Redirects

variable {H : Hiredis ω}

/-- **What a redirect does is contained in the slot table if and only if the slot it names
is a slot**, for blocking commands in every state of the command loop and for asynchronous
ones in every state of the client. -/
theorem redirects_contained_iff {c : Client ω} (h : Reachable H c) :
    (∀ (w : World ω) (cmd : Cmd) (n : ℕ) (conn : ConnId) (u : Option ConnId) (a : Answer)
        (w' : World ω), Ordered w → Receives H cmd w n conn u a w' → IsRedirect a.reply →
      (Contained (clusterReplyErrorType a.reply) a.reply.text
          (w'.cc.retryCount < w'.cc.maxRetryCount) w' (execAt H cmd w (n + 1)).2 ↔
        ¬ Outside (clusterReplyErrorType a.reply) a.reply.text
          (w'.cc.retryCount < w'.cc.maxRetryCount))) ∧
    ∀ (a : AConnId) (k : ℕ) (r : Reply), Enabled c (.deliver a (some r)) →
      c.world.oldest a = some (.user k) → IsRedirect r →
      (Contained (clusterReplyErrorType r) r.text (c.world.follows k r) c.world
          (act H c (.deliver a (some r))).world ↔
        ¬ Outside (clusterReplyErrorType r) r.text (c.world.follows k r)) := by
  constructor
  · intro w cmd n conn u a w' ho hrec hr
    obtain ⟨ho', htab⟩ := hrec.table ho
    have ht := execReply_treated conn u hr ho'
    rw [← hrec.next] at ht
    exact ht.contained_iff fun _ => htab
  · intro a k r he hk hr
    have ho : Ordered (takeCallback a c.world).2 := (h.ordered H).of_async rfl rfl rfl rfl rfl
    have ht := (redisClusterAsyncCallback_treated H a k hr ho).after (w := c.world)
      ⟨rfl, rfl, Nat.le_refl _, fun _ _ => rfl, rfl⟩
    rw [← act_deliver_user H (some r) hk] at ht
    refine ht.contained_iff fun hlive => ?_
    -- a reply is delivered from the event loop, so that the context is there
    have hstack : c.stack = [] := by
      have henabled := he.2.2
      split at henabled
      · cases henabled.2
      · exact henabled
    refine (h.backed.table.resolve_left (by simp [hstack])) k ?_ fun hno => ?_
    · have hlen := takeCallback_pending hk k
      rw [if_pos rfl] at hlen
      exact List.length_pos_iff.mp (by omega)
    · have hfinal : c.world.final k r = false := hlive.1
      rw [World.final, hno] at hfinal
      simp at hfinal

end Redirects

/-- `GET k` is sent and redirected to the slot with the text `slotText`. -/
def getKMoved (slotText : String) : Reply := .error (ascii ("MOVED " ++ slotText ++ " b:2"))

/-- A client that waits for the reply to `GET k`. -/
def awaitingK : Client (List Reply) := perform Hiredis.atWork (newAsyncClient [])
  (asyncServe ++ [.call (.asyncCommand (some 0) getK)])

theorem reachable_awaitingK : Reachable Hiredis.atWork awaitingK :=
  Reaches.perform _ (reaches_newAsyncClient _ _ []) _ (by decide +kernel)

/-- A slot that exists. -/
theorem redirects_contained_iff_moved :
    Contained .moved (getKMoved "7629").text (awaitingK.world.follows 0 (getKMoved "7629"))
      awaitingK.world (act Hiredis.atWork awaitingK (.deliver 0 (some (getKMoved "7629")))).world := by
  refine ((redirects_contained_iff reachable_awaitingK).2 0 0 (getKMoved "7629") (by decide +kernel)
    (by decide +kernel) (Or.inl (by decide +kernel))).mpr ?_
  rintro ⟨-, -, slotText, endpoint, hf, hnot⟩
  have hfields : redirectFields (getKMoved "7629").text = some (ascii "7629", ascii "b:2") := by
    decide +kernel
  rw [hfields] at hf
  obtain ⟨rfl, rfl⟩ := Prod.mk.inj (Option.some.inj hf)
  refine hnot fun v hv => Or.inl ?_
  have hdenoted : denoted (ascii "7629") = some 7629 := by decide +kernel
  rw [hdenoted] at hv
  obtain rfl := Option.some.inj hv
  decide

/-- **A MOVED to slot 16384 is written behind the end of the table, and one to
`2 ^ 32 + 7629`, which is no slot either, re-points slot 7629.** -/
theorem movedOutside_not_contained :
    Reachable Hiredis.atWork awaitingK ∧ awaitingK.world.oldest 0 = some (.user 0) ∧
      (Enabled awaitingK (.deliver 0 (some (getKMoved "16384"))) ∧
        clusterReplyErrorType (getKMoved "16384") = .moved ∧
        ¬ Contained .moved (getKMoved "16384").text (awaitingK.world.follows 0 (getKMoved "16384"))
          awaitingK.world
          (act Hiredis.atWork awaitingK (.deliver 0 (some (getKMoved "16384")))).world) ∧
      Enabled awaitingK (.deliver 0 (some (getKMoved "4294974925"))) ∧
        clusterReplyErrorType (getKMoved "4294974925") = .moved ∧
        ¬ Contained .moved (getKMoved "4294974925").text
          (awaitingK.world.follows 0 (getKMoved "4294974925")) awaitingK.world
          (act Hiredis.atWork awaitingK (.deliver 0 (some (getKMoved "4294974925")))).world := by
  refine ⟨reachable_awaitingK, by decide +kernel,
    ⟨by decide +kernel, by decide +kernel, fun h => ?_⟩, by decide +kernel, by decide +kernel,
    fun h => ?_⟩
  · have hstored : (16384, 2) ∈ (act Hiredis.atWork awaitingK
        (.deliver 0 (some (getKMoved "16384")))).world.stores.drop awaitingK.world.stores.length := by
      decide +kernel
    obtain ⟨-, -, slotText, endpoint, -, v, -, heq, hlt⟩ := h.inside _ hstored
    unfold redisClusterSlots at hlt
    omega
  · have hstored : (7629, 2) ∈ (act Hiredis.atWork awaitingK (.deliver 0
        (some (getKMoved "4294974925")))).world.stores.drop awaitingK.world.stores.length := by
      decide +kernel
    have hfields : redirectFields (getKMoved "4294974925").text =
        some (ascii "4294974925", ascii "b:2") := by
      decide +kernel
    have hdenoted : denoted (ascii "4294974925") = some 4294974925 := by decide +kernel
    obtain ⟨-, -, slotText, endpoint, hf, v, hv, heq, -⟩ := h.inside _ hstored
    rw [hfields] at hf
    obtain ⟨rfl, rfl⟩ := Prod.mk.inj (Option.some.inj hf)
    rw [hdenoted] at hv
    obtain rfl := Option.some.inj hv
    exact absurd heq (by decide)
