/-
# Asynchronous connections and nodes stay linked one to one

Every action of a client keeps the links of asynchronous connections and nodes one to one:
connecting, disconnecting and freeing a connection, updates of the slot map, redirects, and
commands that are issued from callbacks.  `Reaches.paired` is the invariant of whole runs.
-/
import HiredisCluster.Relinking
import HiredisCluster.Visiting

open Program

variable {ω : Type}

/-! ## Single connections -/

/-- Connection `a` is made, or changed, and names no node then.  Nobody in use has it; if it is
alive it is the loose one, or it was left behind. -/
theorem Linked.detach {loose loose' : Option AConnId} {w : World ω} (h : Linked loose w) {a : AConnId}
    {conn : AConn} {next : AConnId} (inflight : List (AConnId × ACallback))
    (hdata : conn.data = none) (hnext : w.nextAConn ≤ next)
    (hlive : conn.alive = true → a < next ∧ (loose' = some a ∨ w.LetGo a))
    (hclosing : a ∈ w.closing → conn.alive = true → w.LetGo a)
    (hheld : ∀ n < w.nextNode, w.Known n → (w.heap n).acon ≠ some a)
    (hloose : ∀ b ≠ a, loose = some b → loose' = some b)
    (hapart : ∀ b, loose' = some b → b = a ∧ a < next ∧ a ∉ w.closing ∧
      ∀ n < w.nextNode, (w.heap n).acon ≠ some a) :
    Linked loose' { w with
      aconns := Function.update w.aconns a conn, nextAConn := next, inflight := inflight } := by
  set w' : World ω := { w with
    aconns := Function.update w.aconns a conn, nextAConn := next, inflight := inflight }
  have hself : w'.aconns a = conn := Function.update_self _ _ _
  have hother : ∀ b ≠ a, w'.aconns b = w.aconns b := fun b hb => Function.update_of_ne hb _ _
  refine ⟨fun n hn b hb => lt_of_lt_of_le (h.young n hn b hb) hnext, fun b hb => ?_,
    fun n hn b hb => ?_, fun n hn hk b hb => ?_, fun b n hb hd => ?_, fun b hb hd hl => ?_,
    fun b hb => ?_, h.replicas, fun b hl => ?_⟩
  · rcases eq_or_ne b a with rfl | hne
    · exact (hlive (hself ▸ hb)).1
    · rw [hother b hne] at hb
      exact lt_of_lt_of_le (h.live b hb) hnext
  · rcases eq_or_ne b a with rfl | hne
    · rw [hself]
      exact Or.inr hdata
    · rw [hother b hne]
      exact h.named n hn b hb
  · have hne : b ≠ a := by
      rintro rfl
      exact hheld n hn hk hb
    rw [hother b hne]
    exact h.held n hn hk b hb
  · have hne : b ≠ a := by
      rintro rfl
      rw [hself, hdata] at hd
      cases hd
    rw [hother b hne] at hb hd
    exact h.owner b n hb hd
  · rcases eq_or_ne b a with rfl | hne
    · exact (hlive (hself ▸ hb)).2.resolve_left hl
    · rw [hother b hne] at hb hd
      exact h.letGo b hb hd fun heq => hl (hloose b hne heq)
  · obtain ⟨hlt, hgone⟩ := h.closing b hb
    refine ⟨lt_of_lt_of_le hlt hnext, fun hl => ?_⟩
    rcases eq_or_ne b a with rfl | hne
    · exact hclosing hb (hself ▸ hl)
    · rw [hother b hne] at hl
      exact hgone hl
  · obtain ⟨rfl, hlt, hno, hfree⟩ := hapart b hl
    exact ⟨hlt, (congrArg AConn.data hself).trans hdata, hno, hfree⟩

theorem Paired.detach {loose loose' : Option AConnId} {w : World ω} (h : Paired loose w) {a : AConnId}
    {conn : AConn} {next : AConnId} (inflight : List (AConnId × ACallback))
    (hdata : conn.data = none) (hnext : w.nextAConn ≤ next)
    (hlive : conn.alive = true → a < next ∧ (loose' = some a ∨ w.LetGo a))
    (hclosing : a ∈ w.closing → conn.alive = true → w.LetGo a)
    (hheld : ∀ n < w.nextNode, w.Known n → (w.heap n).acon ≠ some a)
    (hloose : ∀ b ≠ a, loose = some b → loose' = some b)
    (hapart : ∀ b, loose' = some b → b = a ∧ a < next ∧ a ∉ w.closing ∧
      ∀ n < w.nextNode, (w.heap n).acon ≠ some a)
    (hunfreed : loose' ≠ none → conn.freeing = false) :
    Paired loose' { w with
      aconns := Function.update w.aconns a conn, nextAConn := next, inflight := inflight } := by
  refine ⟨h.toLinked.detach inflight hdata hnext hlive hclosing hheld hloose hapart,
    fun b n hb hd => ?_, fun b hl => ?_⟩
  · have hne : b ≠ a := by
      rintro rfl
      have hself := congrArg AConn.data (Function.update_self b conn w.aconns)
      cases (hself.trans hdata).symm.trans hd
    dsimp only at hb hd ⊢
    rw [Function.update_of_ne hne] at hb hd ⊢
    exact h.homed b n hb hd
  · obtain ⟨rfl, -⟩ := hapart b hl
    have hself := congrArg AConn.freeing (Function.update_self b conn w.aconns)
    exact hself.trans (hunfreed (hl ▸ Option.some_ne_none b))

/-- A new connection is loose. -/
theorem paired_newAConn {w : World ω} (h : Paired none w) (host : Bytes) (port : ℕ)
    (err : Option Fault) : Paired (some w.nextAConn) (newAConn host port err w).2 := by
  have hlt : w.nextAConn < w.nextAConn + 1 := Nat.lt_succ_self _
  have hfree : ∀ n < w.nextNode, (w.heap n).acon ≠ some w.nextAConn := fun n hn ha =>
    absurd (h.young n hn _ ha) (Nat.lt_irrefl _)
  have hno : w.nextAConn ∉ w.closing := fun hmem => absurd (h.closing _ hmem).1 (Nat.lt_irrefl _)
  exact h.detach w.inflight rfl (Nat.le_succ _) (fun _ => ⟨hlt, Or.inl rfl⟩)
    (fun hmem => absurd hmem hno) (fun n hn _ => hfree n hn) (fun b _ hb => by cases hb)
    (fun b hb => ⟨(Option.some.inj hb).symm, hlt, hno, hfree⟩) fun _ => rfl

/-- A connection that is not good enough is freed at once. -/
theorem paired_redisAsyncFree {w : World ω} {a : AConnId} (h : Paired (some a) w) :
    Paired none (redisAsyncFree a w).2 := by
  obtain ⟨-, hdata, -, hfree⟩ := h.apart a rfl
  exact h.detach _ hdata le_rfl (fun hl => by cases hl) (fun _ hl => by cases hl)
    (fun n hn _ => hfree n hn) (fun b hb heq => absurd (Option.some.inj heq).symm hb)
    (fun b hb => by cases hb) fun hne => absurd rfl hne

/-- hiredis begins to free the connection of a released node. -/
theorem paired_beginAsyncFree {w : World ω} {a : AConnId} (h : Paired none w) (ha : a ∈ w.closing)
    (hlive : (w.aconns a).alive = true) : Paired none (beginAsyncFree a w).2 := by
  obtain ⟨hlt, hgone⟩ := h.closing a ha
  refine h.detach w.inflight rfl le_rfl (fun _ => ⟨hlt, Or.inr (hgone hlive)⟩)
    (fun _ _ => hgone hlive) (fun n hn hk hacon => ?_) (fun b _ hb => by cases hb)
    (fun b hb => by cases hb) fun hne => absurd rfl hne
  obtain ⟨m, hm, hma, -, hno⟩ := hgone hlive
  obtain rfl := h.unique hn hm hk hacon hma
  exact hno hk

/-- The loose connection becomes that of a node without one. -/
theorem paired_linkAsync {w : World ω} {a : AConnId} (h : Paired (some a) w) {n : NodeId}
    (hn : n < w.nextNode) (hk : w.Known n) (hnone : (w.heap n).acon = none) :
    Paired none (linkAsync n a w).2 := by
  set w' : World ω := (linkAsync n a w).2
  obtain ⟨hlt, hdata, hno, hfree⟩ := h.apart a rfl
  have hplaced : w'.heap n = { w.heap n with acon := some a } := Function.update_self _ _ _
  have hself : (w'.heap n).acon = some a := congrArg Node.acon hplaced
  have hheap : ∀ m ≠ n, w'.heap m = w.heap m := fun m hm => Function.update_of_ne hm _ _
  have hrecord : w'.aconns a = { w.aconns a with data := some n } := Function.update_self _ _ _
  have hlink : (w'.aconns a).data = some n := congrArg AConn.data hrecord
  have hother : ∀ b ≠ a, w'.aconns b = w.aconns b := fun b hb => Function.update_of_ne hb _ _
  have hslaves : ∀ m, w'.slavesOf m = w.slavesOf m := by
    intro m
    rcases eq_or_ne m n with rfl | hm
    · exact (congrArg (fun node : Node => node.slaves.getD []) hplaced).trans rfl
    · rw [World.slavesOf, hheap m hm]
      rfl
  -- a connection of a node is the new one, or it is elsewhere
  have hcases : ∀ m < w.nextNode, ∀ b, (w'.heap m).acon = some b →
      m = n ∧ b = a ∨ m ≠ n ∧ b ≠ a ∧ (w.heap m).acon = some b := by
    intro m hm b hb
    rcases eq_or_ne m n with rfl | hne
    · exact Or.inl ⟨rfl, Option.some.inj (hb.symm.trans hself)⟩
    · rw [hheap m hne] at hb
      refine Or.inr ⟨hne, ?_, hb⟩
      rintro rfl
      exact hfree m hm hb
  have hgone : ∀ b, w.LetGo b → w'.LetGo b := by
    rintro b ⟨m, hm, hacon, hreleased, hk⟩
    have hne : m ≠ n := by
      rintro rfl
      cases hnone.symm.trans hacon
    exact ⟨m, hm, by rw [hheap m hne]; exact hacon, hreleased, hk⟩
  refine ⟨⟨fun m hm b hb => ?_, fun b hb => ?_, fun m hm b hb => ?_, fun m hm hk b hb => ?_,
    fun b m hb hd => ?_, fun b hb hd _ => ?_, fun b hb => ?_, fun m hm r hr => ?_,
    fun b hl => by cases hl⟩, fun b m hb hd => ?_, fun b hl => by cases hl⟩
  · rcases hcases m hm b hb with ⟨-, rfl⟩ | ⟨-, -, hb⟩
    · exact hlt
    · exact h.young m hm b hb
  · rcases eq_or_ne b a with rfl | hne
    · exact hlt
    · rw [hother b hne] at hb
      exact h.live b hb
  · rcases hcases m hm b hb with ⟨rfl, rfl⟩ | ⟨-, hne, hb⟩
    · exact Or.inl hlink
    · rw [hother b hne]
      exact h.named m hm b hb
  · rcases hcases m hm b hb with ⟨rfl, rfl⟩ | ⟨-, hne, hb⟩
    · exact hlink
    · rw [hother b hne]
      exact h.held m hm hk b hb
  · rcases eq_or_ne b a with rfl | hne
    · obtain rfl := Option.some.inj (hlink.symm.trans hd)
      exact ⟨hn, hself⟩
    · rw [hother b hne] at hb hd
      obtain ⟨hm, hacon⟩ := h.owner b m hb hd
      refine ⟨hm, ?_⟩
      rw [hheap m]
      · exact hacon
      · rintro rfl
        cases hnone.symm.trans hacon
  · have hne : b ≠ a := by
      rintro rfl
      cases hlink.symm.trans hd
    rw [hother b hne] at hb hd
    exact hgone b (h.letGo b hb hd fun heq => hne (Option.some.inj heq).symm)
  · have hne : b ≠ a := by
      rintro rfl
      exact hno hb
    rw [hother b hne]
    exact ⟨(h.closing b hb).1, fun hl => hgone b ((h.closing b hb).2 hl)⟩
  · rw [hslaves] at hr
    exact h.replicas m hm r hr
  · rcases eq_or_ne b a with rfl | hne
    · obtain rfl := Option.some.inj (hlink.symm.trans hd)
      exact ⟨(congrArg AConn.freeing hrecord).trans (h.unfreed b rfl), Or.inl hk⟩
    · rw [hother b hne] at hb hd ⊢
      exact h.homed b m hb hd

/-- hiredis frees a connection, and its node forgets it. -/
theorem paired_unlinkAsyncContextAndNode {w : World ω} (h : Paired none w) {a : AConnId}
    (hlive : (w.aconns a).alive = true) : Paired none (unlinkAsyncContextAndNode a w).2 := by
  show wp (unlinkAsyncContextAndNode a) (fun _ w' => Paired none w') w
  unfold unlinkAsyncContextAndNode
  rw [wp_bind, wp_get]
  split
  · rename_i hdata
    refine h.detach w.inflight rfl le_rfl (fun hl => by cases hl) (fun _ hl => by cases hl)
      (fun n hn hk hacon => ?_) (fun b _ hb => by cases hb) (fun b hb => by cases hb)
      fun hne => absurd rfl hne
    cases hdata.symm.trans (h.held n hn hk a hacon)
  · rename_i n hdata
    obtain ⟨hn, hacon⟩ := h.owner a n hlive hdata
    rw [wp_bind, wp_modifyNode]
    set w' : World ω := (modifyAConn a (fun conn =>
      { conn with alive := false, freeing := true, data := none })
      (w.place n { w.heap n with acon := none })).2
    show Paired none w'
    have hself : w'.aconns a = { w.aconns a with alive := false, freeing := true, data := none } :=
      Function.update_self _ _ _
    have hother : ∀ b ≠ a, w'.aconns b = w.aconns b := fun b hb => Function.update_of_ne hb _ _
    have hheap : ∀ m ≠ n, w'.heap m = w.heap m := fun m hm => World.place_heap_of_ne w hm _
    have hplaced : w'.heap n = { w.heap n with acon := none } := w.place_heap_self n _
    have hcleared : (w'.heap n).acon = none := congrArg Node.acon hplaced
    have hslaves : ∀ m, w'.slavesOf m = w.slavesOf m := by
      intro m
      rcases eq_or_ne m n with rfl | hm
      · exact (congrArg (fun node : Node => node.slaves.getD []) hplaced).trans rfl
      · rw [World.slavesOf, hheap m hm]
        rfl
    -- only this node had the connection
    have hcases : ∀ m < w.nextNode, ∀ b, (w'.heap m).acon = some b →
        b ≠ a ∧ (w.heap m).acon = some b := by
      intro m hm b hb
      have hne : m ≠ n := by
        rintro rfl
        cases hcleared.symm.trans hb
      rw [hheap m hne] at hb
      refine ⟨?_, hb⟩
      rintro rfl
      rcases h.named m hm b hb with hd | hd
      · exact hne (Option.some.inj (hd.symm.trans hdata))
      · cases hd.symm.trans hdata
    have hdead : ∀ b, (w'.aconns b).alive = true → b ≠ a := by
      rintro b hb rfl
      rw [hself] at hb
      cases hb
    have hgone : ∀ b ≠ a, w.LetGo b → w'.LetGo b := by
      rintro b hne ⟨m, hm, hma, hreleased, hk⟩
      refine ⟨m, hm, ?_, hreleased, hk⟩
      rw [hheap m]
      · exact hma
      · rintro rfl
        exact hne (Option.some.inj (hma.symm.trans hacon))
    refine ⟨⟨fun m hm b hb => h.young m hm b (hcases m hm b hb).2, fun b hb => ?_,
      fun m hm b hb => ?_, fun m hm hk b hb => ?_, fun b m hb hd => ?_, fun b hb hd _ => ?_,
      fun b hb => ⟨(h.closing b hb).1, fun hl => ?_⟩, fun m hm r hr => ?_, fun b hl => by cases hl⟩,
      fun b m hb hd => ?_, fun b hl => by cases hl⟩
    · rw [hother b (hdead b hb)] at hb
      exact h.live b hb
    · obtain ⟨hne, hb⟩ := hcases m hm b hb
      rw [hother b hne]
      exact h.named m hm b hb
    · obtain ⟨hne, hb⟩ := hcases m hm b hb
      rw [hother b hne]
      exact h.held m hm hk b hb
    · have hne := hdead b hb
      rw [hother b hne] at hb hd
      obtain ⟨hm, hma⟩ := h.owner b m hb hd
      refine ⟨hm, ?_⟩
      rw [hheap m]
      · exact hma
      · rintro rfl
        exact hne (Option.some.inj (hma.symm.trans hacon))
    · have hne := hdead b hb
      rw [hother b hne] at hb hd
      exact hgone b hne (h.letGo b hb hd (by simp))
    · have hne := hdead b hl
      rw [hother b hne] at hl
      exact hgone b hne ((h.closing b hb).2 hl)
    · rw [hslaves] at hr
      exact h.replicas m hm r hr
    · have hne := hdead b hb
      rw [hother b hne] at hb hd ⊢
      exact h.homed b m hb hd

/-! ## Reaching a node -/

section Reaching

variable (H : Hiredis ω)

/-- The connection, if there is one, is loose. -/
theorem paired_redisAsyncConnectWithOptions {w : World ω} (h : Paired none w) (host : Bytes)
    (port : ℕ) : wp (redisAsyncConnectWithOptions H host port) (fun r w' => Paired r w' ∧
      w'.heap = w.heap ∧ w'.nextNode = w.nextNode ∧ w'.cc = w.cc) w := by
  have hasked : ∀ env, Paired none { w with env := env } := fun env =>
    h.same (sameLinks_of_edit rfl rfl rfl rfl rfl rfl rfl)
  unfold redisAsyncConnectWithOptions
  rw [wp_bind, wp_ask]
  split
  · exact ⟨hasked _, rfl, rfl, rfl⟩
  · exact ⟨paired_newAConn (hasked _) _ _ _, rfl, rfl, rfl⟩
  · exact ⟨paired_newAConn (hasked _) _ _ _, rfl, rfl, rfl⟩

theorem paired_openNodeAsync {w : World ω} (h : Paired none w) {n : NodeId} (hn : n < w.nextNode)
    (hk : w.Known n) (hnone : (w.heap n).acon = none) : Paired none (openNodeAsync H n w).2 := by
  show wp (openNodeAsync H n) (fun _ w' => Paired none w') w
  unfold openNodeAsync
  rw [wp_bind, wp_get, wp_bind]
  refine wp_mono (Within.wp (R := SameLinks) (TalkClosed.ask _) w) fun t w₁ h₁ => ?_
  have hattempt : Within SameLinks
      (modifyNode n fun node => { node with lastConnectionAttempt := t } : Prog ω Unit) :=
    sameLinks_modifyNode n fun _ => ⟨rfl, rfl⟩
  rw [wp_bind]
  refine wp_mono (hattempt.wp w₁) fun _ w₂ h₂ => ?_
  have hs := h₁.trans h₂
  rw [wp_bind]
  refine wp_mono (paired_redisAsyncConnectWithOptions H (h.same hs) _ _) fun r w₃ h₃ => ?_
  obtain ⟨hl, hheap, hnext, hcc⟩ := h₃
  cases r with
  | none =>
    have herror : Within SameLinks (asyncSetError (some .oom) (.lit "Out of memory") : Prog ω Unit) :=
      sameLinks_modifyAcc _
    exact hl.same (herror w₃)
  | some a =>
    dsimp only
    rw [wp_bind]
    refine wp_mono (Within.wp (R := SameLinks) (within_prepareAsync H a) w₃) fun s w₄ h₄ => ?_
    cases s with
    | err => exact paired_redisAsyncFree (hl.same h₄)
    | ok =>
      have hlt : n < w₃.nextNode := hnext ▸ lt_of_lt_of_le hn hs.nextNode
      have hknown : w₃.Known n := by
        rw [World.Known, World.nodeList, hcc]
        exact (hs.known n hn).mpr hk
      refine paired_linkAsync (hl.same h₄) (lt_of_lt_of_le hlt h₄.nextNode)
        ((h₄.known n hlt).mpr hknown) ?_
      rw [h₄.acon n hlt, hheap, hs.acon n hn]
      exact hnone

theorem paired_actxGetByNode {w : World ω} (h : Paired none w) {n : NodeId} (hn : n < w.nextNode)
    (hk : w.Known n) : Paired none (actxGetByNode H n w).2 := by
  have herror : ∀ e s, Paired none (asyncSetError e s w).2 := fun e s =>
    h.same (sameLinks_modifyAcc _ w)
  show wp (actxGetByNode H n) (fun _ w' => Paired none w') w
  unfold actxGetByNode
  rw [wp_bind, wp_get]
  split
  · split
    · exact h
    · exact herror _ _
  · split
    · exact herror _ _
    · exact paired_openNodeAsync H h hn hk ‹_›

end Reaching

/-! ## The invariant -/

/-- The routing state is in order, and the links are one to one. -/
structure Tied (w : World ω) : Prop where
  ordered : Ordered w
  linked : Paired none w

/-- What keeps the order and leaves the links alone. -/
theorem keeps_tied {α : Type} {m : Prog ω α} (ho : Keeps Ordered m) (hs : Within SameLinks m) :
    Keeps Tied m :=
  fun w h => ⟨ho w h.ordered, h.linked.same (hs w)⟩

/-- A parsed node set is installed. -/
theorem Tied.parsed {w w' : World ω} (h : Tied w) (hcalm : Calm w w') (hnew : Newcomers w w')
    {d : NodeDict} (hd : AllFresh w.nextNode w' d) : ParsedSet w w' d :=
  ⟨h.ordered, h.linked, hnew, hcalm.nodes, hd⟩

section Calls

variable (H : Hiredis ω)

instance : CommandClosed (Keeping (@Tied ω)) where
  ask f := keeps_tied (TalkClosed.ask f) (TalkClosed.ask f)
  modifyConn c f := keeps_tied (TalkClosed.modifyConn c f) (TalkClosed.modifyConn c f)
  newConn host port err := keeps_tied (TalkClosed.newConn host port err) (TalkClosed.newConn host port err)
  setError type str := keeps_tied (TalkClosed.setError type str) (TalkClosed.setError type str)
  wroteOwn c _ hq := keeps_tied (TalkClosed.wroteOwn c hq) (TalkClosed.wroteOwn c hq)
  wrote c q := keeps_tied (CommandClosed.wrote c q) (CommandClosed.wrote c q)
  read c q q' r := keeps_tied (TalkClosed.read c q q' r) (TalkClosed.read c q q' r)
  closed c := keeps_tied (TalkClosed.closed c) (TalkClosed.closed c)
  userHook := keeps_tied TalkClosed.userHook TalkClosed.userHook

instance : LibClosed (Keeping (@Tied ω)) where
  looked n known := keeps_tied (LoopClosed.looked n known) (LoopClosed.looked n known)
  deferred c held := keeps_tied (LoopClosed.deferred c held) (LoopClosed.deferred c held)
  modifyCc hf := keeps_tied (EditClosed.modifyCc hf) (EditClosed.modifyCc hf)
  cmdId w id := fun h => ⟨EditClosed.cmdId (R := Keeping Ordered) w id h.ordered,
    h.linked.same (EditClosed.cmdId w id)⟩
  disconnect n := keeps_tied (EditClosed.disconnect n) (EditClosed.disconnect n)
  handleMoved str := keeps_tied (EditClosed.handleMoved str) (EditClosed.handleMoved str)
  handleAsk str := keeps_tied (EditClosed.handleAsk str) (EditClosed.handleAsk str)
  addNode addr := keeps_tied (LibClosed.addNode addr) (LibClosed.addNode addr)

/-- The old nodes are released once the new ones are installed. -/
theorem tied_replaced {w : World ω} (h : Tied w) (b : Bool) (host : Bytes) (r : Reply) :
    wp (parseTopology b host r) (fun nodes w₁ => Tied w₁ ∧
      ∀ d, nodes = some d → wp (installNodes d) (fun _ w' => Tied w') w₁) w := by
  have hnew : wp (parseTopology b host r) (fun _ w' => Newcomers w w') w :=
    parseTopology_newcomers b host r w
  refine wp_mono (wp_and hnew (parseTopology_fresh b host r w)) fun nodes w₁ h₁ => ?_
  obtain ⟨hn, hc, hd⟩ := h₁
  have ho := h.ordered.linking hc.toLinking
  refine ⟨⟨ho, h.linked.same hn.toSameLinks⟩, fun d hsome => ?_⟩
  have hl := paired_installNodes (h.parsed hc hn (hd d hsome)) ho
  exact ⟨h.ordered.updates (installNodes_updates hc (hd d hsome)), hl⟩

/-- The nodes are taken out of use, and then released. -/
theorem paired_redisClusterFree {w : World ω} (h : Tied w) :
    Paired none (redisClusterFree w).2 := by
  show wp redisClusterFree (fun _ w' => Paired none w') w
  unfold redisClusterFree
  rw [wp_bind]
  have hhook : wp userHook (fun _ w' => Tied w') w :=
    TalkClosed.userHook (R := Keeping Tied) w h
  refine wp_mono hhook fun _ w₁ h₁ => ?_
  rw [wp_bind, wp_get, wp_bind, wp_modifyCc]
  set w₂ : World ω := { w₁ with
    cc := { w₁.cc with table := none, nodes := none, requests := none } }
  have hno : ∀ n, ¬ w₂.Known n := fun n hn => by cases hn
  have hp := h₁.linked
  have hgone : ∀ a, w₁.LetGo a → w₂.LetGo a := by
    rintro a ⟨n, hn, hacon, hreleased, -⟩
    exact ⟨n, hn, hacon, hreleased, hno n⟩
  have hl : Linked none w₂ :=
    { hp.toLinked with
      held := fun n _ hk => absurd hk (hno n)
      letGo := fun a ha hd hloose => hgone a (hp.letGo a ha hd hloose)
      closing := fun a ha => ⟨(hp.closing a ha).1, fun hlive => hgone a ((hp.closing a ha).2 hlive)⟩ }
  split
  · rename_i hnodes
    refine ⟨hl, fun a n ha hd => ?_, fun a ha => by cases ha⟩
    obtain ⟨hfreeing, hk | hclosing⟩ := hp.homed a n ha hd
    · rw [World.Known, World.nodeList, hnodes] at hk
      cases hk
    · exact ⟨hfreeing, Or.inr hclosing⟩
  · rename_i nodes hnodes
    show Paired none (dictRelease nodes w₂).2
    rw [dictRelease_eq]
    have hin : ∀ n, w₁.Known n ↔ n ∈ nodes.vals := fun n => by
      rw [World.Known, World.nodeList_of_some hnodes]
    refine ⟨hl.freeing fun n hn => ⟨?_, hno n⟩, fun a n ha hd => ?_, fun a ha => by cases ha⟩
    · obtain ⟨m, hm, hnm⟩ := mem_holdings.mp hn
      have hmlt : m < w₁.nextNode := h₁.ordered.routed.lt m ((hin m).mpr hm)
      rcases hnm with rfl | hslave
      · exact hmlt
      · exact hl.replicas m hmlt n hslave
    · -- the node that had the connection is among those that are released
      obtain ⟨hfreeing, hhome⟩ := hp.homed a n ha hd
      refine ⟨hfreeing, Or.inr (List.mem_append.mpr ?_)⟩
      rcases hhome with hk | hclosing
      · exact Or.inr (List.mem_filterMap.mpr
          ⟨n, mem_holdings.mpr ⟨n, (hin n).mp hk, Or.inl rfl⟩, (hp.owner a n ha hd).2⟩)
      · exact Or.inl hclosing

instance : VisitClosed H (fun _ => @Tied ω) where
  ordered h := h.ordered
  visit h _ := h
  leave h := h
  ctxGetByNode {_ n} h := keeps_tied (CallClosed.ctxGetByNode n) (sameLinks_ctxGetByNode H n) _ h
  actxGetByNode h hn := ⟨AsyncClosed.actxGetByNode (R := Keeping Ordered) _ _ h.ordered,
    paired_actxGetByNode H h.linked (h.ordered.routed.lt _ hn) hn⟩
  replaced b host r _ _ h := tied_replaced h b host r
  modifyAcc _ := keeps_tied (fun _ ho => ho.of_async rfl rfl rfl rfl rfl) (sameLinks_modifyAcc _)
  modifyCad k f := keeps_tied (NoteClosed.modifyCad (H := H) k f) (NoteClosed.modifyCad (H := H) k f)
  newCad cad := keeps_tied (NoteClosed.newCad (H := H) cad) (NoteClosed.newCad (H := H) cad)
  submit a cb q := keeps_tied (keeps_redisAsyncCommand H a cb q) (sameLinks_redisAsyncCommand H a cb q)
  shutdown b := keeps_tied (NoteClosed.shutdown (H := H) b) (NoteClosed.shutdown (H := H) b)
  disconnectNode n := keeps_tied (NoteClosed.disconnectNode (H := H) n)
    (NoteClosed.disconnectNode (H := H) n)
  free w h := ⟨keeps_of_steady steady_redisClusterFree w h.ordered, paired_redisClusterFree h⟩

/-! ## Whole runs -/

theorem Tied.takeCallback {w : World ω} (h : Tied w) (a : AConnId) : Tied (takeCallback a w).2 :=
  ⟨h.ordered.of_async rfl rfl rfl rfl rfl,
    h.linked.same (sameLinks_of_edit rfl rfl rfl rfl rfl rfl rfl)⟩

/-- Every action keeps the links one to one. -/
theorem act_tied {c : Client ω} {x : ClientAction} (he : Enabled c x) (h : Tied c.world) :
    Tied (act H c x).world := by
  refine ⟨act_ordered H h.ordered x, ?_⟩
  obtain ⟨-, he⟩ := he
  cases x with
  | call op => exact (Call.run_visits (J := fun _ => Tied) H op h he.1).linked
  | connected a =>
    exact h.linked.same (sameLinks_modifyAConn a (f := fun conn => { conn with connected := true })
      (fun _ => ⟨rfl, rfl, rfl⟩) c.world)
  | failed a f =>
    exact h.linked.same (sameLinks_modifyAConn a
      (f := fun conn => { conn with err := some f, disconnecting := true }) (fun _ => ⟨rfl, rfl, rfl⟩)
      c.world)
  | deliver a reply =>
    unfold act
    dsimp only
    split
    · exact h.linked
    · exact (visits_runCallback (J := fun _ => Tied) H a _ reply _ (h.takeCallback a)).linked
  | free a => exact paired_beginAsyncFree h.linked he.1 he.2.1
  | closed a => exact paired_unlinkAsyncContextAndNode h.linked he.2.1
  | ret =>
    unfold act
    dsimp only
    split
    · exact h.linked
    · exact (visits_resume (J := fun _ => Tied) H _ _ h).linked

end Calls

/-- A new context has no links. -/
theorem World.Fresh.tied {w : World ω} (h : w.Fresh) : Tied w := by
  have hacon : ∀ n a, (w.heap n).acon ≠ some a := fun n a ha => by
    rw [h.heap] at ha
    cases ha
  have hdead : ∀ a, (w.aconns a).alive ≠ true := fun a ha => by
    rw [h.aconns] at ha
    cases ha
  refine ⟨h.ordered, ⟨fun n _ a ha => absurd ha (hacon n a), fun a ha => absurd ha (hdead a),
    fun n _ a ha => absurd ha (hacon n a), fun n _ _ a ha => absurd ha (hacon n a),
    fun a n ha => absurd ha (hdead a), fun a ha => absurd ha (hdead a), fun a ha => ?_,
    fun n _ r hr => ?_, fun a ha => by cases ha⟩, fun a n ha => absurd ha (hdead a),
    fun a ha => by cases ha⟩
  · rw [h.closing] at ha
    cases ha
  · rw [World.slavesOf, h.heap] at hr
    cases hr

section Runs

variable (H : Hiredis ω)

theorem Reaches.tied {G : Client ω → ClientAction → Prop} {c : Client ω} (h : Reaches H G c) :
    Tied c.world :=
  Reaches.invariant H (I := fun c => Tied c.world) (fun _ hw => hw.tied)
    (fun _ _ he _ ht => act_tied H he ht) h

/-- **Connections and nodes are linked one to one.**  In every reachable state the connection of
a node in use names that node, and no other node has it; and every live connection is that of
the node it names, which is in use or waits to be released with it, or it names none because its
node was released. -/
theorem Reaches.paired {G : Client ω → ClientAction → Prop} {c : Client ω} (h : Reaches H G c) :
    (∀ n, c.world.Known n → ∀ a, (c.world.heap n).acon = some a →
      (c.world.aconns a).data = some n ∧
        ∀ m < c.world.nextNode, (c.world.heap m).acon = some a → m = n) ∧
    ∀ a, (c.world.aconns a).alive = true →
      (∃ n, (c.world.aconns a).data = some n ∧ (c.world.heap n).acon = some a ∧
        (c.world.Known n ∨ a ∈ c.world.closing ∧ ¬ c.world.beingFreed a)) ∨
      (c.world.aconns a).data = none ∧ c.world.LetGo a := by
  obtain ⟨ho, hl⟩ := Reaches.tied H h
  refine ⟨fun n hn a ha => ?_, fun a ha => ?_⟩
  · have hlt : n < c.world.nextNode := ho.routed.lt n hn
    exact ⟨hl.held n hlt hn a ha, fun m hm hma => hl.unique hlt hm hn ha hma⟩
  · cases hd : (c.world.aconns a).data with
    | none => exact Or.inr ⟨rfl, hl.letGo a ha hd (by simp)⟩
    | some n =>
      obtain ⟨hfreeing, hhome⟩ := hl.homed a n ha hd
      refine Or.inl ⟨n, rfl, (hl.owner a n ha hd).2, hhome.imp_right fun hclosing => ⟨hclosing, ?_⟩⟩
      rintro ⟨-, hfreed⟩
      cases hfreeing.symm.trans hfreed

end Runs

/-- The only node of the client has moved to another port; its connection begins to be freed. -/
def movedAway : List ClientAction :=
  asyncConnect ++ [.connected 0, .deliver 0 (some (.string (ascii "i a:2 master - 0 0 1 connected 1\n"))),
    .free 0]

/-- The connection of the node that is gone was let go. -/
theorem paired_movedAway :
    (perform Hiredis.atWork (newAsyncClient []) movedAway).world.LetGo 0 := by
  have hreach := Reaches.perform Hiredis.atWork (reaches_newAsyncClient _ _ []) movedAway
    (by decide +kernel)
  have hdata : ((perform Hiredis.atWork (newAsyncClient []) movedAway).world.aconns 0).data = none := by
    decide +kernel
  rcases (Reaches.paired Hiredis.atWork hreach).2 0 (by decide +kernel) with ⟨n, hd, -⟩ | h
  · cases hdata.symm.trans hd
  · exact h.2
