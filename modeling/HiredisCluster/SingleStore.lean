/-
# A session as on a single store

A client runs one command after the other.  Its slot map may be out of date at the beginning;
then some commands are redirected, and the first of them brings the slot map up to date.  The user
does not see any of this: the replies, and what is in the stores in the end, are those of a single
store that executes the commands in their order (`session_asOneStore`).

The commands are those of `Cluster.lean`, with all keys in one slot.
-/
import HiredisCluster.Recovery

open Program

variable {ω : Type}

/-! ## Formatting -/

section Formatting

variable {name : Bytes} {args : List Bytes} {type : CmdType} {slot : ℕ}

/-- A command that servers accept, with all keys in one slot, and short enough to be formatted. -/
structure OneSlot (name : Bytes) (args : List Bytes) (type : CmdType) (slot : ℕ) : Prop where
  named : namedType name = some type
  formed : wellFormed type args = true
  slots : ∀ i ∈ items type args, keyHashSlot i.1 = slot
  short : (encodeCommand (name :: args)).length < 2 ^ 31

namespace OneSlot

variable (h : OneSlot name args type slot)

include h

theorem about : AboutSlot (name :: args) slot :=
  ⟨name, args, type, rfl, h.named, h.formed, h.slots⟩

theorem decode : decodeCommand (encodeCommand (name :: args)) = some (name :: args) :=
  decodeCommand_encodeCommand (List.cons_ne_nil _ _) h.short

theorem slot_lt : slot < redisClusterSlots := by
  obtain ⟨i, hi⟩ := List.exists_mem_of_ne_nil _ (items_ne_nil h.formed)
  rw [← h.slots i hi]
  exact keyHashSlot_lt _

end OneSlot

/-- Keys of one slot make one fragment. -/
theorem collectFragments_single {buf : Bytes} {keys : List KeyPos} {slot : ℤ} (id : ℕ)
    (hne : keys ≠ []) (hslots : ∀ k ∈ keys, k.slot buf = slot) :
    (collectFragments type buf id [] keys).2.length = 1 := by
  have hs : Split type buf keys (collectFragments type buf id [] keys).2 :=
    collectFragments_split (split_nil _ _)
  set frags := (collectFragments type buf id [] keys).2
  obtain ⟨k, hk⟩ := List.exists_mem_of_ne_nil _ hne
  obtain ⟨f, hf, -⟩ := hs.complete k hk
  have hall : ∀ g ∈ frags, g.slotNum = slot := by
    intro g hg
    have hkeys := hs.nonempty g hg
    rw [hs.keys g hg, ne_eq, List.map_eq_nil_iff, ← ne_eq] at hkeys
    obtain ⟨k', hk'⟩ := List.exists_mem_of_ne_nil _ hkeys
    obtain ⟨hmem, hslot⟩ := List.mem_filter.mp hk'
    rw [← of_decide_eq_true hslot]
    exact hslots k' hmem
  have hsorted := hs.sorted
  rcases frags with _ | ⟨g, _ | ⟨g', rest⟩⟩
  · cases hf
  · rfl
  · -- two fragments would be sorted by slot
    have hlt := (List.pairwise_cons.mp hsorted).1 g' List.mem_cons_self
    rw [hall g List.mem_cons_self, hall g' (List.mem_cons_of_mem _ List.mem_cons_self)] at hlt
    exact absurd hlt (lt_irrefl _)

/-- **A command with all keys in one slot is not split.** -/
theorem commandFormatBySlot_oneSlot (h : OneSlot name args type slot) (id : ℕ) (w : World ω) :
    wp (commandFormatBySlot { id, cmd := encodeCommand (name :: args) }) (fun p w' =>
      p.1 = slot ∧ p.2.subCommands = none ∧ p.2.slotNum = slot ∧
        p.2.cmd = encodeCommand (name :: args) ∧ ∃ id', w' = { w with cmdId := id' }) w := by
  obtain ⟨keys, hparse, hkeys⟩ := redisParseCmd_items h.named h.formed h.short
  have hbuf : encodeCommand (name :: args) ≠ [] := by simp [encodeCommand]
  have hne : keys ≠ [] := by
    rintro rfl
    exact items_ne_nil h.formed (List.map_eq_nil_iff.mp hkeys.symm)
  have hslots : ∀ k ∈ keys, k.slot (encodeCommand (name :: args)) = slot := by
    intro k hk
    have hmem := List.mem_map_of_mem (f := KeyPos.bytes (encodeCommand (name :: args))) hk
    rw [hkeys] at hmem
    obtain ⟨i, hi, hik⟩ := List.mem_map.mp hmem
    rw [KeyPos.slot, ← hik, h.slots i hi]
  rcases Nat.lt_or_ge keys.length 2 with hlen | hlen
  · -- one key
    have hpos := List.length_pos_of_ne_nil hne
    obtain ⟨k, rfl⟩ := List.length_eq_one_iff.mp (show keys.length = 1 by omega)
    have hk := hslots k List.mem_cons_self
    rw [KeyPos.slot] at hk
    unfold commandFormatBySlot
    rw [if_neg hbuf, hparse]
    dsimp only
    rw [wp_pure, hk]
    exact ⟨rfl, rfl, rfl, rfl, w.cmdId, rfl⟩
  · -- several keys
    unfold wp
    rw [commandFormatBySlot_several hbuf hparse hlen, commandPreFragment_eq]
    set r : Request :=
      { id, cmd := encodeCommand (name :: args), type := type, narg := args.length + 1, keys := keys }
      with hr
    have hone : (collectFragments r.type r.cmd w.cmdId [] r.keys).2.length = 1 :=
      collectFragments_single _ hne hslots
    have hnone : (preFragmented r w.cmdId).2.subCommands = none := by
      unfold preFragmented
      rw [if_pos hone]
    obtain ⟨hcmd, hslotNum, hall⟩ := preFragmented_whole hlen w.cmdId hnone
    obtain ⟨k, hk⟩ := List.exists_mem_of_ne_nil _ hne
    have hslot : (preFragmented r w.cmdId).1 = slot := (hall k hk).symm.trans (hslots k hk)
    exact ⟨hslot, hnone, hslotNum.trans hslot, hcmd, _, rfl⟩

end Formatting

/-! ## One command -/

/-- The client is in touch with the cluster, or acquainted with some of its nodes. -/
def Able (C : Cluster ω) (w : World ω) : Prop :=
  InTouch C w ∨ (Acquainted none w ∧ 0 < w.cc.maxRetryCount)

theorem Acquainted.of_cmdId {u : Option ConnId} {w : World ω} (h : Acquainted u w) (id : ℕ) :
    Acquainted u { w with cmdId := id } :=
  ⟨⟨⟨h.ordered.routed.view, h.ordered.routed.lt, h.ordered.routed.shown⟩,
    ⟨h.ordered.wired.lt, h.ordered.wired.inj⟩⟩, h.table, h.plain, h.leading.same rfl rfl rfl, h.deferred⟩

section Able

variable {C : Cluster ω} {w : World ω} (h : Able C w)

include h

theorem Able.of_cmdId (id : ℕ) : Able C { w with cmdId := id } := by
  rcases h with htouch | ⟨hw, hmax⟩
  · exact Or.inl (htouch.of_same rfl rfl rfl rfl rfl)
  · exact Or.inr ⟨hw.of_cmdId id, hmax⟩

/-- The error and the number of retries do not matter. -/
theorem Able.of_cc {cc : Context} (hnodes : cc.nodes = w.cc.nodes) (htable : cc.table = w.cc.table)
    (hslots : cc.routeUseSlots = w.cc.routeUseSlots) (hmax : cc.maxRetryCount = w.cc.maxRetryCount)
    (hneed : cc.needUpdateRoute = w.cc.needUpdateRoute) : Able C { w with cc := cc } := by
  rcases h with htouch | ⟨hw, hpos⟩
  · exact Or.inl (htouch.of_same rfl rfl rfl htable hneed)
  · refine Or.inr ⟨hw.of_cc rfl hnodes htable hslots, ?_⟩
    show 0 < cc.maxRetryCount
    rw [hmax]
    exact hpos

theorem Able.keeps_resetError : wp resetError (fun _ w' => Able C w' ∧ w'.env = w.env ∧
    w'.cmdId = w.cmdId ∧ w'.cc.retryCount = w.cc.retryCount) w := by
  unfold resetError
  rw [wp_bind, wp_get]
  split
  · exact ⟨h.of_cc rfl rfl rfl rfl rfl, rfl, rfl, rfl⟩
  · exact ⟨h, rfl, rfl, rfl⟩

end Able

section Command

variable {H : Hiredis ω} {C : Cluster ω} (hH : H.Redirects C) {name : Bytes} {args : List Bytes}
  {type : CmdType} {slot : ℕ} (hone : OneSlot name args type slot) {w : World ω}

/-- A command that one node has executed has been executed on the whole key space. -/
theorem Answered.asOneStore (hone : OneSlot name args type slot) {r : Option Answer} {w' : World ω}
    (h : Answered C slot (name :: args) w r w') :
    AsOneStore C (name :: args) w (r.map Answer.reply) w' := by
  obtain ⟨a, rfl, hreply, hstore⟩ := h
  have hserve := serve_items hone.named hone.formed
  have hslotOf : ∀ {k : Bytes}, slotOf k = slot ↔ keyHashSlot k = slot := by
    intro k
    unfold slotOf
    exact Nat.cast_inj
  have hfilter : (items type args).filter (fun i => slotOf i.1 = slot) = items type args := by
    refine List.filter_eq_self.mpr fun i hi => ?_
    exact decide_eq_true (hslotOf.mpr (hone.slots i hi))
  have hagree : ∀ k, slotOf k = slot → C.store w.env (C.owner slot) k = C.contents w.env k := by
    intro k hk
    rw [Cluster.contents, hslotOf.mp hk]
  obtain ⟨houts, hend⟩ := Pointwise.run_part Prod.fst (itemOp type) slotOf (slot : ℤ)
    (items type args) hagree
  obtain ⟨hself, -⟩ := Pointwise.run_part Prod.fst (itemOp type) slotOf (slot : ℤ)
    (items type args) fun k (_ : slotOf k = slot) => (rfl : C.contents w.env k = C.contents w.env k)
  rw [hfilter] at houts hend hself
  rw [AsOneStore, hserve]
  constructor
  · rw [Option.map_some, hreply, hserve]
    exact congrArg (fun outs => some (answer type outs)) (houts.trans hself.symm)
  · funext k
    rw [Cluster.contents, hstore, hserve]
    by_cases hk : slotOf k = slot
    · rw [hslotOf.mp hk, Function.update_self]
      exact hend k hk
    · -- a key of another slot, perhaps of the same node
      have hother : ∀ i ∈ items type args, i.1 ≠ k := by
        rintro i hi rfl
        exact hk (hslotOf.mpr (hone.slots i hi))
      have hkeep : (serveItems type (items type args) (C.contents w.env)).2 k = C.contents w.env k :=
        Pointwise.run_other Prod.fst (itemOp type) _ hother _
      rw [hkeep]
      by_cases hnode : C.owner (keyHashSlot k) = C.owner slot
      · rw [hnode, Function.update_self, Cluster.contents, hnode]
        exact Pointwise.run_other Prod.fst (itemOp type) _ hother _
      · rw [Function.update_of_ne hnode]
        rfl

include hH hone

/-- The command loop, whether the slot map is up to date or not. -/
theorem redisClusterCommandExecute_able (hw : Able C w) (hcount : w.cc.retryCount = 0) {cmd : Cmd}
    (hslot : cmd.slotNum = slot) (hcmd : cmd.cmd = encodeCommand (name :: args)) :
    wp (redisClusterCommandExecute H cmd) (fun r w' =>
      AsOneStore C (name :: args) w (r.map Answer.reply) w' ∧ Able C w') w := by
  have hdec : decodeCommand cmd.cmd = some (name :: args) := by
    rw [hcmd]
    exact hone.decode
  rcases hw with htouch | ⟨hw, hmax⟩
  · refine wp_mono (redisClusterCommandExecute_healthy hH.toHealthy hone.slot_lt hslot hdec
      hone.about.proper hone.about.owns htouch) ?_
    rintro r w' ⟨a, rfl, hreply, htouch', hstore⟩
    exact ⟨Answered.asOneStore hone ⟨a, rfl, hreply, hstore⟩, Or.inl htouch'⟩
  · refine wp_mono (redisClusterCommandExecute_recovers hH hone.slot_lt hslot hdec hone.about hw
      (hcount ▸ hmax)) ?_
    rintro r w' ⟨hans, hrec⟩
    refine ⟨hans.asOneStore hone, ?_⟩
    rcases hrec with hrelearned | ⟨-, -, hw', hsettings⟩
    · exact Or.inl hrelearned.toInTouch
    · have hsame := congrArg Context.maxRetryCount hsettings
      exact Or.inr ⟨hw', lt_of_lt_of_eq hmax hsame.symm⟩

/-- **One command of a session.** -/
theorem redisClusterFormattedCommand_able (hw : Able C w) (hcount : w.cc.retryCount = 0) :
    wp (redisClusterFormattedCommand H (encodeCommand (name :: args))) (fun r w' =>
      AsOneStore C (name :: args) w r w' ∧ Able C w' ∧ w'.cc.retryCount = 0) w := by
  have hslots := hone.slot_lt
  unfold redisClusterFormattedCommand commandGet
  rw [wp_bind]
  refine wp_mono hw.keeps_resetError ?_
  rintro _ w₁ ⟨hw₁, henv₁, -, hcount₁⟩
  rw [wp_bind, wp_bind, wp_modify, wp_bind, wp_get, wp_pure, wp_bind]
  refine wp_mono (commandFormatBySlot_oneSlot hone _ _) ?_
  rintro ⟨slotNum, command⟩ _ ⟨hslot, hsub, hnum, hcmd, id, rfl⟩
  dsimp only at hslot hsub hnum hcmd ⊢
  rw [hslot, if_neg (Int.not_lt.mpr (Int.natCast_nonneg _)), Int.toNat_natCast,
    if_neg (Nat.not_le.mpr hslots), wp_bind]
  unfold executeFormatted
  rw [hsub]
  dsimp only
  rw [wp_bind]
  refine wp_mono (redisClusterCommandExecute_able hH hone (hw₁.of_cmdId id) (hcount₁.trans hcount)
    hnum hcmd) ?_
  rintro r w₂ ⟨hans, hw₂⟩
  rw [wp_pure, wp_bind, wp_modifyCc, wp_pure]
  have henv : ({ w₁ with cmdId := id } : World ω).env = w.env := henv₁
  rw [AsOneStore, henv] at hans
  exact ⟨hans, hw₂.of_cc rfl rfl rfl rfl rfl, rfl⟩

end Command

/-! ## Sessions -/

/-- A single store executes one command after the other. -/
def serveAll : List (List Bytes) → Store → List Reply × Store
  | [], s => ([], s)
  | argv :: rest, s =>
    let r := serve argv s
    let rs := serveAll rest r.2
    (r.1 :: rs.1, rs.2)

/-- A client executes one command after the other. -/
def session (H : Hiredis ω) : List (List Bytes) → Prog ω (List (Option Reply))
  | [] => pure []
  | argv :: rest => do
    let r ← redisClusterFormattedCommand H (encodeCommand argv)
    let rs ← session H rest
    pure (r :: rs)

/-- **The user sees a single store.**  In a session of commands with one slot each, by a client
whose slot map may be out of date, the replies and the contents of the key space are those of a
single store. -/
theorem session_asOneStore {H : Hiredis ω} {C : Cluster ω} (hH : H.Redirects C)
    (argvs : List (List Bytes)) :
    (∀ argv ∈ argvs, ∃ name args type slot, argv = name :: args ∧ OneSlot name args type slot) →
    ∀ {w : World ω}, Able C w → w.cc.retryCount = 0 →
      wp (session H argvs) (fun rs w' => rs = (serveAll argvs (C.contents w.env)).1.map some ∧
        C.contents w'.env = (serveAll argvs (C.contents w.env)).2) w := by
  induction argvs with
  | nil =>
    intro _ w _ _
    exact ⟨rfl, rfl⟩
  | cons argv rest ih =>
    intro hslots w hw hcount
    obtain ⟨⟨name, args, type, slot, rfl, hone⟩, hrest⟩ := List.forall_mem_cons.mp hslots
    unfold session serveAll
    rw [wp_bind]
    refine wp_mono (redisClusterFormattedCommand_able hH hone hw hcount) ?_
    rintro _ w₁ ⟨⟨rfl, hcontents⟩, hw₁, hcount₁⟩
    rw [wp_bind]
    refine wp_mono (ih hrest hw₁ hcount₁) ?_
    rintro _ w₂ ⟨rfl, hcontents₂⟩
    rw [hcontents] at hcontents₂ ⊢
    exact ⟨rfl, hcontents₂⟩

/-- The first command is redirected, and the others see what it has written. -/
theorem session_asOneStore_moved :
    (session Hiredis.redirecting [[ascii "MSET", ascii "a", ascii "1"], [ascii "MGET", ascii "a"],
      [ascii "DEL", ascii "k"], [ascii "del", ascii "a", ascii "a"]] (staleClient fun _ _ => none)).1 =
        [some (.status (ascii "OK")), some (.array [.string (ascii "1")]), some (.integer 0),
          some (.integer 1)] := by
  have h := session_asOneStore redirecting_redirects
    [[ascii "MSET", ascii "a", ascii "1"], [ascii "MGET", ascii "a"],
      [ascii "DEL", ascii "k"], [ascii "del", ascii "a", ascii "a"]] ?_
    (Or.inr ⟨staleClient_acquainted fun _ _ => none, by decide⟩) rfl
  · rw [h.1]
    rfl
  · have hone : ∀ name args type slot, namedType name = some type → wellFormed type args = true →
        (∀ i ∈ items type args, keyHashSlot i.1 = slot) →
        (encodeCommand (name :: args)).length < 2 ^ 31 →
        ∃ name' args' type' slot', name :: args = name' :: args' ∧
          OneSlot name' args' type' slot' :=
      fun name args type slot h₁ h₂ h₃ h₄ => ⟨name, args, type, slot, rfl, h₁, h₂, h₃, h₄⟩
    simp only [List.forall_mem_cons]
    refine ⟨hone _ _ .mset 15495 (by decide) (by decide) (by decide +kernel) (by decide +kernel),
      hone _ _ .mget 15495 (by decide) (by decide) (by decide +kernel) (by decide +kernel),
      hone _ _ .del 7629 (by decide) (by decide) (by decide +kernel) (by decide +kernel),
      hone _ _ .del 15495 (by decide) (by decide) (by decide +kernel) (by decide +kernel),
      fun argv h => by cases h⟩
