/-
# Retries are bounded

One counter, `cc->retry_count`, is shared by all labels of the command loop and by all
fragments of a command, and it only grows until the call returns.  Every command that is
written is paid for: the first time of each fragment is free, and each further time uses
up one of the retries that are left.
-/
import HiredisCluster.Lawful
import HiredisCluster.Updating
import HiredisCluster.Splitting
import Mathlib.Data.List.Dedup

open Program

variable {ω : Type}

/-- A command of the user is written to a connection. -/
def Event.writesCommand : Event → Bool
  | .wrote _ q => q.isCommand
  | _ => false

/-- How many commands of the user were written to blocking connections so far. -/
def World.written (w : World ω) : ℕ := w.trace.countP Event.writesCommand

/-! ## Between two commands -/

/-- No command is written and no retry is used up. -/
structure Paced (w w' : World ω) : Prop where
  written : w'.written = w.written
  budget : w'.budget = w.budget

theorem Paced.trans {w w' w'' : World ω} (h : Paced w w') (h' : Paced w' w'') : Paced w w'' :=
  ⟨h'.written.trans h.written, h'.budget.trans h.budget⟩

instance : Std.Refl (@Paced ω) := ⟨fun _ => ⟨rfl, rfl⟩⟩

instance : IsTrans (World ω) Paced := ⟨fun _ _ _ => Paced.trans⟩

theorem paced_of_eq {w w' : World ω} (htrace : w'.trace = w.trace) (hcc : w'.budget = w.budget) :
    Paced w w' :=
  ⟨congrArg (List.countP _) htrace, hcc⟩

theorem paced_record {e : Event} (he : e.writesCommand = false) :
    Within Paced (record e : Prog ω Unit) := by
  refine fun w => ⟨?_, rfl⟩
  show (w.trace ++ [e]).countP _ = w.trace.countP _
  rw [List.countP_append, List.countP_singleton, he]
  rfl

theorem paced_detachAsync (a : Option AConnId) : Within Paced (detachAsync a : Prog ω Unit) := by
  cases a with
  | none => exact within_pure _
  | some a => exact fun _ => paced_of_eq rfl rfl

instance : LoopClosed (@Paced ω) where
  ask _ _ := paced_of_eq rfl rfl
  modifyConn _ _ _ := paced_of_eq rfl rfl
  newConn _ _ _ _ := paced_of_eq rfl rfl
  setError _ _ _ := paced_of_eq rfl rfl
  wroteOwn _ _ hq := paced_record hq
  read _ _ _ _ := paced_record rfl
  closed _ := paced_record rfl
  userHook := within_bind within_get fun _ => paced_record rfl
  looked _ _ := paced_record rfl
  deferred _ _ := paced_record rfl

instance : ParseClosed (@Paced ω) where
  setError _ _ _ := paced_of_eq rfl rfl
  redisFree := within_redisFree
  detachAsync := paced_detachAsync
  released _ := paced_record rfl
  newNode _ _ := paced_of_eq rfl rfl
  editNode _ _ _ _ := paced_of_eq rfl rfl

theorem paced_modifyCc {f : Context → Context} (hf : Routes f) :
    Within Paced (modifyCc f : Prog ω Unit) := by
  intro w
  obtain ⟨d, t, v, b, heq⟩ := hf w.cc
  refine paced_of_eq rfl ?_
  show ((f w.cc).maxRetryCount - (f w.cc).retryCount).toNat = _
  rw [heq]
  rfl

instance : UpdateClosed (@Paced ω) where
  modifyCc := paced_modifyCc
  modifyNode _ _ _ := paced_of_eq rfl rfl
  relinkAsync a _ := by
    cases a with
    | none => exact within_pure _
    | some a => exact fun _ => paced_of_eq rfl rfl
  stored _ _ := paced_record rfl

instance (H : Hiredis ω) : CallClosed H (@Paced ω) where
  ctxGetByNode := within_ctxGetByNode H
  updateSlotmap := within_redisClusterUpdateSlotmap H (within_clusterUpdateRouteHandleReply H)
  handleReply := within_clusterUpdateRouteHandleReply H

/-! ## One command -/

/-- How often the loop may still write its command, and how many retries are left for
what comes after it. -/
def Exec.sends (e : Exec) (w : World ω) : ℕ :=
  match e.pc with
  | .done _ => w.budget
  | .ret _ => w.budget
  | _ => w.budget + 1

theorem Exec.sends_le (e : Exec) (w : World ω) : e.sends w ≤ w.budget + 1 := by
  unfold Exec.sends
  split <;> omega

section Loop

variable (H : Hiredis ω)

/-- A redirect uses up one retry. -/
theorem execRedirect_sends (c : ConnId) (u : Option ConnId) (type : ErrorType) (str : Bytes)
    (w : World ω) : wp (execRedirect c u type str) (fun e w' =>
      w'.written = w.written ∧ e.sends w' ≤ w.budget) w := by
  unfold execRedirect
  rw [wp_bind, wp_modifyCc, wp_bind, wp_get]
  generalize hw₁ : ({ w with cc := { w.cc with retryCount := w.cc.retryCount + 1 } } :
    World ω) = w₁
  have hcc : w₁.cc.retryCount = w.cc.retryCount + 1 ∧ w₁.cc.maxRetryCount = w.cc.maxRetryCount := by
    rw [← hw₁]
    exact ⟨rfl, rfl⟩
  have hwritten : w₁.written = w.written := by rw [← hw₁]; rfl
  have hle : w₁.budget ≤ w.budget := by
    unfold World.budget
    omega
  split
  · exact ⟨hwritten, hle⟩
  · rename_i hmax
    have hlt : w₁.budget + 1 ≤ w.budget := by
      unfold World.budget
      omega
    split
    · rw [wp_bind]
      refine wp_mono (Within.wp (R := Paced) (within_handleMoved str) w₁) fun r w₂ h => ?_
      cases r with
      | none => exact ⟨h.written.trans hwritten, Nat.le_trans (le_of_eq h.budget) hle⟩
      | some n =>
        refine ⟨h.written.trans hwritten, ?_⟩
        show w₂.budget + 1 ≤ _
        rw [h.budget]
        exact hlt
    · rw [wp_bind]
      refine wp_mono (Within.wp (R := Paced) (within_handleAsk str) w₁) fun r w₂ h => ?_
      cases r with
      | none => exact ⟨h.written.trans hwritten, Nat.le_trans (le_of_eq h.budget) hle⟩
      | some n =>
        refine ⟨h.written.trans hwritten, ?_⟩
        show w₂.budget + 1 ≤ _
        rw [h.budget]
        exact hlt
    · exact ⟨hwritten, hlt⟩

theorem redisAppendCommand_written (c : ConnId) (q : Sent) (w : World ω) :
    wp (redisAppendCommand H c q) (fun _ w' =>
      w'.written ≤ w.written + 1 ∧ w'.budget = w.budget) w := by
  unfold redisAppendCommand
  rw [wp_bind, wp_get, wp_bind, wp_ask]
  split
  · refine ⟨?_, rfl⟩
    show (w.trace ++ [_]).countP _ ≤ w.trace.countP _ + 1
    rw [List.countP_append, List.countP_singleton]
    split <;> omega
  · exact ⟨Nat.le_succ _, rfl⟩

/-- Sending the command: it is written at most once, and is followed by another attempt
only if a retry is used up. -/
theorem execSend_sends (cmd : Cmd) (c : ConnId) (u : Option ConnId) (w : World ω) :
    wp (execSend H cmd c u) (fun e w' => w'.written + e.sends w' ≤ w.written + w.budget + 1) w := by
  unfold execSend
  rw [wp_bind]
  refine wp_mono (redisAppendCommand_written H c _ w) fun r w₁ h₁ => ?_
  obtain ⟨hw₁, hb₁⟩ := h₁
  cases r with
  | err =>
    dsimp only
    rw [wp_bind]
    refine wp_mono (Within.wp (R := Paced) (within_copyError c) w₁) fun _ w₂ h₂ => ?_
    show w₂.written + w₂.budget ≤ _
    rw [h₂.written, h₂.budget]
    omega
  | ok =>
    dsimp only
    rw [wp_bind]
    refine wp_mono (Within.wp (R := Paced) (within_pipelineUpdate H c u) w₁) fun u' w₂ h₂ => ?_
    rw [wp_bind]
    refine wp_mono (Within.wp (R := Paced) (within_redisGetReply H c _) w₂) fun r w₃ h₃ => ?_
    have h₁₃ := h₂.trans h₃
    cases r with
    | none =>
      unfold execReadFailed
      dsimp only
      rw [wp_bind]
      refine wp_mono (Within.wp (R := Paced) (within_copyError c) w₃) fun _ w₄ h₄ => ?_
      have h₁₄ := h₁₃.trans h₄
      have hend : w₄.written + w₄.budget ≤ w.written + w.budget + 1 := by
        rw [h₁₄.written, h₁₄.budget]
        omega
      rw [wp_bind, wp_get]
      split
      · exact hend
      · exact hend
    | some a =>
      unfold execReply
      dsimp only
      split
      · show w₃.written + w₃.budget ≤ _
        rw [h₁₃.written, h₁₃.budget]
        omega
      · show w₃.written + w₃.budget ≤ _
        rw [h₁₃.written, h₁₃.budget]
        omega
      · refine wp_mono (execRedirect_sends c u' _ _ w₃) fun e w₄ h₄ => ?_
        rw [h₄.1, h₁₃.written]
        have := h₄.2
        rw [h₁₃.budget] at this
        omega

/-- **Every command written is paid for**, whatever the loop does. -/
theorem execStep_sends (cmd : Cmd) (e : Exec) (w : World ω) :
    wp (execStep H cmd e) (fun e' w' => w'.written + e'.sends w' ≤ w.written + e.sends w) w := by
  have hpaced : ∀ {m : Prog ω Exec}, Within Paced m →
      wp m (fun e' w' => w'.written + e'.sends w' ≤ w.written + (w.budget + 1)) w := by
    intro m hm
    refine wp_mono (hm.wp w) fun e' w' h => ?_
    have := e'.sends_le w'
    rw [h.budget] at this
    rw [h.written]
    omega
  obtain ⟨pc, u⟩ := e
  cases pc with
  | retry => exact hpaced (within_execRetry H cmd u)
  | send c => exact execSend_sends H cmd c u w
  | moved n c => exact hpaced (within_execMoved H n c u)
  | follow n ask => exact hpaced (within_connectOrFail H n _ u)
  | asking c => exact hpaced (within_execAsking H c u)
  | done r =>
    refine wp_mono (wp_and (Within.wp (R := Paced) (within_execDone H r u) w)
      (execDone_returns H r u w)) fun e' w' h => ?_
    obtain ⟨hp, -, hpc⟩ := h
    have hs : e'.sends w' = w'.budget := by
      unfold Exec.sends
      rcases hpc with hpc | hpc
      · rw [hpc]
      · rw [hpc]
    rw [hs, hp.written, hp.budget]
    exact Nat.le_refl _
  | ret r => exact Nat.le_refl (w.written + w.budget)

/-- The loop writes its command once, and again at most as often as it uses up
retries. -/
theorem redisClusterCommandExecute_written (cmd : Cmd) (w : World ω) :
    wp (redisClusterCommandExecute H cmd) (fun _ w' =>
      w'.written + w'.budget ≤ w.written + w.budget + 1) w := by
  have hrun : ∀ n, (execAt H cmd w n).2.written + (execAt H cmd w n).1.sends (execAt H cmd w n).2 ≤
      w.written + w.budget + 1 := by
    intro n
    induction n with
    | zero => exact Nat.le_refl _
    | succ n ih =>
      unfold execAt at ih ⊢
      rw [Function.iterate_succ_apply']
      exact Nat.le_trans (execStep_sends H cmd _ _) ih
  obtain ⟨r, hr⟩ := execAt_returned H cmd w
  have hend := hrun (execFuel w)
  rw [Exec.sends, hr] at hend
  exact hend

end Loop

/-! ## A command with its fragments -/

/-- The number of fragments of a command: one for each slot of its keys. -/
def fragmentCount (cmd : Bytes) : ℕ :=
  match redisParseCmd cmd with
  | .error _ => 0
  | .ok p => (p.keys.map (KeyPos.slot cmd)).dedup.length

theorem Split.length_eq {type : CmdType} {buf : Bytes} {ks : List KeyPos} {fs : List Cmd}
    (h : Split type buf ks fs) : fs.length = (ks.map (KeyPos.slot buf)).dedup.length := by
  have hperm : (fs.map Cmd.slotNum).Perm (ks.map (KeyPos.slot buf)).dedup := by
    refine (List.perm_ext_iff_of_nodup ?_ (List.nodup_dedup _)).mpr fun s => ?_
    · exact List.Pairwise.imp Int.ne_of_lt (List.pairwise_map.mpr h.sorted)
    · rw [List.mem_dedup]
      constructor
      · intro hs
        obtain ⟨f, hf, rfl⟩ := List.mem_map.mp hs
        -- a fragment has a key, which is one of the command's
        have hne := h.nonempty f hf
        rw [h.keys f hf, Ne, List.map_eq_nil_iff] at hne
        obtain ⟨k, hk⟩ := List.exists_mem_of_ne_nil _ hne
        rw [List.mem_filter] at hk
        exact List.mem_map.mpr ⟨k, hk.1, by simpa using hk.2⟩
      · intro hs
        obtain ⟨k, hk, rfl⟩ := List.mem_map.mp hs
        obtain ⟨f, hf, hfs⟩ := h.complete k hk
        exact List.mem_map.mpr ⟨f, hf, hfs⟩
  rw [← hperm.length_eq, List.length_map]

/-- The fragments are as many as they should be. -/
theorem commandFormatBySlot_count (id : ℕ) (cmd : Bytes) (w : World ω) :
    wp (commandFormatBySlot { id, cmd }) (fun p _ => 0 ≤ p.1 →
      (p.2.subCommands.map List.length).getD 1 = fragmentCount cmd) w := by
  unfold commandFormatBySlot fragmentCount
  split
  · exact fun h => by cases h
  · split
    · exact fun h => by cases h
    · rename_i p hp
      dsimp only
      rw [hp]
      dsimp only
      split
      · exact fun h => by cases h
      · rename_i k hk
        intro _
        rw [hk]
        rfl
      · rename_i hnil hone
        unfold commandPreFragment
        rw [wp_bind, wp_get, wp_bind, wp_modify]
        have hsplit := @collectFragments_split p.type cmd p.keys w.cmdId [] [] (split_nil p.type cmd)
        have hlen := hsplit.length_eq
        split
        · rename_i hlen1
          intro _
          rw [List.nil_append] at hlen
          exact hlen1.symm.trans hlen
        · intro _
          show ((collectFragments p.type cmd w.cmdId [] p.keys).2.map _).length = _
          rw [List.length_map, hlen]
          rfl

section Fragments

variable (H : Hiredis ω)

theorem executeFragments_written (frags : List Cmd) : ∀ done (w : World ω),
    wp (executeFragments H done frags) (fun _ w' =>
      w'.written + w'.budget ≤ w.written + w.budget + frags.length) w := by
  induction frags with
  | nil => exact fun done w => Nat.le_refl _
  | cons f fs ih =>
    intro done w
    unfold executeFragments
    rw [wp_bind]
    refine wp_mono (redisClusterCommandExecute_written H f w) fun r w₁ h₁ => ?_
    rw [List.length_cons]
    have hstop : w₁.written + w₁.budget ≤ w.written + w.budget + (fs.length + 1) := by omega
    cases r with
    | none => exact hstop
    | some a =>
      dsimp only
      split
      · exact hstop
      · refine wp_mono (ih _ w₁) fun _ w₂ h₂ => ?_
        omega

theorem executeFormatted_written (command : Request) (w : World ω) :
    wp (executeFormatted H command) (fun _ w' => w'.written + w'.budget ≤
      w.written + w.budget + (command.subCommands.map List.length).getD 1) w := by
  unfold executeFormatted
  split
  · rename_i hsub
    rw [wp_bind, hsub]
    exact redisClusterCommandExecute_written H _ w
  · rename_i frags hsub
    rw [wp_bind, hsub]
    refine wp_mono (executeFragments_written H frags [] w) fun x w₁ h₁ => ?_
    cases x with
    | failed => exact h₁
    | error r => exact h₁
    | replies rs =>
      unfold commandPostFragment
      dsimp only
      split
      · exact h₁
      · exact h₁
      · exact h₁

theorem paced_commandFormatBySlot (r : Request) :
    Within Paced (commandFormatBySlot r : Prog ω _) := by
  refine within_ite (within_pure _) ?_
  split
  · exact within_bind (TalkClosed.setError _ _) fun _ => within_pure _
  · dsimp only
    split
    · exact within_bind (TalkClosed.setError _ _) fun _ => within_pure _
    · exact within_pure _
    · exact within_bind within_get fun w => within_bind (fun _ => paced_of_eq rfl rfl) fun _ =>
        within_ite (within_pure _) (within_pure _)

/-- A whole command: each fragment once, and again at most as often as retries are left
at the beginning; the counter is reset. -/
theorem redisClusterFormattedCommand_written (cmd : Bytes) (w : World ω) :
    wp (redisClusterFormattedCommand H cmd) (fun _ w' =>
      w'.written ≤ w.written + w.budget + fragmentCount cmd ∧ w'.cc.retryCount = 0) w := by
  unfold redisClusterFormattedCommand
  rw [wp_bind]
  refine wp_mono (Within.wp (R := Paced) (within_bind within_get fun _ =>
    within_ite (TalkClosed.setError _ _) (within_pure _)) w) fun _ w₁ h₁ => ?_
  rw [wp_bind]
  refine wp_mono (P := fun _ w₂ => Paced w₁ w₂) (paced_of_eq rfl rfl) fun id w₂ h₂ => ?_
  rw [wp_bind]
  refine wp_mono (wp_and ((paced_commandFormatBySlot _).wp w₂)
    (commandFormatBySlot_count id cmd w₂)) fun p w₃ h₃ => ?_
  obtain ⟨hp₃, hcount⟩ := h₃
  have h₀₃ := (h₁.trans h₂).trans hp₃
  have hend : w₃.written ≤ w.written + w.budget + fragmentCount cmd := by
    rw [h₀₃.written]
    omega
  obtain ⟨slotNum, command⟩ := p
  dsimp only at hcount ⊢
  split
  · exact ⟨hend, rfl⟩
  · rename_i hneg
    split
    · exact ⟨hend, rfl⟩
    · rw [wp_bind]
      refine wp_mono (executeFormatted_written H command w₃) fun r w₄ h₄ => ⟨?_, rfl⟩
      rw [hcount (Int.not_lt.mp hneg), h₀₃.written, h₀₃.budget] at h₄
      show w₄.written ≤ _
      omega

end Fragments
