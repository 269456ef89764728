/-
# Sessions and their authentication

A connection carries one session after the other: `redisReconnect` opens a new one, on which
AUTH has to be answered again.  What passes between the client and hiredis is kept in a log
by the environment; from the log it can be told whether the session of a connection is
authenticated, and which AUTHs of a call were rejected.

The invariant (`Secured`) is that nothing was written on a session before its AUTH was
answered, and that the connection of every node is authenticated or in error.
-/
import HiredisCluster.Client
import HiredisCluster.Reporting
import HiredisCluster.Splitting
import HiredisCluster.Updating
import HiredisCluster.Lib.Triple
import Mathlib.Data.List.Induction

open Program Program.History

variable {ω : Type}

/-! ## The log -/

/-- What passes between the client and hiredis. -/
inductive Exchange where
  /-- A new session is opened on a connection. -/
  | reconnect (c : ConnId)
  /-- The session takes the command. -/
  | append (c : ConnId) (q : Sent)
  /-- The reply to `q` is read. -/
  | reply (c : ConnId) (q : Sent) (isError : Bool)
  deriving DecidableEq

/-- hiredis with a log of what passes. -/
def Hiredis.logged (H : Hiredis ω) : Hiredis (ω × List Exchange) where
  connect s host port :=
    let r := H.connect s.1 host port
    (r.1, r.2, s.2)
  reconnect s p :=
    let r := H.reconnect s.1 p
    (r.1, r.2, s.2 ++ [.reconnect p.id])
  initSsl s p :=
    let r := H.initSsl s.1 p
    (r.1, r.2, s.2)
  append s p q :=
    let r := H.append s.1 p q
    (r.1, r.2, if r.1.isNone then s.2 ++ [.append p.id q] else s.2)
  flush s p :=
    let r := H.flush s.1 p
    (r.1, r.2, s.2)
  reply s p q :=
    let r := H.reply s.1 p q
    (r.1, r.2, match r.1 with
      | .error _ => s.2
      | .ok a => s.2 ++ [.reply p.id q a.isError])
  idle s p :=
    let r := H.idle s.1 p
    (r.1, r.2, s.2)
  asyncConnect s host port :=
    let r := H.asyncConnect s.1 host port
    (r.1, r.2, s.2)
  submit s p q :=
    let r := H.submit s.1 p q
    (r.1, r.2, s.2)
  attach s p :=
    let r := H.attach s.1 p
    (r.1, r.2, s.2)
  now s :=
    let r := H.now s.1
    (r.1, r.2, s.2)
  random s :=
    let r := H.random s.1
    (r.1, r.2, s.2)

def World.log (w : World (ω × List Exchange)) : List Exchange := w.env.2

def Sent.isAuth : Sent → Bool
  | .auth _ _ => true
  | _ => false

/-- Whether the session of `c` is authenticated, after one more exchange. -/
def authStep (c : ConnId) (b : Bool) : Exchange → Bool
  | .reconnect c' => if c' = c then false else b
  | .append _ _ => b
  | .reply c' q isError => if c' = c ∧ q.isAuth then !isError else b

/-- The AUTH of the session of `c` was answered, and not by an error. -/
def authed (c : ConnId) (log : List Exchange) : Bool := log.foldl (authStep c) false

/-- Whether the last AUTH was rejected, after one more exchange. -/
def refuseStep (b : Bool) : Exchange → Bool
  | .reply _ q isError => if q.isAuth then isError else b
  | _ => b

/-- The last AUTH was answered by an error. -/
def refused (log : List Exchange) : Bool := log.foldl refuseStep false

/-- Whatever a session took, AUTH itself apart, it took when it was authenticated. -/
def WrittenAuthed (log : List Exchange) : Prop :=
  ∀ before c q after, log = before ++ .append c q :: after → q.isAuth = false →
    authed c before = true

/-- An AUTH was answered by an error on a connection that had been reconnected. -/
def RefusedOnReconnect (log : List Exchange) : Prop :=
  ∃ c user pw, [.reconnect c, .reply c (.auth user pw) true].Sublist log

/-- An AUTH is answered by an error. -/
def Exchange.rejectsAuth : Exchange → Bool
  | .reply _ q isError => q.isAuth && isError
  | _ => false

/-- An AUTH is answered, and not by an error. -/
def Exchange.acceptsAuth : Exchange → Bool
  | .reply _ q isError => q.isAuth && !isError
  | _ => false

/-- An AUTH was accepted after another was rejected. -/
def AcceptedAfterRejection (log : List Exchange) : Prop :=
  ∃ e e', e.rejectsAuth = true ∧ e'.acceptsAuth = true ∧ [e, e'].Sublist log

/-- Besides, nothing was written once an AUTH was rejected, from the `k`-th exchange on. -/
def Orderly (k : ℕ) (log : List Exchange) : Prop :=
  ∀ before c q after, log = before ++ .append c q :: after → q.isAuth = false →
    authed c before = true ∧ refused (before.drop k) = false

/-- An exchange that opens no session and does not answer an AUTH. -/
def Exchange.plain : Exchange → Bool
  | .reconnect _ => false
  | .append _ _ => true
  | .reply _ q _ => !q.isAuth

theorem authed_concat (c : ConnId) (log : List Exchange) (e : Exchange) :
    authed c (log ++ [e]) = authStep c (authed c log) e := by
  simp [authed]

theorem refused_concat {k : ℕ} {log : List Exchange} (hk : k ≤ log.length) (e : Exchange) :
    refused ((log ++ [e]).drop k) = refuseStep (refused (log.drop k)) e := by
  rw [List.drop_append_of_le_length hk]
  simp [refused]

theorem authStep_plain {e : Exchange} (he : e.plain = true) (c : ConnId) (b : Bool) :
    authStep c b e = b := by
  cases e with
  | reconnect c' => cases he
  | append c' q => rfl
  | reply c' q isError =>
    have hq : q.isAuth = false := by simpa [Exchange.plain] using he
    simp [authStep, hq]

theorem refuseStep_plain {e : Exchange} (he : e.plain = true) (b : Bool) :
    refuseStep b e = b := by
  cases e with
  | reconnect c' => cases he
  | append c' q => rfl
  | reply c' q isError =>
    have hq : q.isAuth = false := by simpa [Exchange.plain] using he
    simp [refuseStep, hq]

theorem authed_plain (c : ConnId) {new : List Exchange} (hnew : ∀ e ∈ new, e.plain = true) :
    ∀ log, authed c (log ++ new) = authed c log := by
  induction new with
  | nil => simp
  | cons e new ih =>
    intro log
    rw [List.append_cons, ih fun e' he' => hnew e' (List.mem_cons_of_mem _ he'), authed_concat,
      authStep_plain (hnew e List.mem_cons_self)]

theorem refused_plain {k : ℕ} {new : List Exchange} (hnew : ∀ e ∈ new, e.plain = true) :
    ∀ {log : List Exchange}, k ≤ log.length →
      refused ((log ++ new).drop k) = refused (log.drop k) := by
  induction new with
  | nil => simp
  | cons e new ih =>
    intro log hk
    have hk' : k ≤ (log ++ [e]).length := by simp; omega
    rw [List.append_cons, ih (fun e' he' => hnew e' (List.mem_cons_of_mem _ he')) hk',
      refused_concat hk, refuseStep_plain (hnew e List.mem_cons_self)]

theorem AcceptedAfterRejection.sublist {log log' : List Exchange} (h : AcceptedAfterRejection log)
    (hs : log.Sublist log') : AcceptedAfterRejection log' := by
  obtain ⟨e, e', he, he', hsub⟩ := h
  exact ⟨e, e', he, he', hsub.trans hs⟩

/-- Once an AUTH is rejected, the last one is, as long as no other is accepted. -/
theorem refused_of_rejects {log : List Exchange} {e : Exchange} (he : e ∈ log)
    (hrej : e.rejectsAuth = true) (hno : ¬ AcceptedAfterRejection log) : refused log = true := by
  induction log using List.reverseRecOn with
  | nil => cases he
  | append_singleton log x ih =>
    have hstep : refused (log ++ [x]) = refuseStep (refused log) x := by simp [refused]
    rw [hstep]
    rcases List.mem_append.mp he with hin | hin
    · have hlast := ih hin fun h => hno (h.sublist (List.sublist_append_left log [x]))
      cases x with
      | reconnect c => exact hlast
      | append c q => exact hlast
      | reply c q isError =>
        unfold refuseStep
        dsimp only
        split
        · rename_i hauth
          by_contra hacc
          refine hno ⟨e, _, hrej, ?_, (List.singleton_sublist.mpr hin).append (List.Sublist.refl [_])⟩
          simp [Exchange.acceptsAuth, hauth, Bool.eq_false_iff.mpr hacc]
        · exact hlast
    · obtain rfl := List.mem_singleton.mp hin
      cases e with
      | reconnect c => cases hrej
      | append c q => cases hrej
      | reply c q isError =>
        obtain ⟨hauth, herr⟩ := Bool.and_eq_true_iff.mp hrej
        unfold refuseStep
        dsimp only
        rw [if_pos hauth]
        exact herr

theorem Orderly.concat {k : ℕ} {log : List Exchange} {e : Exchange} (h : Orderly k log)
    (he : ∀ c q, e = .append c q → q.isAuth = false →
      authed c log = true ∧ refused (log.drop k) = false) : Orderly k (log ++ [e]) := by
  intro before c q after hsplit hq
  rcases List.eq_nil_or_concat after with rfl | ⟨after', e', rfl⟩
  · obtain ⟨rfl, hlast⟩ := List.append_inj' hsplit rfl
    exact he c q (List.cons.inj hlast).1 hq
  · rw [List.concat_eq_append, ← List.cons_append, ← List.append_assoc] at hsplit
    exact h before c q after' (List.append_inj' hsplit rfl).1 hq

theorem Orderly.written {k : ℕ} {log : List Exchange} (h : Orderly k log) : WrittenAuthed log :=
  fun before c q after hsplit hq => (h before c q after hsplit hq).1

/-- A new call starts with a clean sheet. -/
theorem WrittenAuthed.orderly {log : List Exchange} (h : WrittenAuthed log) :
    Orderly log.length log := by
  intro before c q after hsplit hq
  refine ⟨h before c q after hsplit hq, ?_⟩
  have hlen : before.length ≤ log.length := by
    rw [hsplit, List.length_append]
    omega
  rw [List.drop_of_length_le hlen]
  rfl

/-! ## The invariant -/

/-- The last AUTH after the `k`-th exchange was rejected. -/
def World.refusedSince (k : ℕ) (w : World (ω × List Exchange)) : Prop :=
  refused (w.log.drop k) = true

/-- All sessions but that of `x`, which has just been opened, are as they should be: a
connection that can be used is not waiting for the answer to an AUTH, and is authenticated
if a node has it. -/
structure Secured (k : ℕ) (x : Option ConnId) (w : World (ω × List Exchange)) : Prop where
  since : k ≤ w.log.length
  password : w.cc.password ≠ none
  orderly : Orderly k w.log
  queues : ∀ c, some c ≠ x → (w.conns c).err = none → ∀ q ∈ (w.conns c).queue, q.isAuth = false
  nodes : ∀ n c, (w.heap n).con = some c → some c ≠ x → (w.conns c).err = none →
    authed c w.log = true
  lt : ∀ n c, (w.heap n).con = some c → c < w.nextConn
  fresh : ∀ c, x = some c → (w.conns c).queue = []

namespace Secured

variable {k : ℕ} {x : Option ConnId} {c : ConnId} {w : World (ω × List Exchange)}

theorem rebase (h : Secured k x w) : Secured w.log.length x w :=
  { h with since := le_rfl, orderly := h.orderly.written.orderly }

/-- The new session may be used by the nodes that have it. -/
theorem whole (h : Secured k (some c) w)
    (hc : ∀ n, (w.heap n).con = some c → (w.conns c).err = none → authed c w.log = true) :
    Secured k none w where
  since := h.since
  password := h.password
  orderly := h.orderly
  queues c' _ := by
    by_cases hx : some c' = some c
    · intro _ q hq
      obtain rfl := Option.some.inj hx
      rw [h.fresh c' rfl] at hq
      cases hq
    · exact h.queues c' hx
  nodes n c' hn _ := by
    by_cases hx : some c' = some c
    · obtain rfl := Option.some.inj hx
      exact hc n hn
    · exact h.nodes n c' hn hx
  lt := h.lt
  fresh c' hx := by cases hx

end Secured

/-! ## Without hiredis -/

/-- Nothing is said to hiredis but that connections may be freed. -/
structure Offline (w w' : World ω) : Prop where
  env : w'.env = w.env
  password : w'.cc.password = w.cc.password
  nextConn : w.nextConn ≤ w'.nextConn
  conns : ∀ c, w'.conns c = w.conns c ∨ (w'.conns c).queue = [] ∧ (w'.conns c).err = (w.conns c).err
  con : ∀ n c, (w'.heap n).con = some c → ∃ m, (w.heap m).con = some c

theorem Offline.refl (w : World ω) : Offline w w :=
  ⟨rfl, rfl, le_rfl, fun _ => Or.inl rfl, fun n _ h => ⟨n, h⟩⟩

theorem Offline.trans {w w' w'' : World ω} (h : Offline w w') (h' : Offline w' w'') :
    Offline w w'' where
  env := h'.env.trans h.env
  password := h'.password.trans h.password
  nextConn := Nat.le_trans h.nextConn h'.nextConn
  conns c := by
    rcases h'.conns c with heq | ⟨hq, he⟩
    · rw [heq]
      exact h.conns c
    · rcases h.conns c with heq | ⟨-, he'⟩
      · exact Or.inr ⟨hq, by rw [he, heq]⟩
      · exact Or.inr ⟨hq, he.trans he'⟩
  con n c hn := by
    obtain ⟨m, hm⟩ := h'.con n c hn
    exact h.con m c hm

instance : Std.Refl (@Offline ω) := ⟨Offline.refl⟩

instance : IsTrans (World ω) Offline := ⟨fun _ _ _ => Offline.trans⟩

theorem offline_of_eq {w w' : World ω} (henv : w'.env = w.env)
    (hpw : w'.cc.password = w.cc.password) (hconns : w'.conns = w.conns)
    (hnext : w'.nextConn = w.nextConn) (hheap : ∀ n, (w'.heap n).con = (w.heap n).con) :
    Offline w w' where
  env := henv
  password := hpw
  nextConn := by omega
  conns c := Or.inl (by rw [hconns])
  con n c hn := ⟨n, (hheap n).symm.trans hn⟩

theorem offline_redisFree (c : Option ConnId) : Within Offline (redisFree c : Prog ω Unit) := by
  cases c with
  | none => exact within_pure _
  | some c =>
    intro w
    refine ⟨rfl, rfl, le_rfl, fun c' => ?_, fun n _ h => ⟨n, h⟩⟩
    show Function.update w.conns c _ c' = _ ∨ _
    by_cases hc : c' = c
    · subst hc
      refine Or.inr ?_
      show (Function.update w.conns c' _ c').queue = [] ∧ (Function.update w.conns c' _ c').err = _
      rw [Function.update_self]
      exact ⟨rfl, rfl⟩
    · exact Or.inl (Function.update_of_ne hc _ _)

/-- An edit of a node that adds no connection to it. -/
theorem offline_modifyNode (n : NodeId) {f : Node → Node}
    (hf : ∀ node, (f node).con = node.con ∨ (f node).con = none) :
    Within Offline (modifyNode n f : Prog ω Unit) := by
  intro w
  refine ⟨rfl, rfl, le_rfl, fun _ => Or.inl rfl, fun m c hm => ⟨m, ?_⟩⟩
  change (Function.update w.heap n (f (w.heap n)) m).con = some c at hm
  by_cases hn : m = n
  · subst hn
    rw [Function.update_self] at hm
    rcases hf (w.heap m) with he | he
    · exact he.symm.trans hm
    · rw [he] at hm
      cases hm
  · rwa [Function.update_of_ne hn] at hm

theorem relinkAsync_frame (a : Option AConnId) (n : NodeId) (w : World ω) :
    (relinkAsync a n w).2.env = w.env ∧ (relinkAsync a n w).2.conns = w.conns := by
  cases a with
  | none => exact ⟨rfl, rfl⟩
  | some a => exact ⟨rfl, rfl⟩

theorem swapNodeCtx_frame (f t : NodeId) (w : World ω) :
    (swapNodeCtx f t w).2.env = w.env ∧ (swapNodeCtx f t w).2.conns = w.conns := by
  show wp (swapNodeCtx f t) (fun _ w' => w'.env = w.env ∧ w'.conns = w.conns) w
  unfold swapNodeCtx modifyNode
  simp only [wp_bind, wp_get, wp_modify]
  split
  · exact ⟨(relinkAsync_frame _ f _).1.trans (relinkAsync_frame _ t _).1,
      (relinkAsync_frame _ f _).2.trans (relinkAsync_frame _ t _).2⟩
  · exact ⟨rfl, rfl⟩

theorem offline_swapNodeCtx (f t : NodeId) : Within Offline (swapNodeCtx f t : Prog ω Unit) := by
  intro w
  have hs := swapped_swapNodeCtx f t w
  obtain ⟨henv, hconns⟩ := swapNodeCtx_frame f t w
  obtain ⟨σ, -, hσ⟩ := hs.handed
  exact ⟨henv, by rw [hs.cc], by rw [hs.nextConn], fun c => Or.inl (by rw [hconns]),
    fun n c hn => ⟨σ n, (hσ n).symm.trans hn⟩⟩

theorem offline_modifyCc {f : Context → Context} (hf : ∀ cc, (f cc).password = cc.password) :
    Within Offline (modifyCc f : Prog ω Unit) :=
  fun _ => offline_of_eq rfl (hf _) rfl rfl fun _ => rfl

theorem offline_record (e : Event) : Within Offline (record e : Prog ω Unit) :=
  fun _ => offline_of_eq rfl rfl rfl rfl fun _ => rfl

theorem offline_userHook : Within Offline (userHook : Prog ω Unit) :=
  within_bind within_get fun _ => offline_record _

instance : InstallClosed (@Offline ω) where
  setError _ _ := offline_modifyCc fun _ => rfl
  redisFree := offline_redisFree
  detachAsync a := by
    cases a with
    | none => exact within_pure _
    | some a => exact fun _ => offline_of_eq rfl rfl rfl rfl fun _ => rfl
  released _ := offline_record _
  newNode {node} hcon w := by
    refine ⟨rfl, rfl, le_rfl, fun _ => Or.inl rfl, fun m c hm => ⟨m, ?_⟩⟩
    change (Function.update w.heap w.nextNode node m).con = some c at hm
    by_cases hn : m = w.nextNode
    · subst hn
      rw [Function.update_self, hcon] at hm
      cases hm
    · rwa [Function.update_of_ne hn] at hm
  editNode n f hf := offline_modifyNode n fun node => Or.inl (hf node).2
  userHook := offline_userHook
  modifyCc hf := offline_modifyCc fun cc => by
    obtain ⟨d, t, v, b, heq⟩ := hf cc
    rw [heq]
  swapNodeCtx := offline_swapNodeCtx
  stored _ _ := offline_record _

instance : ContextClosed (@Offline ω) where
  setError _ _ := offline_modifyCc fun _ => rfl
  redisFree := offline_redisFree
  modifyCc hf := offline_modifyCc fun cc => by
    obtain ⟨r, q, b, heq⟩ := hf.same cc
    rw [heq]
  cmdId _ _ := offline_of_eq rfl rfl rfl rfl fun _ => rfl
  disconnect n := offline_modifyNode n fun _ => Or.inr rfl

/-! ## Sessions that stay as they are -/

/-- No session is opened, and no AUTH is answered. -/
structure SameSessions (k : ℕ) (x : Option ConnId) (w w' : World (ω × List Exchange)) :
    Prop where
  log : ∃ new, w'.log = w.log ++ new ∧ (Secured k x w → ∀ e ∈ new, e.plain = true)
  secured : Secured k x w → Secured k x w'

section Same

variable {k : ℕ} {x : Option ConnId} {w w' : World (ω × List Exchange)}

theorem SameSessions.refl (w : World (ω × List Exchange)) : SameSessions k x w w :=
  ⟨⟨[], (List.append_nil _).symm, fun _ e he => by cases he⟩, id⟩

theorem SameSessions.trans {w'' : World (ω × List Exchange)} (h : SameSessions k x w w')
    (h' : SameSessions k x w' w'') : SameSessions k x w w'' := by
  obtain ⟨new, hnew, hplain⟩ := h.log
  obtain ⟨new', hnew', hplain'⟩ := h'.log
  refine ⟨⟨new ++ new', by rw [hnew', hnew, List.append_assoc], fun hs e he => ?_⟩,
    fun hs => h'.secured (h.secured hs)⟩
  rcases List.mem_append.mp he with he | he
  · exact hplain hs e he
  · exact hplain' (h.secured hs) e he

instance : Std.Refl (@SameSessions ω k x) := ⟨SameSessions.refl⟩

instance : IsTrans (World (ω × List Exchange)) (SameSessions k x) :=
  ⟨fun _ _ _ => SameSessions.trans⟩

theorem SameSessions.authed (h : SameSessions k x w w') (hs : Secured k x w) (c : ConnId) :
    authed c w'.log = authed c w.log := by
  obtain ⟨new, hnew, hplain⟩ := h.log
  rw [hnew, authed_plain c (hplain hs)]

theorem SameSessions.refusedSince (h : SameSessions k x w w') (hs : Secured k x w) :
    w'.refusedSince k ↔ w.refusedSince k := by
  obtain ⟨new, hnew, hplain⟩ := h.log
  rw [World.refusedSince, hnew, refused_plain (hplain hs) hs.since, World.refusedSince]

theorem Offline.sameSessions (h : Offline w w') : SameSessions k x w w' where
  log := ⟨[], by rw [World.log, h.env, List.append_nil, World.log], fun _ e he => by cases he⟩
  secured hs := by
    have hlog : w'.log = w.log := congrArg Prod.snd h.env
    have herr : ∀ c, (w'.conns c).err = (w.conns c).err := fun c => by
      rcases h.conns c with heq | ⟨-, he⟩
      · rw [heq]
      · exact he
    exact {
      since := hlog ▸ hs.since
      password := h.password ▸ hs.password
      orderly := hlog ▸ hs.orderly
      queues := fun c hx he q hq => by
        rcases h.conns c with heq | ⟨hnil, -⟩
        · exact hs.queues c hx ((herr c).symm.trans he) q (heq ▸ hq)
        · rw [hnil] at hq
          cases hq
      nodes := fun n c hn hx he => by
        obtain ⟨m, hm⟩ := h.con n c hn
        rw [hlog]
        exact hs.nodes m c hm hx ((herr c).symm.trans he)
      lt := fun n c hn => by
        obtain ⟨m, hm⟩ := h.con n c hn
        exact lt_of_lt_of_le (hs.lt m c hm) h.nextConn
      fresh := fun c hx => by
        rcases h.conns c with heq | ⟨hnil, -⟩
        · rw [heq]
          exact hs.fresh c hx
        · exact hnil }

theorem Program.Within.sameSessions {α : Type} {m : Prog (ω × List Exchange) α}
    (h : Within Offline m) : Within (SameSessions k x) m := h.mono fun _ _ h => h.sameSessions

end Same

section Talking

variable (H : Hiredis ω) {k : ℕ} {x : Option ConnId}

/-- A question that is not logged. -/
theorem sessions_ask {α : Type} {f : ω × List Exchange → α × ω × List Exchange}
    (hf : ∀ s, (f s).2.2 = s.2) : Within (SameSessions k x) (ask f) := by
  intro w
  have hlog : World.log { w with env := (f w.env).2 } = w.log := hf w.env
  refine ⟨⟨[], by rw [List.append_nil]; exact hlog, fun _ e he => by cases he⟩, fun hs => ?_⟩
  exact { hs with
    since := le_of_le_of_eq hs.since (congrArg List.length hlog.symm)
    orderly := by rw [show World.log (ask f w).2 = w.log from hlog]; exact hs.orderly
    nodes := fun n c hn hx he => by
      rw [show World.log (ask f w).2 = w.log from hlog]
      exact hs.nodes n c hn hx he }

/-- An error on a connection that owes the same as before. -/
theorem sessions_of_fault {c : ConnId} {f : Fault} {w w' : World (ω × List Exchange)}
    (hlog : w'.log = w.log) (hcc : w'.cc = w.cc) (hheap : w'.heap = w.heap)
    (hnext : w'.nextConn = w.nextConn)
    (hconns : w'.conns = Function.update w.conns c { w.conns c with err := some f }) :
    SameSessions k x w w' := by
  have herr : ∀ c', (w'.conns c').err = none → (w.conns c').err = none := by
    intro c' he
    rw [hconns] at he
    by_cases hc : c' = c
    · subst hc
      rw [Function.update_self] at he
      cases he
    · rwa [Function.update_of_ne hc] at he
  have hqueue : ∀ c', (w'.conns c').queue = (w.conns c').queue := by
    intro c'
    rw [hconns]
    by_cases hc : c' = c
    · subst hc
      rw [Function.update_self]
    · rw [Function.update_of_ne hc]
  refine ⟨⟨[], by rw [hlog, List.append_nil], fun _ e he => by cases he⟩, fun hs => ?_⟩
  exact {
    since := hlog ▸ hs.since
    password := hcc ▸ hs.password
    orderly := hlog ▸ hs.orderly
    queues := fun c' hx he q hq => hs.queues c' hx (herr c' he) q (hqueue c' ▸ hq)
    nodes := fun n c' hn hx he => by
      rw [hlog]
      exact hs.nodes n c' (hheap ▸ hn) hx (herr c' he)
    lt := by
      rw [hheap, hnext]
      exact hs.lt
    fresh := fun c' hx => (hqueue c').trans (hs.fresh c' hx) }

theorem sessions_fault (c : ConnId) (f : Fault) :
    Within (SameSessions k x) (modifyConn c (fun conn => { conn with err := some f }) :
      Prog (ω × List Exchange) Unit) :=
  fun _ => sessions_of_fault rfl rfl rfl rfl rfl

theorem sessions_sslInitFn (c : ConnId) : Within (SameSessions k x) (sslInitFn H.logged c) := by
  refine within_bind within_get fun w => within_bind (sessions_ask fun _ => rfl) fun r => ?_
  cases r with
  | none => exact within_pure _
  | some f => exact within_bind (sessions_fault c f) fun _ => within_pure _

theorem sessions_redisBufferWrite (c : ConnId) :
    Within (SameSessions k x) (redisBufferWrite H.logged c) := by
  refine within_bind within_get fun w => within_ite (within_pure _) ?_
  refine within_bind (sessions_ask fun _ => rfl) fun r => ?_
  cases r with
  | none => exact within_pure _
  | some f => exact within_bind (sessions_fault c f) fun _ => within_pure _

theorem sessions_copyError (c : ConnId) :
    Within (SameSessions k x) (copyError c : Prog (ω × List Exchange) Unit) :=
  Program.Within.sameSessions (within_copyError c)

theorem sessions_startTls (c : ConnId) : Within (SameSessions k x) (startTls H.logged c) := by
  refine within_bind within_get fun w => within_ite ?_ (within_pure _)
  refine within_bind (sessions_sslInitFn H c) fun r => ?_
  cases r with
  | ok => exact within_pure _
  | err => exact within_bind (sessions_copyError c) fun _ => within_pure _

/-- The reply to the oldest command of a connection that can be used: this is not AUTH. -/
theorem sessions_taken {c : ConnId} {q : Sent} {rest : List Sent} {b : Bool}
    {w w' : World (ω × List Exchange)} (herr : (w.conns c).err = none)
    (hqueue : (w.conns c).queue = q :: rest)
    (hlog : w'.log = w.log ++ [.reply c q b])
    (hconns : w'.conns = Function.update w.conns c { w.conns c with queue := rest })
    (hcc : w'.cc = w.cc) (hheap : w'.heap = w.heap) (hnext : w'.nextConn = w.nextConn) :
    SameSessions k x w w' := by
  have hself : w'.conns c = { w.conns c with queue := rest } := by
    rw [hconns, Function.update_self]
  have hother : ∀ c', c' ≠ c → w'.conns c' = w.conns c' := fun c' hc => by
    rw [hconns, Function.update_of_ne hc]
  have hplain : Secured k x w → Exchange.plain (.reply c q b) = true := by
    intro hs
    have hx : some c ≠ x := fun hx => by
      have hnil := hs.fresh c hx.symm
      rw [hqueue] at hnil
      cases hnil
    rw [Exchange.plain, hs.queues c hx herr q (by rw [hqueue]; exact List.mem_cons_self)]
    rfl
  refine ⟨⟨_, hlog, fun hs e he => by rw [List.mem_singleton.mp he]; exact hplain hs⟩, fun hs => ?_⟩
  have hauth : ∀ c', authed c' w'.log = authed c' w.log := fun c' => by
    rw [hlog, authed_concat, authStep_plain (hplain hs)]
  exact {
    since := by
      rw [hlog, List.length_append]
      exact Nat.le_add_right_of_le hs.since
    password := hcc ▸ hs.password
    orderly := by
      rw [hlog]
      exact hs.orderly.concat fun c' q' he => by cases he
    queues := fun c' hx he q' hq' => by
      by_cases hc : c' = c
      · subst hc
        rw [hself] at hq'
        exact hs.queues c' hx herr q' (by rw [hqueue]; exact List.mem_cons_of_mem _ hq')
      · rw [hother c' hc] at he hq'
        exact hs.queues c' hx he q' hq'
    nodes := fun n c' hn hx he => by
      rw [hauth]
      rw [hheap] at hn
      by_cases hc : c' = c
      · subst hc
        exact hs.nodes n c' hn hx herr
      · rw [hother c' hc] at he
        exact hs.nodes n c' hn hx he
    lt := by rw [hheap, hnext]; exact hs.lt
    fresh := fun c' hx => by
      by_cases hc : c' = c
      · subst hc
        have hnil := hs.fresh c' hx
        rw [hqueue] at hnil
        cases hnil
      · rw [hother c' hc]
        exact hs.fresh c' hx }

theorem sessions_redisGetReply (c : ConnId) (awaited : Sent) :
    Within (SameSessions k x) (redisGetReply H.logged c awaited) := by
  intro w
  show wp (redisGetReply H.logged c awaited) (fun _ w' => SameSessions k x w w') w
  unfold redisGetReply
  rw [wp_bind, wp_get]
  by_cases herr : (w.conns c).err.isSome = true
  · rw [if_pos herr]
    exact SameSessions.refl w
  · rw [if_neg herr]
    have hnone : (w.conns c).err = none := Option.not_isSome_iff_eq_none.mp herr
    cases hqueue : (w.conns c).queue with
    | nil =>
      have hidle : Within (SameSessions k x) (do
          let f ← ask (H.logged.idle · (w.peer c))
          modifyConn c fun conn => { conn with err := some f }
          pure (none : Option Answer)) :=
        within_bind (sessions_ask fun _ => rfl) fun f =>
          within_bind (sessions_fault c f) fun _ => within_pure _
      exact hidle w
    | cons q rest =>
      dsimp only
      rw [wp_bind, wp_ask]
      cases hr : (H.reply w.env.1 (w.peer c) q).1 with
      | error f =>
        have hanswer : (H.logged.reply w.env (w.peer c) q).1 = .error f := hr
        have hsame : Within (SameSessions k x) (ask fun s =>
            ((), (H.reply s.1 (w.peer c) q).2, s.2)) := sessions_ask fun _ => rfl
        have henv : (H.logged.reply w.env (w.peer c) q).2 =
            ((H.reply w.env.1 (w.peer c) q).2, w.env.2) := by
          simp only [Hiredis.logged, hr]
        rw [hanswer, henv]
        exact (hsame w).trans (sessions_fault c f _)
      | ok a =>
        have hanswer : (H.logged.reply w.env (w.peer c) q).1 = .ok a := hr
        have henv : (H.logged.reply w.env (w.peer c) q).2 =
            ((H.reply w.env.1 (w.peer c) q).2, w.env.2 ++ [.reply c q a.isError]) := by
          simp only [Hiredis.logged, hr]
          rfl
        rw [hanswer, henv]
        exact sessions_taken hnone hqueue rfl rfl rfl rfl rfl

theorem sessions_handleReply (c : ConnId) :
    Within (SameSessions k none) (clusterUpdateRouteHandleReply H.logged c) :=
  within_handleReply H.logged (sessions_redisGetReply H)
    (fun _ _ => Program.Within.sameSessions (ParseClosed.setError _ _))
    (fun _ _ => Program.Within.sameSessions
      (within_bind (within_parseClusterSlots _ _) fun _ => within_updateNodesAndSlotmap _))
    (fun _ _ => Program.Within.sameSessions
      (within_bind (within_parseClusterNodes _ _) fun _ => within_updateNodesAndSlotmap _)) c

end Talking

/-! ## What is known at a place -/

/-- Logs grow, and a run is good as long as no AUTH is rejected on a reconnected
connection. -/
def sessions : History (World (ω × List Exchange)) where
  le w w' := w.log <+: w'.log
  refl _ := List.prefix_rfl
  trans := List.IsPrefix.trans
  good w := ¬ RefusedOnReconnect w.log
  mono h hgood := fun ⟨c, user, pw, hsub⟩ => hgood ⟨c, user, pw, hsub.trans h.sublist⟩

/-- No AUTH was rejected, or another was accepted after it. -/
structure Unrefused (k : ℕ) (w : World (ω × List Exchange)) : Prop where
  secured : Secured k none w
  unrefused : ¬ w.refusedSince k

/-- Commands may be written to `c`. -/
structure LoggedIn (k : ℕ) (c : ConnId) (w : World (ω × List Exchange)) : Prop extends
    Unrefused k w where
  authed : authed c w.log = true

/-- That an AUTH was rejected is an error of the context. -/
structure Excused (k : ℕ) (w : World (ω × List Exchange)) : Prop where
  secured : Secured k none w
  err : w.refusedSince k → w.Failed

/-- The session of `c` has just been opened, and no node has it. -/
structure Lone (k : ℕ) (c : ConnId) (w : World (ω × List Exchange)) : Prop where
  secured : Secured k (some c) w
  lt : c < w.nextConn
  unheld : ∀ n, (w.heap n).con ≠ some c

section Places

variable {k : ℕ} {c : ConnId} {w w' : World (ω × List Exchange)}

theorem Unrefused.excused (h : Unrefused k w) : Excused k w :=
  ⟨h.secured, fun hr => (h.unrefused hr).elim⟩

theorem Secured.excused (h : Secured k none w) (herr : w.Failed) : Excused k w :=
  ⟨h, fun _ => herr⟩

theorem Lone.whole (h : Lone k c w) : Secured k none w :=
  h.secured.whole fun n hn => (h.unheld n hn).elim

theorem SameSessions.le {x : Option ConnId} (h : SameSessions k x w w') : w.log <+: w'.log := by
  obtain ⟨new, hnew, -⟩ := h.log
  exact ⟨new, hnew.symm⟩

theorem SameSessions.unrefused (h : SameSessions k none w w') (hu : Unrefused k w) :
    Unrefused k w' :=
  ⟨h.secured hu.secured, fun hr => hu.unrefused ((h.refusedSince hu.secured).mp hr)⟩

theorem SameSessions.loggedIn (h : SameSessions k none w w') (hl : LoggedIn k c w) :
    LoggedIn k c w' :=
  ⟨h.unrefused hl.toUnrefused, by rw [h.authed hl.secured]; exact hl.authed⟩

theorem SameSessions.excused (h : SameSessions k none w w') (he : Excused k w)
    (herr : w.Failed → w'.Failed) : Excused k w' :=
  ⟨h.secured he.secured, fun hr => herr (he.err ((h.refusedSince he.secured).mp hr))⟩

/-- A new call. -/
theorem Secured.start (h : Secured k none w) : Unrefused w.log.length w where
  secured := h.rebase
  unrefused := by
    rw [World.refusedSince, List.drop_of_length_le le_rfl]
    exact Bool.false_ne_true

variable {α : Type} {m : Prog (ω × List Exchange) α}

theorem triple_unrefused (h : Within (SameSessions k none) m) :
    sessions.Triple (Unrefused k) m fun _ => Unrefused k :=
  fun w => ⟨(h w).le, fun _ hu => (h w).unrefused hu⟩

theorem triple_loggedIn (h : Within (SameSessions k none) m) :
    sessions.Triple (LoggedIn k c) m fun _ => LoggedIn k c :=
  fun w => ⟨(h w).le, fun _ hl => (h w).loggedIn hl⟩

theorem triple_secured {x : Option ConnId} (h : Within (SameSessions k x) m) :
    sessions.Triple (Secured k x) m fun _ => Secured k x :=
  fun w => ⟨(h w).le, fun _ hs => (h w).secured hs⟩

end Places

/-! ## AUTH -/

section Auth

variable (H : Hiredis ω) {k : ℕ} {c : ConnId} {w w' : World (ω × List Exchange)}

/-- Only the session of `c` goes on. -/
theorem Secured.elsewhere {x : Option ConnId} (h : Secured k x w) (hx : ∀ c' ≠ c, some c' ≠ x) {new : List Exchange}
    (hlog : w'.log = w.log ++ new) (horderly : Orderly k w'.log)
    (hauth : ∀ c' ≠ c, authed c' w'.log = authed c' w.log)
    (hconns : ∀ c' ≠ c, w'.conns c' = w.conns c') (hpw : w'.cc.password = w.cc.password)
    (hheap : w'.heap = w.heap) (hnext : w'.nextConn = w.nextConn) :
    ((w'.conns c).queue = [] → Secured k (some c) w') ∧
      ((w'.conns c).err ≠ none → Secured k none w') := by
  have hsince : k ≤ w'.log.length := by
    rw [hlog, List.length_append]
    exact Nat.le_add_right_of_le h.since
  have hpassword : w'.cc.password ≠ none := hpw ▸ h.password
  have hqueues : ∀ c' ≠ c, (w'.conns c').err = none → ∀ q ∈ (w'.conns c').queue,
      q.isAuth = false := fun c' hc => by
    rw [hconns c' hc]
    exact h.queues c' (hx c' hc)
  have hnodes : ∀ n c', (w'.heap n).con = some c' → c' ≠ c → (w'.conns c').err = none →
      authed c' w'.log = true := fun n c' hn hc => by
    rw [hconns c' hc, hauth c' hc]
    rw [hheap] at hn
    exact h.nodes n c' hn (hx c' hc)
  have hlt : ∀ n c', (w'.heap n).con = some c' → c' < w'.nextConn := by
    rw [hheap, hnext]
    exact h.lt
  constructor
  · intro hq
    exact ⟨hsince, hpassword, horderly, fun c' hx => hqueues c' fun hc => hx (congrArg some hc),
      fun n c' hn hx => hnodes n c' hn fun hc => hx (congrArg some hc), hlt, fun c' hx => by
        obtain rfl := Option.some.inj hx
        exact hq⟩
  · intro he
    refine ⟨hsince, hpassword, horderly, fun c' _ => ?_, fun n c' hn _ => ?_, hlt,
      fun c' hx => by cases hx⟩
    · by_cases hc : c' = c
      · exact fun hnone => (he (hc ▸ hnone)).elim
      · exact hqueues c' hc
    · by_cases hc : c' = c
      · exact fun hnone => (he (hc ▸ hnone)).elim
      · exact hnodes n c' hn hc

theorem refusedSince_append {q : Sent} (hk : k ≤ w.log.length)
    (hlog : w'.log = w.log ++ [.append c q]) : w'.refusedSince k ↔ w.refusedSince k := by
  rw [World.refusedSince, hlog, refused_concat hk, World.refusedSince]
  rfl

/-- What an AUTH comes to on a session that has just been opened: it is answered, or the
connection is in error. -/
def AuthOutcome (k : ℕ) (c : ConnId) (q : Sent) (w : World (ω × List Exchange))
    (r : Option Answer) (w' : World (ω × List Exchange)) : Prop :=
  match r with
  | none => Secured k none w' ∧ (w'.conns c).err ≠ none ∧ (w'.refusedSince k → w.refusedSince k)
  | some a => Secured k (some c) w' ∧
      w'.log = w.log ++ [.append c q, .reply c q a.reply.isError]

theorem redisAppendCommand_logged (c : ConnId) (q : Sent) (w : World (ω × List Exchange)) :
    wp (redisAppendCommand H.logged c q) (fun r w' =>
      (w'.cc = w.cc ∧ w'.heap = w.heap ∧ w'.nextConn = w.nextConn) ∧
      match r with
      | .ok => w'.log = w.log ++ [.append c q] ∧ w'.conns =
          Function.update w.conns c { w.conns c with queue := (w.conns c).queue ++ [q] }
      | .err => w'.log = w.log ∧ ∃ f, w'.conns =
          Function.update w.conns c { w.conns c with err := some f }) w := by
  unfold redisAppendCommand
  rw [wp_bind, wp_get, wp_bind, wp_ask]
  cases ha : (H.append w.env.1 (w.peer c) q).1 with
  | some f =>
    have henv : H.logged.append w.env (w.peer c) q =
        (some f, (H.append w.env.1 (w.peer c) q).2, w.env.2) := by
      simp only [Hiredis.logged, ha]
      rfl
    rw [henv]
    exact ⟨⟨rfl, rfl, rfl⟩, rfl, f, rfl⟩
  | none =>
    have henv : H.logged.append w.env (w.peer c) q =
        (none, (H.append w.env.1 (w.peer c) q).2, w.env.2 ++ [.append c q]) := by
      simp only [Hiredis.logged, ha]
      rfl
    rw [henv]
    exact ⟨⟨rfl, rfl, rfl⟩, rfl, rfl⟩

theorem redisGetReply_logged {c : ConnId} {q : Sent} (awaited : Sent)
    {w : World (ω × List Exchange)} (hqueue : (w.conns c).queue = [q]) :
    wp (redisGetReply H.logged c awaited) (fun r w' =>
      (w'.cc = w.cc ∧ w'.heap = w.heap ∧ w'.nextConn = w.nextConn ∧
        ∀ c' ≠ c, w'.conns c' = w.conns c') ∧
      match r with
      | none => w'.log = w.log ∧ (w'.conns c).err ≠ none
      | some a => w'.log = w.log ++ [.reply c q a.reply.isError] ∧ (w'.conns c).queue = []) w := by
  unfold redisGetReply
  rw [wp_bind, wp_get]
  by_cases herr : (w.conns c).err.isSome = true
  · rw [if_pos herr]
    exact ⟨⟨rfl, rfl, rfl, fun _ _ => rfl⟩, rfl, Option.isSome_iff_ne_none.mp herr⟩
  · rw [if_neg herr, hqueue]
    dsimp only
    rw [wp_bind, wp_ask]
    cases hr : (H.reply w.env.1 (w.peer c) q).1 with
    | error f =>
      have henv : H.logged.reply w.env (w.peer c) q =
          (.error f, (H.reply w.env.1 (w.peer c) q).2, w.env.2) := by
        simp only [Hiredis.logged, hr]
      rw [henv]
      refine ⟨⟨rfl, rfl, rfl, fun c' hc => Function.update_of_ne hc _ _⟩, rfl, ?_⟩
      show (Function.update w.conns c _ c).err ≠ none
      rw [Function.update_self]
      exact Option.some_ne_none f
    | ok a =>
      have henv : H.logged.reply w.env (w.peer c) q =
          (.ok a, (H.reply w.env.1 (w.peer c) q).2, w.env.2 ++ [.reply c q a.isError]) := by
        simp only [Hiredis.logged, hr]
        rfl
      rw [henv]
      refine ⟨⟨rfl, rfl, rfl, fun c' hc => Function.update_of_ne hc _ _⟩, rfl, ?_⟩
      show (Function.update w.conns c _ c).queue = []
      rw [Function.update_self]

theorem redisCommand_auth (c : ConnId) (user : Option Bytes) (pw : Bytes)
    (w : World (ω × List Exchange)) :
    wp (redisCommand H.logged c (.auth user pw)) (fun r w' => w.log <+: w'.log ∧
      (Secured k (some c) w → AuthOutcome k c (.auth user pw) w r w')) w := by
  have hx : ∀ c' ≠ c, some c' ≠ some c := fun _ hc hx => hc (Option.some.inj hx)
  unfold redisCommand
  rw [wp_bind]
  refine wp_mono (redisAppendCommand_logged H c (.auth user pw) w) fun r w₁ h₁ => ?_
  obtain ⟨⟨hcc, hheap, hnext⟩, h₁⟩ := h₁
  cases r with
  | err =>
    obtain ⟨hlog, f, hconns⟩ := h₁
    refine ⟨hlog ▸ List.prefix_rfl, fun hs => ?_⟩
    have herr : (w₁.conns c).err ≠ none := by
      rw [hconns, Function.update_self]
      exact Option.some_ne_none f
    have hnil : w₁.log = w.log ++ [] := by rw [hlog, List.append_nil]
    refine ⟨(hs.elsewhere hx hnil (hlog ▸ hs.orderly)
      (fun _ _ => by rw [hlog]) (fun c' hc => by rw [hconns, Function.update_of_ne hc])
      (by rw [hcc]) hheap hnext).2 herr, herr, fun hr => ?_⟩
    have hr₁ : w₁.refusedSince k := hr
    rwa [World.refusedSince, hlog] at hr₁
  | ok =>
    obtain ⟨hlog, hconns⟩ := h₁
    have hother : ∀ c' ≠ c, w₁.conns c' = w.conns c' := fun c' hc => by
      rw [hconns, Function.update_of_ne hc]
    have hle₁ : w.log <+: w₁.log := ⟨_, hlog.symm⟩
    refine ⟨hle₁.trans (sessions_redisGetReply (k := k) (x := none) H c _ w₁).le, fun hs => ?_⟩
    have hqueue : (w₁.conns c).queue = [.auth user pw] := by
      rw [hconns, Function.update_self, hs.fresh c rfl]
      rfl
    have hord₁ : Orderly k w₁.log := by
      rw [hlog]
      exact hs.orderly.concat fun c' q' he hq' => by
        obtain ⟨-, rfl⟩ := Exchange.append.inj he
        cases hq'
    have h₂ := redisGetReply_logged H (.auth user pw) hqueue
    dsimp only
    rw [wp] at h₂
    generalize redisGetReply H.logged c (.auth user pw) w₁ = p at h₂ ⊢
    obtain ⟨r, w₂⟩ := p
    obtain ⟨⟨hcc₂, hheap₂, hnext₂, hother₂⟩, h₂⟩ := h₂
    cases r with
    | none =>
      obtain ⟨hlog₂, herr⟩ := h₂
      have hlog₂' : w₂.log = w.log ++ [.append c (.auth user pw)] := hlog₂.trans hlog
      refine ⟨(hs.elsewhere hx hlog₂' (hlog₂ ▸ hord₁) (fun c' _ => ?_)
        (fun c' hc => (hother₂ c' hc).trans (hother c' hc)) (by rw [hcc₂, hcc])
        (hheap₂.trans hheap) (hnext₂.trans hnext)).2 herr, herr,
        (refusedSince_append hs.since hlog₂').mp⟩
      rw [hlog₂', authed_concat]
      rfl
    | some a =>
      obtain ⟨hlog₂, hnil⟩ := h₂
      have hlog₂' : w₂.log = w.log ++
          [.append c (.auth user pw), .reply c (.auth user pw) a.reply.isError] := by
        rw [hlog₂, hlog, List.append_assoc]
        rfl
      refine ⟨(hs.elsewhere hx hlog₂' ?_ (fun c' hc => ?_)
        (fun c' hc => (hother₂ c' hc).trans (hother c' hc)) (by rw [hcc₂, hcc])
        (hheap₂.trans hheap) (hnext₂.trans hnext)).1 hnil, hlog₂'⟩
      · rw [hlog₂]
        exact hord₁.concat fun c' q' he => by cases he
      · rw [hlog₂, authed_concat, hlog, authed_concat]
        simp [authStep, Ne.symm hc]

/-- AUTH was accepted, it was rejected, or the connection is in error. -/
inductive Login (k : ℕ) (c : ConnId) (w w' : World (ω × List Exchange)) : Status → Prop
  | accepted (user : Option Bytes) (pw : Bytes) (secured : Secured k (some c) w')
      (log : w'.log = w.log ++ [.append c (.auth user pw), .reply c (.auth user pw) false]) :
      Login k c w w' .ok
  | rejected (user : Option Bytes) (pw : Bytes) (secured : Secured k (some c) w')
      (log : w'.log = w.log ++ [.append c (.auth user pw), .reply c (.auth user pw) true])
      (err : w'.Failed) : Login k c w w' .err
  | failed (secured : Secured k none w') (conn : (w'.conns c).err ≠ none)
      (unrefused : w'.refusedSince k → w.refusedSince k) (err : w'.Failed) :
      Login k c w w' .err

theorem authenticate_login (c : ConnId) (w : World (ω × List Exchange)) :
    wp (authenticate H.logged c) (fun r w' => w.log <+: w'.log ∧
      (Secured k (some c) w → Login k c w w' r)) w := by
  unfold authenticate
  rw [wp_bind, wp_get]
  cases hpw : w.cc.password with
  | none => exact ⟨List.prefix_rfl, fun hs => (hs.password hpw).elim⟩
  | some pw =>
    dsimp only
    rw [wp_bind]
    refine wp_mono (redisCommand_auth (k := k) H c w.cc.username pw w) fun r w₁ h₁ => ?_
    obtain ⟨hle, h₁⟩ := h₁
    have hset : ∀ type str, Within (SameSessions k none)
        (setError type str : Prog (ω × List Exchange) Unit) := fun _ _ =>
      Program.Within.sameSessions (ErrorClosed.setError _ _)
    have hset' : ∀ type str, Within (SameSessions k (some c))
        (setError type str : Prog (ω × List Exchange) Unit) := fun _ _ =>
      Program.Within.sameSessions (ErrorClosed.setError _ _)
    cases r with
    | none =>
      refine ⟨hle, fun hs => ?_⟩
      obtain ⟨hs₁, herr, hr⟩ := h₁ hs
      exact .failed ((hset _ _ w₁).secured hs₁) herr hr (Option.some_ne_none _)
    | some a =>
      obtain ⟨answers, reply⟩ := a
      cases reply with
      | error str =>
        refine ⟨hle, fun hs => ?_⟩
        obtain ⟨hs₁, hlog⟩ := h₁ hs
        exact .rejected _ _ ((hset' _ _ w₁).secured hs₁) hlog (Option.some_ne_none _)
      | _ =>
        refine ⟨hle, fun hs => ?_⟩
        obtain ⟨hs₁, hlog⟩ := h₁ hs
        exact .accepted _ _ hs₁ hlog

theorem authed_of_accepted {user : Option Bytes} {pw : Bytes}
    (hlog : w'.log = w.log ++ [.append c (.auth user pw), .reply c (.auth user pw) false]) :
    authed c w'.log = true := by
  simp [hlog, authed, authStep, Sent.isAuth]

theorem unrefused_of_accepted {user : Option Bytes} {pw : Bytes} (hk : k ≤ w.log.length)
    (hlog : w'.log = w.log ++ [.append c (.auth user pw), .reply c (.auth user pw) false]) :
    ¬ w'.refusedSince k := by
  rw [World.refusedSince, hlog, List.drop_append_of_le_length hk]
  simp [refused, refuseStep, Sent.isAuth]

/-- On a connection that no node has, a rejected AUTH does no harm. -/
theorem triple_authenticate (c : ConnId) :
    sessions.Triple (Lone k c) (authenticate H.logged c) fun r w' =>
      (r = .ok → LoggedIn k c w' ∧ c < w'.nextConn) ∧ (r = .err → Excused k w') := by
  intro w
  have hcalm := within_authenticate (R := Calm) H.logged c w
  obtain ⟨hle, hlogin⟩ := authenticate_login (k := k) H c w
  refine ⟨hle, fun _ hl => ?_⟩
  have hunheld : ∀ n, ((authenticate H.logged c w).2.heap n).con ≠ some c :=
    fun n hn => hl.unheld n (hcalm.conOld n c hn)
  have hlt := Nat.lt_of_lt_of_le hl.lt hcalm.nextConn
  have hin := hlogin hl.secured
  generalize (authenticate H.logged c w).1 = r at hin ⊢
  cases hin with
  | accepted user pw hs hlog =>
    refine ⟨fun _ => ⟨⟨⟨Lone.whole ⟨hs, hlt, hunheld⟩, ?_⟩, authed_of_accepted hlog⟩, hlt⟩,
      fun h => by cases h⟩
    exact unrefused_of_accepted hl.secured.since hlog
  | rejected user pw hs hlog herr =>
    exact ⟨fun h => (by cases h), fun _ => Secured.excused (Lone.whole ⟨hs, hlt, hunheld⟩) herr⟩
  | failed hs hconn hr herr => exact ⟨fun h => (by cases h), fun _ => hs.excused herr⟩

end Auth
