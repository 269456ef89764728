/-
# Handing over connections

`cluster_nodes_swap_ctx` exchanges the connections of a new node and of the old node with the
same address.  A new node has none yet, so it takes over what the old node has, and the data of
an asynchronous connection names the new node from then on.
-/
import HiredisCluster.Filling
import HiredisCluster.Releasing

open Program

variable {ω : Type}

/-- Node `t` takes over the connections of node `f`. -/
def World.handOver (w : World ω) (f t : NodeId) : World ω :=
  { w with
    heap := Function.update
      (Function.update w.heap f { w.heap f with con := none, acon := none }) t
      { w.heap t with con := (w.heap f).con, acon := (w.heap f).acon }
    aconns := fun a =>
      if (w.heap f).acon = some a then { w.aconns a with data := some t } else w.aconns a }

theorem relinkAsync_eq (acon : Option AConnId) (n : NodeId) (w : World ω) :
    relinkAsync acon n w = ((), { w with
      aconns := fun a =>
        if acon = some a then { w.aconns a with data := some n } else w.aconns a }) := by
  cases acon with
  | none =>
    show ((), w) = _
    simp
  | some a =>
    have haconns : Function.update w.aconns a { w.aconns a with data := some n } =
        fun a' => if some a = some a' then { w.aconns a' with data := some n }
          else w.aconns a' := by
      funext a'
      rcases eq_or_ne a' a with rfl | hne
      · simp
      · simp [hne, hne.symm]
    exact congrArg (fun aconns => ((), { w with aconns })) haconns

theorem swapNodeCtx_bare {w : World ω} {f t : NodeId} (hne : t ≠ f) (ht : w.Bare t) :
    swapNodeCtx f t w = ((), w.handOver f t) := by
  obtain ⟨hcon, hacon⟩ := ht
  have hf : { w.heap f with
      con := if (w.heap f).con.isSome then (w.heap t).con else (w.heap f).con
      acon := if (w.heap f).acon.isSome then (w.heap t).acon else (w.heap f).acon } =
      { w.heap f with con := none, acon := none } := by
    rw [hcon, hacon]
    cases hc : (w.heap f).con <;> cases ha : (w.heap f).acon <;> rfl
  have htn : { w.heap t with
      con := if (w.heap f).con.isSome then (w.heap f).con else (w.heap t).con
      acon := if (w.heap f).acon.isSome then (w.heap f).acon else (w.heap t).acon } =
      { w.heap t with con := (w.heap f).con, acon := (w.heap f).acon } := by
    rw [hcon, hacon]
    cases hc : (w.heap f).con <;> cases ha : (w.heap f).acon <;> rfl
  show wp (swapNodeCtx f t) (fun _ w' => ((), w') = ((), w.handOver f t)) w
  unfold swapNodeCtx modifyNode
  rw [wp_bind, wp_get, wp_bind, wp_modify, wp_bind, wp_modify]
  dsimp only
  rw [Function.update_of_ne hne, hf, htn]
  split
  · show (relinkAsync (w.heap t).acon f (relinkAsync (w.heap f).acon t _).2) = _
    rw [relinkAsync_eq, relinkAsync_eq, hacon]
    simp [World.handOver]
  · rename_i hnone
    have hnone : (w.heap f).acon = none := by simpa using hnone
    rw [wp_pure, World.handOver, hnone]
    simp

/-- The old node with the address of node `t`. -/
def World.mate (w : World ω) (old : NodeDict) (t : NodeId) : Option NodeId :=
  old.find (w.heap t).addr

/-- The nodes `ts` can take over from `old`: they are new, without connections and with
different addresses, and what they take belongs to one old node. -/
structure Heirs (old : NodeDict) (ts : List NodeId) (w : World ω) : Prop where
  nodup : ts.Nodup
  bare : ∀ t ∈ ts, w.Bare t
  new : ∀ t ∈ ts, t ∉ old.vals
  addr : ∀ t ∈ ts, ∀ t' ∈ ts, (w.heap t).addr = (w.heap t').addr → t = t'
  filed : old.vals.Nodup
  owner : ∀ f ∈ old.vals, ∀ f' ∈ old.vals, ∀ a, (w.heap f).acon = some a →
    (w.heap f').acon = some a → f = f'

/-- **What the exchange does.** -/
structure Handover (old : NodeDict) (ts : List NodeId) (w w' : World ω) : Prop where
  takes : ∀ t ∈ ts, ∀ f, w.mate old t = some f →
    w'.heap t = { w.heap t with con := (w.heap f).con, acon := (w.heap f).acon } ∧
    w'.heap f = { w.heap f with con := none, acon := none }
  other : ∀ n, (n ∈ ts → w.mate old n = none) → (∀ t ∈ ts, w.mate old t ≠ some n) →
    w'.heap n = w.heap n
  points : ∀ t ∈ ts, ∀ f a, w.mate old t = some f → (w.heap f).acon = some a →
    w'.aconns a = { w.aconns a with data := some t }
  keeps : ∀ a, (∀ t ∈ ts, ∀ f, w.mate old t = some f → (w.heap f).acon ≠ some a) →
    w'.aconns a = w.aconns a
  rest : w' = { w with heap := w'.heap, aconns := w'.aconns }

theorem World.mate_mem {w : World ω} {old : NodeDict} {t f : NodeId} (h : w.mate old t = some f) :
    f ∈ old.vals :=
  (old.mem_vals_iff f).mpr ⟨_, h⟩

section Outcome

variable {old : NodeDict} {ts : List NodeId} {w w' : World ω} (h : Handover old ts w w')

include h

theorem Handover.slavesOf_eq (n : NodeId) : w'.slavesOf n = w.slavesOf n := by
  have hslaves : (w'.heap n).slaves = (w.heap n).slaves := by
    by_cases hold : ∃ t ∈ ts, w.mate old t = some n
    · obtain ⟨t, ht, hf⟩ := hold
      rw [(h.takes t ht n hf).2]
    · by_cases hheir : n ∈ ts ∧ ∃ f, w.mate old n = some f
      · obtain ⟨hn, f, hf⟩ := hheir
        rw [(h.takes n hn f hf).1]
      · rw [h.other n (fun hn => Option.eq_none_iff_forall_ne_some.mpr fun f hf => hheir ⟨hn, f, hf⟩)
          fun t ht hf => hold ⟨t, ht, hf⟩]
  rw [World.slavesOf, hslaves]
  rfl

/-- A node with an asynchronous connection took it over, or kept it. -/
theorem Handover.acon_cases {n : NodeId} {a : AConnId} (ha : (w'.heap n).acon = some a) :
    (∃ f, n ∈ ts ∧ w.mate old n = some f ∧ (w.heap f).acon = some a) ∨
      (∀ t ∈ ts, w.mate old t ≠ some n) ∧ (w.heap n).acon = some a := by
  by_cases hold : ∃ t ∈ ts, w.mate old t = some n
  · obtain ⟨t, ht, hf⟩ := hold
    rw [(h.takes t ht n hf).2] at ha
    cases ha
  · by_cases hheir : n ∈ ts ∧ ∃ f, w.mate old n = some f
    · obtain ⟨hn, f, hf⟩ := hheir
      rw [(h.takes n hn f hf).1] at ha
      exact Or.inl ⟨f, hn, hf, ha⟩
    · have hno : ∀ t ∈ ts, w.mate old t ≠ some n := fun t ht hf => hold ⟨t, ht, hf⟩
      rw [h.other n (fun hn => Option.eq_none_iff_forall_ne_some.mpr fun f hf => hheir ⟨hn, f, hf⟩)
        hno] at ha
      exact Or.inr ⟨hno, ha⟩

/-- A connection points to the heir of its node, or stays as it was. -/
theorem Handover.aconn_cases (a : AConnId) :
    (∃ t ∈ ts, ∃ f, w.mate old t = some f ∧ (w.heap f).acon = some a ∧
        w'.aconns a = { w.aconns a with data := some t }) ∨
      (∀ t ∈ ts, ∀ f, w.mate old t = some f → (w.heap f).acon ≠ some a) ∧
        w'.aconns a = w.aconns a := by
  by_cases hmoved : ∃ t ∈ ts, ∃ f, w.mate old t = some f ∧ (w.heap f).acon = some a
  · obtain ⟨t, ht, f, hf, ha⟩ := hmoved
    exact Or.inl ⟨t, ht, f, hf, ha, h.points t ht f a hf ha⟩
  · have hno : ∀ t ∈ ts, ∀ f, w.mate old t = some f → (w.heap f).acon ≠ some a :=
      fun t ht f hf ha => hmoved ⟨t, ht, f, hf, ha⟩
    exact Or.inr ⟨hno, h.keeps a hno⟩

end Outcome

section Step

variable {old : NodeDict} {t f : NodeId} {ts : List NodeId} {w w' : World ω}

theorem Heirs.tail (h : Heirs old (t :: ts) w) : Heirs old ts w where
  nodup := (List.nodup_cons.mp h.nodup).2
  bare n hn := h.bare n (List.mem_cons_of_mem _ hn)
  new n hn := h.new n (List.mem_cons_of_mem _ hn)
  addr n hn n' hn' := h.addr n (List.mem_cons_of_mem _ hn) n' (List.mem_cons_of_mem _ hn')
  filed := h.filed
  owner := h.owner

variable (h : Heirs old (t :: ts) w)

include h

/-- Two new nodes take over from different old nodes. -/
theorem Heirs.mate_ne (hf : w.mate old t = some f) {t' : NodeId} (ht' : t' ∈ ts) :
    w.mate old t' ≠ some f := by
  intro hf'
  have heq := h.addr t List.mem_cons_self t' (List.mem_cons_of_mem _ ht')
    (old.find_inj h.filed hf hf')
  exact (List.nodup_cons.mp h.nodup).1 (heq ▸ ht')

variable (hf : w.mate old t = some f)

include hf

theorem Heirs.ne : t ≠ f := fun heq => h.new t List.mem_cons_self (heq ▸ World.mate_mem hf)

omit h hf in
theorem World.handOver_heap_heir : (w.handOver f t).heap t =
    { w.heap t with con := (w.heap f).con, acon := (w.heap f).acon } :=
  Function.update_self _ _ _

theorem World.handOver_heap_old :
    (w.handOver f t).heap f = { w.heap f with con := none, acon := none } := by
  show Function.update _ _ _ f = _
  rw [Function.update_of_ne (h.ne hf).symm, Function.update_self]

omit h hf in
theorem World.handOver_heap_other {n : NodeId} (hnf : n ≠ f) (hnt : n ≠ t) :
    (w.handOver f t).heap n = w.heap n := by
  show Function.update _ _ _ n = _
  rw [Function.update_of_ne hnt, Function.update_of_ne hnf]

theorem World.handOver_addr (n : NodeId) : ((w.handOver f t).heap n).addr = (w.heap n).addr := by
  rcases eq_or_ne n t with rfl | hnt
  · rw [World.handOver_heap_heir]
  · rcases eq_or_ne n f with rfl | hnf
    · rw [World.handOver_heap_old h hf]
    · rw [World.handOver_heap_other hnf hnt]

theorem Heirs.handOver : Heirs old ts (w.handOver f t) where
  nodup := h.tail.nodup
  bare n hn := by
    have hnt : n ≠ t := fun heq => (List.nodup_cons.mp h.nodup).1 (heq ▸ hn)
    have hnf : n ≠ f := fun heq => h.tail.new n hn (heq ▸ World.mate_mem hf)
    rw [World.Bare, World.handOver_heap_other hnf hnt]
    exact h.tail.bare n hn
  new := h.tail.new
  addr n hn n' hn' := by
    rw [World.handOver_addr h hf, World.handOver_addr h hf]
    exact h.tail.addr n hn n' hn'
  filed := h.filed
  owner g hg g' hg' a ha ha' := by
    have hold : ∀ m ∈ old.vals, ((w.handOver f t).heap m).acon = some a →
        (w.heap m).acon = some a := by
      intro m hm hma
      have hmt : m ≠ t := fun heq => h.new t List.mem_cons_self (heq ▸ hm)
      rcases eq_or_ne m f with rfl | hmf
      · rw [World.handOver_heap_old h hf] at hma
        cases hma
      · rwa [World.handOver_heap_other hmf hmt] at hma
    exact h.owner g hg g' hg' a (hold g hg ha) (hold g' hg' ha')

theorem World.mate_handOver (n : NodeId) : (w.handOver f t).mate old n = w.mate old n := by
  unfold World.mate
  rw [World.handOver_addr h hf]

/-- One node more takes over. -/
theorem Handover.cons (hs : Handover old ts (w.handOver f t) w') :
    Handover old (t :: ts) w w' := by
  have htail : t ∉ ts := (List.nodup_cons.mp h.nodup).1
  have hmate := World.mate_handOver h hf
  have hkept : ∀ n ∈ ts, (w.handOver f t).heap n = w.heap n := fun n hn =>
    World.handOver_heap_other (fun heq => h.tail.new n hn (heq ▸ World.mate_mem hf))
      fun heq => htail (heq ▸ hn)
  have hheir : w'.heap t = (w.handOver f t).heap t := by
    refine hs.other t (fun ht => absurd ht htail) fun n hn => ?_
    rw [hmate]
    exact fun hm => h.new t List.mem_cons_self (World.mate_mem hm)
  have hold : w'.heap f = (w.handOver f t).heap f := by
    refine hs.other f (fun hft => absurd (World.mate_mem hf) (h.tail.new f hft)) fun n hn => ?_
    rw [hmate]
    exact h.mate_ne hf hn
  -- what another heir finds is as it was
  have hmates : ∀ n ∈ ts, ∀ g, w.mate old n = some g → (w.handOver f t).heap g = w.heap g :=
    fun n hn g hg => World.handOver_heap_other (fun heq => h.mate_ne hf hn (heq ▸ hg))
      fun heq => h.new t List.mem_cons_self (heq ▸ World.mate_mem hg)
  have hnotmine : ∀ n ∈ ts, ∀ g a, w.mate old n = some g → (w.heap g).acon = some a →
      (w.heap f).acon ≠ some a := by
    intro n hn g a hg hga hfa
    obtain rfl := h.owner f (World.mate_mem hf) g (World.mate_mem hg) a hfa hga
    exact h.mate_ne hf hn hg
  constructor
  · intro n hn g hg
    rcases List.mem_cons.mp hn with rfl | hn
    · obtain rfl := Option.some.inj (hf.symm.trans hg)
      exact ⟨hheir.trans World.handOver_heap_heir, hold.trans (World.handOver_heap_old h hf)⟩
    · have htakes := hs.takes n hn g ((hmate n).trans hg)
      rwa [hkept n hn, hmates n hn g hg] at htakes
  · intro n hnone hno
    have hnt : n ≠ t := by
      rintro rfl
      cases hf.symm.trans (hnone List.mem_cons_self)
    have hnf : n ≠ f := by
      rintro rfl
      exact hno t List.mem_cons_self hf
    rw [← World.handOver_heap_other (w := w) hnf hnt]
    refine hs.other n (fun hn => ?_) fun m hm => ?_
    · rw [hmate]
      exact hnone (List.mem_cons_of_mem _ hn)
    · rw [hmate]
      exact hno m (List.mem_cons_of_mem _ hm)
  · intro n hn g a hg ha
    rcases List.mem_cons.mp hn with rfl | hn
    · obtain rfl := Option.some.inj (hf.symm.trans hg)
      rw [hs.keeps a fun m hm g' hg' ha' => ?_]
      · exact if_pos ha
      · rw [hmate] at hg'
        rw [hmates m hm g' hg'] at ha'
        exact hnotmine m hm g' a hg' ha' ha
    · rw [hs.points n hn g a ((hmate n).trans hg) (by rwa [hmates n hn g hg])]
      have hsame : (w.handOver f t).aconns a = w.aconns a := if_neg (hnotmine n hn g a hg ha)
      rw [hsame]
  · intro a hno
    have hsame : (w.handOver f t).aconns a = w.aconns a := if_neg (hno t List.mem_cons_self f hf)
    rw [← hsame]
    refine hs.keeps a fun n hn g hg => ?_
    rw [hmate] at hg
    rw [hmates n hn g hg]
    exact hno n (List.mem_cons_of_mem _ hn) g hg
  · exact hs.rest

end Step

/-- **The exchange** lets every new node take over. -/
theorem clusterNodesSwapCtx_handover {old : NodeDict} (ts : List NodeId) : ∀ {w : World ω},
    Heirs old ts w → wp (clusterNodesSwapCtx old ts) (fun _ w' => Handover old ts w w') w := by
  induction ts with
  | nil =>
    exact fun {w} _ => ⟨by simp, fun _ _ _ => rfl, by simp, fun _ _ => rfl, rfl⟩
  | cons t ts ih =>
    intro w h
    unfold clusterNodesSwapCtx
    rw [wp_bind, wp_get]
    cases hf : w.mate old t with
    | none =>
      have hs := ih h.tail
      rw [show old.find (w.heap t).addr = none from hf]
      refine wp_mono hs fun _ w' hs => ⟨?_, fun n hnone hno => ?_, ?_, fun a hno => ?_, hs.rest⟩
      · intro n hn g hg
        rcases List.mem_cons.mp hn with rfl | hn
        · cases hf.symm.trans hg
        · exact hs.takes n hn g hg
      · exact hs.other n (fun hn => hnone (List.mem_cons_of_mem _ hn))
          fun m hm => hno m (List.mem_cons_of_mem _ hm)
      · intro n hn g a hg
        rcases List.mem_cons.mp hn with rfl | hn
        · cases hf.symm.trans hg
        · exact hs.points n hn g a hg
      · exact hs.keeps a fun n hn => hno n (List.mem_cons_of_mem _ hn)
    | some f =>
      rw [show old.find (w.heap t).addr = some f from hf]
      dsimp only
      have hstep : wp (swapNodeCtx f t) (fun _ w₁ => w₁ = w.handOver f t) w :=
        congrArg Prod.snd (swapNodeCtx_bare (h.ne hf) (h.bare t List.mem_cons_self))
      rw [wp_bind]
      refine wp_mono hstep fun _ w₁ heq => ?_
      rw [heq]
      exact wp_mono (ih (h.handOver hf)) fun _ w' hs => hs.cons h hf
