/-
# The linked list is a list

`HoldsList μ list m l` says that the objects of the `hilist` at `list` are those of the list `l`, of
which each element knows where its node is: the pointers form a ring with the elements of `l`.  Each
function of `adlist.c` has one lemma: from such a memory it comes to an end without an invalid
access, and what it leaves are the objects of the list that comes out.

`Fits` says that the objects hold what two functions say, and an assignment of the code changes
one of the functions at one place; that they are a ring again is a fact about functions
(`LinkRing.insert`, `LinkRing.erase`).
-/
import HiredisCluster.Adlist
import HiredisCluster.Lib.Ring

namespace Adlist

open Procedure

variable {α β : Type}

/-! ## Objects that fit two functions -/

/-- The objects of a list with the elements `l` hold the links `next` and `prev`. -/
structure Fits (μ : Memory (ListObject α)) (list : ℕ) (m : ListMethods α) (len : ℕ)
    (next prev : Option ℕ → Option ℕ) (l : List (ℕ × α)) : Prop where
  list : μ.cells list = some (.list ⟨next none, prev none, len, m⟩)
  node : ∀ e ∈ l, μ.cells e.1 = some (.node ⟨prev (some e.1), next (some e.1), e.2⟩)

/-- Where the nodes are. -/
def nodesOf (l : List (ℕ × α)) : List ℕ := l.map Prod.fst

@[simp] theorem nodesOf_nil : nodesOf ([] : List (ℕ × α)) = [] := rfl

@[simp] theorem nodesOf_cons (e : ℕ × α) (l : List (ℕ × α)) : nodesOf (e :: l) = e.1 :: nodesOf l := rfl

@[simp] theorem nodesOf_append (l l' : List (ℕ × α)) : nodesOf (l ++ l') = nodesOf l ++ nodesOf l' :=
  List.map_append

theorem nodesOf_perm {l l' : List (ℕ × α)} (h : l.Perm l') : (nodesOf l).Perm (nodesOf l') := h.map _

/-- **The `hilist` at `list` is the list `l`.** -/
structure HoldsList (μ : Memory (ListObject α)) (list : ℕ) (m : ListMethods α) (l : List (ℕ × α)) :
    Prop where
  nodup : (nodesOf l).Nodup
  fits : ∃ next prev, Fits μ list m l.length next prev l ∧ LinkRing next prev (nodesOf l)

/-- Since `μ₀` only objects of the list have been written to, and they now fit. -/
structure Edits (μ₀ μ : Memory (ListObject α)) (list : ℕ) (m : ListMethods α) (len : ℕ)
    (next prev : Option ℕ → Option ℕ) (l : List (ℕ × α)) : Prop where
  fits : Fits μ list m len next prev l
  swaps : Swaps (list :: nodesOf l) (list :: nodesOf l) μ₀ μ
  next : μ.next = μ₀.next

section Fits

variable {μ₀ μ : Memory (ListObject α)} {list len : ℕ} {m : ListMethods α}
  {next prev : Option ℕ → Option ℕ} {l : List (ℕ × α)} {Q : β → Memory (ListObject α) → Prop}

theorem Fits.edits (h : Fits μ list m len next prev l) : Edits μ μ list m len next prev l :=
  ⟨h, Swaps.refl _ μ, rfl⟩

theorem Fits.ne_list (h : Fits μ list m len next prev l) {e : ℕ × α} (he : e ∈ l) : e.1 ≠ list :=
  Memory.ne_of_cells (h.node e he) h.list (by simp)

/-- A node has one value. -/
theorem Fits.eq_of_fst (h : Fits μ list m len next prev l) {e e' : ℕ × α} (he : e ∈ l) (he' : e' ∈ l)
    (heq : e.1 = e'.1) : e = e' := by
  have hcell := h.node e he
  rw [heq, h.node e' he', Option.some.injEq, ListObject.node.injEq, ListNode.mk.injEq] at hcell
  exact Prod.ext heq hcell.2.2.symm

theorem meets_loadNode_bind {p : ℕ} {n : ListNode α} {f : ListNode α → ListRoutine α β}
    (hp : μ.cells p = some (.node n)) (h : Meets (f n) μ Q) : Meets (loadNode p >>= f) μ Q := by
  apply Meets.bind (P := fun n' μ' => n' = n ∧ μ' = μ)
  · apply meets_load_bind hp
    exact meets_pure ⟨rfl, rfl⟩
  · rintro n' μ' ⟨rfl, rfl⟩
    exact h

theorem meets_loadList_bind {p : ℕ} {n : HiList α} {f : HiList α → ListRoutine α β}
    (hp : μ.cells p = some (.list n)) (h : Meets (f n) μ Q) : Meets (loadList p >>= f) μ Q := by
  apply Meets.bind (P := fun n' μ' => n' = n ∧ μ' = μ)
  · apply meets_load_bind hp
    exact meets_pure ⟨rfl, rfl⟩
  · rintro n' μ' ⟨rfl, rfl⟩
    exact h

/-- An object of the list is written to. -/
theorem Edits.set (h : Edits μ₀ μ list m len next prev l) {p : ℕ} {v : ListObject α}
    (hp : μ.cells p ≠ none) (hin : p ∈ list :: nodesOf l) {len' : ℕ}
    {next' prev' : Option ℕ → Option ℕ} (hfits : Fits (μ.set p v hp) list m len' next' prev' l) :
    Edits μ₀ (μ.set p v hp) list m len' next' prev' l :=
  ⟨hfits, h.swaps.trans (swaps_set hp hin), h.next⟩

/-- The header is written to. -/
theorem Edits.setList (h : Edits μ₀ μ list m len next prev l) (hp : μ.cells list ≠ none) (len' : ℕ)
    (next' prev' : Option ℕ → Option ℕ) (hnext : ∀ p : ℕ, next' (some p) = next (some p))
    (hprev : ∀ p : ℕ, prev' (some p) = prev (some p)) :
    Edits μ₀ (μ.set list (.list ⟨next' none, prev' none, len', m⟩) hp) list m len' next' prev' l := by
  apply h.set hp List.mem_cons_self
  constructor
  · exact Memory.cells_set_self _ _
  · intro e he
    rw [Memory.cells_set_of_ne _ _ (h.fits.ne_list he), h.fits.node e he, hnext, hprev]

/-- A node is written to. -/
theorem Edits.setNode (h : Edits μ₀ μ list m len next prev l) {e : ℕ × α} (he : e ∈ l)
    (hp : μ.cells e.1 ≠ none) {x y : Option ℕ} :
    Edits μ₀ (μ.set e.1 (.node ⟨x, y, e.2⟩) hp) list m len (Function.update next (some e.1) y)
      (Function.update prev (some e.1) x) l := by
  apply h.set hp (List.mem_cons_of_mem _ (List.mem_map_of_mem he))
  constructor
  · rw [Memory.cells_set_of_ne _ _ (h.fits.ne_list he).symm, h.fits.list,
      Function.update_of_ne (by simp), Function.update_of_ne (by simp)]
  · intro e' he'
    by_cases heq : e'.1 = e.1
    · obtain rfl := h.fits.eq_of_fst he' he heq
      rw [Memory.cells_set_self, Function.update_self, Function.update_self]
    · have hne : some e'.1 ≠ some e.1 := fun hcon => heq (Option.some.inj hcon)
      rw [Memory.cells_set_of_ne _ _ heq, h.fits.node e' he', Function.update_of_ne hne,
        Function.update_of_ne hne]

theorem meets_notNull_bind {p : ℕ} {f : ℕ → ListRoutine α β} (h : Meets (f p) μ Q) :
    Meets (notNull (some p) >>= f) μ Q := by
  apply Meets.bind (P := fun p' μ' => p' = p ∧ μ' = μ)
  · exact meets_pure ⟨rfl, rfl⟩
  · rintro p' μ' ⟨rfl, rfl⟩
    exact h

/-! Each assignment changes one of the functions at one place. -/

theorem meets_setNext_bind (h : Edits μ₀ μ list m len next prev l) {e : ℕ × α} (he : e ∈ l)
    {x : Option ℕ} {f : Unit → ListRoutine α β}
    (hf : ∀ μ', Edits μ₀ μ' list m len (Function.update next (some e.1) x) prev l → Meets (f ()) μ' Q) :
    Meets (setNext e.1 x >>= f) μ Q := by
  have hcell := h.fits.node e he
  have hlive : μ.cells e.1 ≠ none := by simp [hcell]
  unfold setNext
  apply Meets.bind (P := fun _ μ' => Edits μ₀ μ' list m len (Function.update next (some e.1) x) prev l)
  · apply meets_loadNode_bind hcell
    refine ⟨(), _, dif_pos hlive, ?_⟩
    have hset := h.setNode he hlive (x := prev (some e.1)) (y := x)
    rwa [Function.update_eq_self] at hset
  · exact fun _ μ' h' => hf μ' h'

theorem meets_setPrev_bind (h : Edits μ₀ μ list m len next prev l) {e : ℕ × α} (he : e ∈ l)
    {x : Option ℕ} {f : Unit → ListRoutine α β}
    (hf : ∀ μ', Edits μ₀ μ' list m len next (Function.update prev (some e.1) x) l → Meets (f ()) μ' Q) :
    Meets (setPrev e.1 x >>= f) μ Q := by
  have hcell := h.fits.node e he
  have hlive : μ.cells e.1 ≠ none := by simp [hcell]
  unfold setPrev
  apply Meets.bind (P := fun _ μ' => Edits μ₀ μ' list m len next (Function.update prev (some e.1) x) l)
  · apply meets_loadNode_bind hcell
    refine ⟨(), _, dif_pos hlive, ?_⟩
    have hset := h.setNode he hlive (x := x) (y := next (some e.1))
    rwa [Function.update_eq_self] at hset
  · exact fun _ μ' h' => hf μ' h'

theorem meets_setHead (h : Edits μ₀ μ list m len next prev l) (x : Option ℕ) :
    Meets (setHead list x) μ fun _ μ' => Edits μ₀ μ' list m len (Function.update next none x) prev l := by
  have hlive : μ.cells list ≠ none := by simp [h.fits.list]
  unfold setHead
  apply meets_loadList_bind h.fits.list
  refine ⟨(), _, dif_pos hlive, ?_⟩
  have hset := h.setList hlive len (Function.update next none x) prev
    (fun p => Function.update_of_ne (by simp) _ _) fun p => rfl
  rwa [Function.update_self] at hset

theorem meets_setHead_bind (h : Edits μ₀ μ list m len next prev l) {x : Option ℕ}
    {f : Unit → ListRoutine α β}
    (hf : ∀ μ', Edits μ₀ μ' list m len (Function.update next none x) prev l → Meets (f ()) μ' Q) :
    Meets (setHead list x >>= f) μ Q :=
  (meets_setHead h x).bind fun _ μ' h' => hf μ' h'

theorem meets_setTail_bind (h : Edits μ₀ μ list m len next prev l) {x : Option ℕ}
    {f : Unit → ListRoutine α β}
    (hf : ∀ μ', Edits μ₀ μ' list m len next (Function.update prev none x) l → Meets (f ()) μ' Q) :
    Meets (setTail list x >>= f) μ Q := by
  have hlive : μ.cells list ≠ none := by simp [h.fits.list]
  unfold setTail
  apply Meets.bind (P := fun _ μ' => Edits μ₀ μ' list m len next (Function.update prev none x) l)
  · apply meets_loadList_bind h.fits.list
    refine ⟨(), _, dif_pos hlive, ?_⟩
    have hset := h.setList hlive len next (Function.update prev none x)
      (fun p => rfl) fun p => Function.update_of_ne (by simp) _ _
    rwa [Function.update_self] at hset
  · exact fun _ μ' h' => hf μ' h'

theorem meets_linkNext_bind (h : Edits μ₀ μ list m len next prev l) {x y : Option ℕ}
    (hx : ∀ p, x = some p → p ∈ nodesOf l) {f : Unit → ListRoutine α β}
    (hf : ∀ μ', Edits μ₀ μ' list m len (Function.update next x y) prev l → Meets (f ()) μ' Q) :
    Meets (linkNext list x y >>= f) μ Q := by
  cases x with
  | none => exact meets_setHead_bind h hf
  | some p =>
    obtain ⟨e, he, rfl⟩ := List.mem_map.mp (hx p rfl)
    exact meets_setNext_bind h he hf

theorem meets_linkPrev_bind (h : Edits μ₀ μ list m len next prev l) {x y : Option ℕ}
    (hx : ∀ p, x = some p → p ∈ nodesOf l) {f : Unit → ListRoutine α β}
    (hf : ∀ μ', Edits μ₀ μ' list m len next (Function.update prev x y) l → Meets (f ()) μ' Q) :
    Meets (linkPrev list x y >>= f) μ Q := by
  cases x with
  | none => exact meets_setTail_bind h hf
  | some p =>
    obtain ⟨e, he, rfl⟩ := List.mem_map.mp (hx p rfl)
    exact meets_setPrev_bind h he hf

theorem meets_setLen_bind (h : Edits μ₀ μ list m len next prev l) {n : ℕ}
    {f : Unit → ListRoutine α β}
    (hf : ∀ μ', Edits μ₀ μ' list m n next prev l → Meets (f ()) μ' Q) :
    Meets (setLen list n >>= f) μ Q := by
  have hlive : μ.cells list ≠ none := by simp [h.fits.list]
  unfold setLen
  apply Meets.bind (P := fun _ μ' => Edits μ₀ μ' list m n next prev l)
  · apply meets_loadList_bind h.fits.list
    refine ⟨(), _, dif_pos hlive, ?_⟩
    exact h.setList hlive _ next prev (fun _ => rfl) fun _ => rfl
  · exact fun _ μ' h' => hf μ' h'

end Fits

/-! ## Adding nodes -/

section Adding

variable {μ : Memory (ListObject α)} {list : ℕ} {m : ListMethods α} {l : List (ℕ × α)}
  {grant : ℕ → Bool}

theorem HoldsList.live (h : HoldsList μ list m l) {p : ℕ} (hp : p ∈ list :: nodesOf l) :
    μ.cells p ≠ none := by
  obtain ⟨-, next, prev, hfits, -⟩ := h
  rcases List.mem_cons.mp hp with rfl | hp
  · simp [hfits.list]
  · obtain ⟨e, he, rfl⟩ := List.mem_map.mp hp
    simp [hfits.node e he]

/-- **Frame**: what changes none of its objects leaves the list as it is. -/
theorem HoldsList.frame {μ' : Memory (ListObject α)} (h : HoldsList μ list m l)
    (hsame : ∀ p ∈ list :: nodesOf l, μ'.cells p = μ.cells p) : HoldsList μ' list m l := by
  obtain ⟨hnodup, next, prev, hfits, hring⟩ := h
  refine ⟨hnodup, next, prev, ⟨?_, fun e he => ?_⟩, hring⟩
  · rw [hsame list List.mem_cons_self, hfits.list]
  · rw [hsame e.1 (List.mem_cons_of_mem _ (List.mem_map_of_mem he)), hfits.node e he]

/-- A new list is empty. -/
theorem holds_created (μ : Memory (ListObject α)) (m : ListMethods α) :
    HoldsList (μ.push (.list { methods := m })) μ.next m [] :=
  ⟨List.nodup_nil, fun _ => none, fun _ => none,
    ⟨μ.cells_push_self, fun _ he => absurd he List.not_mem_nil⟩, rfl, rfl⟩

/-- A node that has been allocated and is not linked in yet. -/
theorem Fits.push {next prev : Option ℕ → Option ℕ} {len : ℕ} (h : Fits μ list m len next prev l)
    (v : α) : Fits (μ.push (.node ⟨none, none, v⟩)) list m len
      (Function.update next (some μ.next) none) (Function.update prev (some μ.next) none)
      ((μ.next, v) :: l) := by
  have hlt : ∀ p, μ.cells p ≠ none → p ≠ μ.next := fun p hp => Memory.ne_next hp
  constructor
  · rw [Memory.cells_push_of_ne _ (hlt _ (by simp [h.list])), h.list,
      Function.update_of_ne (by simp), Function.update_of_ne (by simp)]
  · intro e he
    rcases List.mem_cons.mp he with rfl | he
    · rw [Memory.cells_push_self, Function.update_self, Function.update_self]
    · have hne := hlt e.1 (by simp [h.node e he])
      have hne' : some e.1 ≠ some μ.next := fun hcon => hne (Option.some.inj hcon)
      rw [Memory.cells_push_of_ne _ hne, h.node e he, Function.update_of_ne hne',
        Function.update_of_ne hne']

/-- What the functions that add a node come to. -/
def Adds (grant : ℕ → Bool) (μ : Memory (ListObject α)) (list : ℕ) (m : ListMethods α)
    (l l' : List (ℕ × α)) (r : Option ℕ) (μ' : Memory (ListObject α)) : Prop :=
  μ'.next = μ.next + 1 ∧
    ((r = none ∧ grant μ.next = false ∧ HoldsList μ' list m l ∧
        Swaps (list :: nodesOf l) (list :: nodesOf l) μ μ') ∨
      (r = some list ∧ grant μ.next = true ∧ HoldsList μ' list m l' ∧
        Swaps (list :: nodesOf l) (list :: nodesOf l') μ μ'))

theorem HoldsList.refused (h : HoldsList μ list m l) (l' : List (ℕ × α))
    (hno : grant μ.next = false) : Adds grant μ list m l l' none μ.skip :=
  ⟨rfl, Or.inl ⟨rfl, hno, h.frame fun _ _ => rfl, swaps_skip _ _⟩⟩

/-- The links of the neighbours and of the new node have been set. -/
theorem Edits.added {μ' : Memory (ListObject α)} (l₁ l₂ : List (ℕ × α)) {v : α}
    {next prev next' prev' : Option ℕ → Option ℕ} (hyes : grant μ.next = true)
    (hnew : μ.next ∉ nodesOf (l₁ ++ l₂)) (hnodup : (nodesOf (l₁ ++ l₂)).Nodup)
    (hring : LinkRing next prev (nodesOf (l₁ ++ l₂)))
    (h : Edits (μ.push (.node ⟨none, none, v⟩)) μ' list m ((l₁ ++ l₂).length + 1) next' prev'
      ((μ.next, v) :: (l₁ ++ l₂)))
    (hnext : next' = Function.update (Function.update next (nodesOf l₁).getLast? (some μ.next))
      (some μ.next) (nodesOf l₂).head?)
    (hprev : prev' = Function.update (Function.update prev (nodesOf l₂).head? (some μ.next))
      (some μ.next) (nodesOf l₁).getLast?) :
    Adds grant μ list m (l₁ ++ l₂) (l₁ ++ (μ.next, v) :: l₂) (some list) μ' := by
  have hperm : (l₁ ++ (μ.next, v) :: l₂).Perm ((μ.next, v) :: (l₁ ++ l₂)) := List.perm_middle
  have hnodup' : (nodesOf (l₁ ++ (μ.next, v) :: l₂)).Nodup := by
    rw [(nodesOf_perm hperm).nodup_iff, nodesOf_cons, List.nodup_cons]
    exact ⟨hnew, hnodup⟩
  refine ⟨h.next, Or.inr ⟨rfl, hyes, ⟨hnodup', next', prev', ⟨?_, ?_⟩, ?_⟩, ?_⟩⟩
  · rw [hperm.length_eq]
    exact h.fits.list
  · intro e he
    exact h.fits.node e (hperm.mem_iff.mp he)
  · rw [hnext, hprev]
    rw [nodesOf_append] at hring
    rw [nodesOf_append, nodesOf_cons] at hnodup' ⊢
    exact hring.insert _ _ _ hnodup'
  · have hpush := swaps_push (F := list :: nodesOf (l₁ ++ l₂)) (μ := μ)
      (.node ⟨none, none, v⟩ : ListObject α)
    have hswap := (hpush.congr (fun _ => Iff.rfl) fun p => ?_).trans h.swaps
    · refine hswap.congr (fun _ => Iff.rfl) fun p => ?_
      rw [List.mem_cons, List.mem_cons, (nodesOf_perm hperm).mem_iff]
    · simp only [nodesOf_cons, List.mem_cons]
      tauto

/-- **`listAddNodeHead`** -/
theorem listAddNodeHead_meets (h : HoldsList μ list m l) (v : α) :
    Meets (listAddNodeHead grant list v) μ fun r μ' =>
      Adds grant μ list m l ((μ.next, v) :: l) r μ' := by
  have hnew : μ.next ∉ nodesOf l := fun hin => Memory.ne_next (h.live (List.mem_cons_of_mem _ hin)) rfl
  obtain ⟨hnodup, next, prev, hfits, hring⟩ := id h
  unfold listAddNodeHead
  apply meets_alloc_bind
  · exact fun hno => meets_pure (h.refused _ hno)
  intro hyes
  have hedits := (hfits.push v).edits
  have hmem : (μ.next, v) ∈ (μ.next, v) :: l := List.mem_cons_self
  apply meets_loadList_bind hedits.fits.list
  dsimp only
  cases l with
  | nil =>
    rw [if_pos List.length_nil]
    apply meets_setTail_bind hedits
    intro μ₁ h₁
    apply meets_setHead_bind h₁
    intro μ₂ h₂
    apply meets_setNext_bind h₂ hmem
    intro μ₃ h₃
    apply meets_setPrev_bind h₃ hmem
    intro μ₄ h₄
    apply meets_setLen_bind h₄
    intro μ₅ h₅
    apply meets_pure
    apply Edits.added [] [] hyes hnew hnodup hring h₅
    · rw [Function.update_comm (by simp : some μ.next ≠ none), Function.update_idem]
      rfl
    · rw [Function.update_comm (by simp : some μ.next ≠ none), Function.update_idem]
      rfl
  | cons e l =>
    have hhead : next none = some e.1 := hring.head_eq
    rw [if_neg (by simp), Function.update_of_ne (by simp), hhead]
    have hmem' : e ∈ (μ.next, v) :: e :: l := List.mem_cons_of_mem _ List.mem_cons_self
    apply meets_setPrev_bind hedits hmem
    intro μ₁ h₁
    apply meets_setNext_bind h₁ hmem
    intro μ₂ h₂
    apply meets_notNull_bind
    apply meets_setPrev_bind h₂ hmem'
    intro μ₃ h₃
    apply meets_setHead_bind h₃
    intro μ₄ h₄
    apply meets_setLen_bind h₄
    intro μ₅ h₅
    apply meets_pure
    have hne : some μ.next ≠ some e.1 := fun hcon => hnew (by simp [Option.some.inj hcon])
    apply Edits.added [] (e :: l) hyes hnew hnodup hring h₅
    · rw [Function.update_idem, Function.update_comm (by simp : some μ.next ≠ none)]
      rfl
    · rw [Function.update_idem, Function.update_comm hne]
      rfl

/-- **`listAddNodeTail`** -/
theorem listAddNodeTail_meets (h : HoldsList μ list m l) (v : α) :
    Meets (listAddNodeTail grant list v) μ fun r μ' =>
      Adds grant μ list m l (l ++ [(μ.next, v)]) r μ' := by
  have hnew : μ.next ∉ nodesOf l := fun hin => Memory.ne_next (h.live (List.mem_cons_of_mem _ hin)) rfl
  obtain ⟨hnodup, next, prev, hfits, hring⟩ := id h
  unfold listAddNodeTail
  apply meets_alloc_bind
  · exact fun hno => meets_pure (h.refused _ hno)
  intro hyes
  have hedits := (hfits.push v).edits
  have hmem : (μ.next, v) ∈ (μ.next, v) :: l := List.mem_cons_self
  apply meets_loadList_bind hedits.fits.list
  dsimp only
  rcases l.eq_nil_or_concat' with rfl | ⟨l, e, rfl⟩
  · rw [if_pos List.length_nil]
    apply meets_setTail_bind hedits
    intro μ₁ h₁
    apply meets_setHead_bind h₁
    intro μ₂ h₂
    apply meets_setNext_bind h₂ hmem
    intro μ₃ h₃
    apply meets_setPrev_bind h₃ hmem
    intro μ₄ h₄
    apply meets_setLen_bind h₄
    intro μ₅ h₅
    apply meets_pure
    apply Edits.added [] [] hyes hnew hnodup hring h₅
    · rw [Function.update_comm (by simp : some μ.next ≠ none), Function.update_idem]
      rfl
    · rw [Function.update_comm (by simp : some μ.next ≠ none), Function.update_idem]
      rfl
  · have htail : prev none = some e.1 := by rw [hring.tail_eq]; simp
    rw [if_neg (by simp), Function.update_of_ne (by simp), htail]
    have hmem' : e ∈ (μ.next, v) :: (l ++ [e]) := by simp
    apply meets_setPrev_bind hedits hmem
    intro μ₁ h₁
    apply meets_setNext_bind h₁ hmem
    intro μ₂ h₂
    apply meets_notNull_bind
    apply meets_setNext_bind h₂ hmem'
    intro μ₃ h₃
    apply meets_setTail_bind h₃
    intro μ₄ h₄
    apply meets_setLen_bind h₄
    intro μ₅ h₅
    apply meets_pure
    rw [← List.append_nil (l ++ [e])] at hnew hnodup hring h₅
    have hne : some μ.next ≠ some e.1 := fun hcon => hnew (by simp [Option.some.inj hcon])
    have hlast : (nodesOf (l ++ [e])).getLast? = some e.1 := by simp
    have hadds := h₅.added (l ++ [e]) [] hyes hnew hnodup hring ?_ ?_
    · rwa [List.append_nil] at hadds
    · rw [Function.update_idem, Function.update_comm hne, hlast]
      rfl
    · rw [Function.update_idem, Function.update_comm (by simp : some μ.next ≠ none), hlast]
      rfl

/-- **`listInsertNode`, behind a node** -/
theorem listInsertNode_meets_after {e : ℕ × α} {l₁ l₂ : List (ℕ × α)}
    (h : HoldsList μ list m (l₁ ++ e :: l₂)) (v : α) :
    Meets (listInsertNode grant list e.1 v true) μ fun r μ' =>
      Adds grant μ list m (l₁ ++ e :: l₂) (l₁ ++ e :: (μ.next, v) :: l₂) r μ' := by
  have hnew : μ.next ∉ nodesOf (l₁ ++ e :: l₂) := fun hin =>
    Memory.ne_next (h.live (List.mem_cons_of_mem _ hin)) rfl
  obtain ⟨hnodup, next, prev, hfits, hring⟩ := id h
  have hcomm : l₁ ++ e :: l₂ = (l₁ ++ [e]) ++ l₂ := by simp
  have hcomm' : l₁ ++ e :: (μ.next, v) :: l₂ = (l₁ ++ [e]) ++ (μ.next, v) :: l₂ := by simp
  have hne : some μ.next ≠ some e.1 := fun hcon => hnew (by simp [Option.some.inj hcon])
  have hlast : (nodesOf (l₁ ++ [e])).getLast? = some e.1 := by simp
  have hold : next (some e.1) = (nodesOf l₂).head? := by
    rw [nodesOf_append, nodesOf_cons] at hring
    exact hring.next_eq
  unfold listInsertNode
  apply meets_alloc_bind
  · exact fun hno => meets_pure (h.refused _ hno)
  intro hyes
  have hedits := (hfits.push v).edits
  have hmem : (μ.next, v) ∈ (μ.next, v) :: (l₁ ++ e :: l₂) := List.mem_cons_self
  have hmem' : e ∈ (μ.next, v) :: (l₁ ++ e :: l₂) := by simp
  apply meets_loadNode_bind (hedits.fits.node e hmem')
  apply meets_loadList_bind hedits.fits.list
  dsimp only
  rw [if_pos rfl, Function.update_of_ne hne.symm, hold]
  apply meets_setPrev_bind hedits hmem
  intro μ₁ h₁
  apply meets_setNext_bind h₁ hmem
  intro μ₂ h₂
  rw [Function.update_of_ne (by simp), hring.tail_eq]
  cases l₂ with
  | nil =>
    -- the new node is the last one
    rw [if_pos (by simp)]
    apply meets_setTail_bind h₂
    intro μ₃ h₃
    have hnode : μ₃.cells μ.next = some (.node ⟨some e.1, none, v⟩) := by
      rw [h₃.fits.node _ hmem]
      simp
    apply meets_loadNode_bind hnode
    apply meets_setNext_bind h₃ hmem'
    intro μ₄ h₄
    have hnode' : μ₄.cells μ.next = some (.node ⟨some e.1, none, v⟩) := by
      rw [h₄.fits.node _ hmem]
      simp [Function.update_of_ne hne]
    apply meets_loadNode_bind hnode'
    apply meets_setLen_bind h₄
    intro μ₅ h₅
    apply meets_pure
    rw [hcomm] at hnew hnodup hring h₅ ⊢
    rw [hcomm']
    apply h₅.added _ _ hyes hnew hnodup hring
    · rw [Function.update_idem, Function.update_comm hne, hlast]
    · rw [Function.update_idem, Function.update_comm (by simp : some μ.next ≠ none), hlast]
      rfl
  | cons y l₂ =>
    have hne' : some μ.next ≠ some y.1 := fun hcon => hnew (by simp [Option.some.inj hcon])
    have hmem'' : y ∈ (μ.next, v) :: (l₁ ++ e :: y :: l₂) := by simp
    rw [if_neg]
    · have hnode : μ₂.cells μ.next = some (.node ⟨some e.1, some y.1, v⟩) := by
        rw [h₂.fits.node _ hmem]
        simp
      apply meets_loadNode_bind hnode
      apply meets_setNext_bind h₂ hmem'
      intro μ₃ h₃
      have hnode' : μ₃.cells μ.next = some (.node ⟨some e.1, some y.1, v⟩) := by
        rw [h₃.fits.node _ hmem]
        simp [Function.update_of_ne hne]
      apply meets_loadNode_bind hnode'
      apply meets_setPrev_bind h₃ hmem''
      intro μ₄ h₄
      apply meets_setLen_bind h₄
      intro μ₅ h₅
      apply meets_pure
      rw [hcomm] at hnew hnodup hring h₅ ⊢
      rw [hcomm']
      apply h₅.added _ _ hyes hnew hnodup hring
      · rw [Function.update_idem, Function.update_comm hne, hlast]
      · rw [Function.update_idem, Function.update_comm hne', hlast]
        rfl
    · -- a node behind the old one is the last one
      intro hcon
      have hin : e.1 ∈ nodesOf (y :: l₂) := by
        rw [hcomm, nodesOf_append, nodesOf_cons, List.getLast?_append, List.getLast?_cons,
          Option.some_or, Option.some.injEq] at hcon
        rw [← hcon]
        exact List.mem_of_getLast? (by rw [nodesOf_cons, List.getLast?_cons])
      rw [nodesOf_append, nodesOf_cons] at hnodup
      exact (List.nodup_cons.mp (List.nodup_append.mp hnodup).2.1).1 hin

/-- **`listInsertNode`, before a node** -/
theorem listInsertNode_meets_before {e : ℕ × α} {l₁ l₂ : List (ℕ × α)}
    (h : HoldsList μ list m (l₁ ++ e :: l₂)) (v : α) :
    Meets (listInsertNode grant list e.1 v false) μ fun r μ' =>
      Adds grant μ list m (l₁ ++ e :: l₂) (l₁ ++ (μ.next, v) :: e :: l₂) r μ' := by
  have hnew : μ.next ∉ nodesOf (l₁ ++ e :: l₂) := fun hin =>
    Memory.ne_next (h.live (List.mem_cons_of_mem _ hin)) rfl
  obtain ⟨hnodup, next, prev, hfits, hring⟩ := id h
  have hne : some μ.next ≠ some e.1 := fun hcon => hnew (by simp [Option.some.inj hcon])
  have hold : prev (some e.1) = (nodesOf l₁).getLast? := by
    rw [nodesOf_append, nodesOf_cons] at hring
    exact hring.prev_eq
  unfold listInsertNode
  apply meets_alloc_bind
  · exact fun hno => meets_pure (h.refused _ hno)
  intro hyes
  have hedits := (hfits.push v).edits
  have hmem : (μ.next, v) ∈ (μ.next, v) :: (l₁ ++ e :: l₂) := List.mem_cons_self
  have hmem' : e ∈ (μ.next, v) :: (l₁ ++ e :: l₂) := by simp
  apply meets_loadNode_bind (hedits.fits.node e hmem')
  apply meets_loadList_bind hedits.fits.list
  dsimp only
  rw [if_neg (by simp), Function.update_of_ne hne.symm, hold]
  apply meets_setNext_bind hedits hmem
  intro μ₁ h₁
  apply meets_setPrev_bind h₁ hmem
  intro μ₂ h₂
  rw [Function.update_of_ne (by simp), hring.head_eq]
  rcases l₁.eq_nil_or_concat' with rfl | ⟨l₁, y, rfl⟩
  · -- the new node is the first one
    rw [if_pos (by simp)]
    apply meets_setHead_bind h₂
    intro μ₃ h₃
    have hnode : μ₃.cells μ.next = some (.node ⟨none, some e.1, v⟩) := by
      rw [h₃.fits.node _ hmem]
      simp
    apply meets_loadNode_bind hnode
    apply meets_loadNode_bind hnode
    apply meets_setPrev_bind h₃ hmem'
    intro μ₄ h₄
    apply meets_setLen_bind h₄
    intro μ₅ h₅
    apply meets_pure
    apply h₅.added _ _ hyes hnew hnodup hring
    · rw [Function.update_idem, Function.update_comm (by simp : some μ.next ≠ none)]
      rfl
    · rw [Function.update_idem, Function.update_comm hne]
      rfl
  · have hlast : (nodesOf (l₁ ++ [y])).getLast? = some y.1 := by simp
    have hne' : some μ.next ≠ some y.1 := fun hcon => hnew (by simp [Option.some.inj hcon])
    have hmem'' : y ∈ (μ.next, v) :: (l₁ ++ [y] ++ e :: l₂) := by simp
    rw [hlast] at h₂
    rw [if_neg]
    · have hnode : μ₂.cells μ.next = some (.node ⟨some y.1, some e.1, v⟩) := by
        rw [h₂.fits.node _ hmem]
        simp
      apply meets_loadNode_bind hnode
      apply meets_setNext_bind h₂ hmem''
      intro μ₃ h₃
      have hnode' : μ₃.cells μ.next = some (.node ⟨some y.1, some e.1, v⟩) := by
        rw [h₃.fits.node _ hmem]
        simp [Function.update_of_ne hne']
      apply meets_loadNode_bind hnode'
      apply meets_setPrev_bind h₃ hmem'
      intro μ₄ h₄
      apply meets_setLen_bind h₄
      intro μ₅ h₅
      apply meets_pure
      apply h₅.added _ _ hyes hnew hnodup hring
      · rw [Function.update_idem, Function.update_comm hne', hlast]
        rfl
      · rw [Function.update_idem, Function.update_comm hne, hlast]
        rfl
    · -- a node before the old one is the first one
      intro hcon
      have hin : e.1 ∈ nodesOf (l₁ ++ [y]) := by
        apply List.mem_of_head?
        rw [← hcon, nodesOf_append _ (e :: l₂), List.head?_append]
        simp
      rw [nodesOf_append, nodesOf_cons] at hnodup
      exact (List.nodup_append.mp hnodup).2.2 e.1 hin e.1 List.mem_cons_self rfl

end Adding

/-! ## Removing nodes -/

section Removing

variable {μ : Memory (ListObject α)} {list : ℕ} {m : ListMethods α}

/-- What `list->free` is called on. -/
def ListMethods.freed (m : ListMethods α) (vs : List α) : List α := if m.free then vs else []

/-- A node that has been unlinked is freed. -/
theorem Fits.drop {next prev : Option ℕ → Option ℕ} {len : ℕ} {e : ℕ × α} {l₁ l₂ : List (ℕ × α)}
    (h : Fits μ list m len next prev (l₁ ++ e :: l₂)) (hnew : e.1 ∉ nodesOf (l₁ ++ l₂)) :
    Fits (μ.drop e.1) list m len next prev (l₁ ++ l₂) := by
  constructor
  · rw [Memory.cells_drop_of_ne _ (h.ne_list (by simp)).symm, h.list]
  · intro e' he'
    have hne : e'.1 ≠ e.1 := fun heq => hnew (heq ▸ List.mem_map_of_mem he')
    rw [Memory.cells_drop_of_ne _ hne, h.node e']
    rw [List.mem_append, List.mem_cons]
    exact (List.mem_append.mp he').imp_right Or.inr

/-- **`listDelNode`** -/
theorem listDelNode_meets {e : ℕ × α} {l₁ l₂ : List (ℕ × α)}
    (h : HoldsList μ list m (l₁ ++ e :: l₂)) : Meets (listDelNode list e.1) μ fun r μ' =>
      r = m.freed [e.2] ∧ HoldsList μ' list m (l₁ ++ l₂) ∧ μ'.next = μ.next ∧
        Swaps (list :: nodesOf (l₁ ++ e :: l₂)) (list :: nodesOf (l₁ ++ l₂)) μ μ' := by
  obtain ⟨hnodup, next, prev, hfits, hring⟩ := h
  have hmem : e ∈ l₁ ++ e :: l₂ := by simp
  have hnext : next (some e.1) = (nodesOf l₂).head? := by
    rw [nodesOf_append, nodesOf_cons] at hring
    exact hring.next_eq
  have hprev : prev (some e.1) = (nodesOf l₁).getLast? := by
    rw [nodesOf_append, nodesOf_cons] at hring
    exact hring.prev_eq
  have hsplit : e.1 ∉ nodesOf (l₁ ++ l₂) ∧ (nodesOf (l₁ ++ l₂)).Nodup := by
    rw [(nodesOf_perm (List.perm_middle : (l₁ ++ e :: l₂).Perm _)).nodup_iff, nodesOf_cons,
      List.nodup_cons] at hnodup
    exact hnodup
  have hlast : (nodesOf l₁).getLast? ≠ some e.1 := by
    intro hcon
    apply hsplit.1
    rw [nodesOf_append]
    exact List.mem_append_left _ (List.mem_of_getLast? hcon)
  unfold listDelNode
  apply meets_loadNode_bind (hfits.node e hmem)
  dsimp only
  rw [hnext, hprev]
  apply meets_linkNext_bind hfits.edits
  · intro p hp
    rw [nodesOf_append]
    exact List.mem_append_left _ (List.mem_of_getLast? hp)
  intro μ₁ h₁
  apply meets_loadNode_bind (h₁.fits.node e hmem)
  dsimp only
  rw [Function.update_of_ne hlast.symm, hnext, hprev]
  apply meets_linkPrev_bind h₁
  · intro p hp
    rw [nodesOf_append, nodesOf_cons]
    exact List.mem_append_right _ (List.mem_cons_of_mem _ (List.mem_of_head? hp))
  intro μ₂ h₂
  apply meets_loadList_bind h₂.fits.list
  have hnode := h₂.fits.node e hmem
  apply meets_free_bind (by simp [hnode])
  have hdrop := (h₂.fits.drop hsplit.1).edits
  apply meets_setLen_bind hdrop
  intro μ₃ h₃
  have hlen : (l₁ ++ e :: l₂).length - 1 = (l₁ ++ l₂).length := by simp
  dsimp only at h₃
  rw [hlen] at h₃
  refine meets_pure ⟨rfl, ⟨hsplit.2, _, _, h₃.fits, ?_⟩, h₃.next.trans h₂.next, ?_⟩
  · rw [nodesOf_append, nodesOf_cons] at hnodup hring
    rw [nodesOf_append]
    exact hring.erase hnodup
  · have hfree : Swaps (e.1 :: list :: nodesOf (l₁ ++ l₂)) (list :: nodesOf (l₁ ++ l₂)) μ₂
        (μ₂.drop e.1) := by
      apply swaps_drop
      rw [List.mem_cons, not_or]
      exact ⟨h₂.fits.ne_list hmem, hsplit.1⟩
    refine (h₂.swaps.trans (hfree.congr (fun p => ?_) fun _ => Iff.rfl)).trans h₃.swaps
    simp only [List.mem_cons, nodesOf_append, nodesOf_cons, List.mem_append]
    tauto

/-- The nodes are freed from the first to the last. -/
theorem releaseNodes_meets {next prev : Option ℕ → Option ℕ} {l : List (ℕ × α)} :
    ∀ {μ : Memory (ListObject α)} {a : Option ℕ}, LinkPath next prev a (nodesOf l) none →
    (∀ e ∈ l, μ.cells e.1 = some (.node ⟨prev (some e.1), next (some e.1), e.2⟩)) →
    (nodesOf l).Nodup → Meets (releaseNodes m l.length (next a)) μ fun r μ' =>
      r = m.freed (l.map Prod.snd) ∧ μ'.next = μ.next ∧ Swaps (nodesOf l) [] μ μ' := by
  induction l with
  | nil =>
    intro μ a _ _ _
    refine meets_pure ⟨?_, rfl, Swaps.refl _ μ⟩
    simp [ListMethods.freed]
  | cons e l ih =>
    intro μ a hpath hcells hnodup
    obtain ⟨hnext, -, hrest⟩ := hpath
    have hcell := hcells e List.mem_cons_self
    rw [nodesOf_cons, List.nodup_cons] at hnodup
    rw [hnext, List.length_cons]
    unfold releaseNodes
    apply meets_notNull_bind
    apply meets_loadNode_bind hcell
    apply meets_free_bind (by simp [hcell])
    have hrest' : ∀ e' ∈ l, (μ.drop e.1).cells e'.1 =
        some (.node ⟨prev (some e'.1), next (some e'.1), e'.2⟩) := by
      intro e' he'
      have hne : e'.1 ≠ e.1 := fun heq => hnodup.1 (heq ▸ List.mem_map_of_mem he')
      rw [Memory.cells_drop_of_ne _ hne, hcells e' (List.mem_cons_of_mem e he')]
    apply (ih hrest hrest' hnodup.2).bind
    rintro r μ' ⟨rfl, hnext', hswap⟩
    refine meets_pure ⟨?_, hnext', (swaps_drop hnodup.1).trans hswap⟩
    unfold ListMethods.freed
    cases m.free <;> rfl

/-- **`listRelease`** -/
theorem listRelease_meets {l : List (ℕ × α)} (h : HoldsList μ list m l) :
    Meets (listRelease list) μ fun r μ' => r = m.freed (l.map Prod.snd) ∧ μ'.next = μ.next ∧
      Swaps (list :: nodesOf l) [] μ μ' := by
  obtain ⟨hnodup, next, prev, hfits, hring⟩ := h
  unfold listRelease
  apply meets_loadList_bind hfits.list
  apply (releaseNodes_meets hring hfits.node hnodup).bind
  rintro r μ₁ ⟨rfl, hnext, hswap⟩
  have hnot : list ∉ nodesOf l := by
    intro hin
    obtain ⟨e, he, heq⟩ := List.mem_map.mp hin
    exact hfits.ne_list he heq
  have hlist : μ₁.cells list ≠ none := by
    rw [hswap.same list hnot List.not_mem_nil, hfits.list]
    simp
  apply meets_free_bind hlist
  refine meets_pure ⟨rfl, hnext, ?_⟩
  have hnodes : Swaps (list :: nodesOf l) [list] μ μ₁ := by
    apply (hswap.append [list]).congr
    · intro p
      simp only [List.mem_append, List.mem_cons, List.not_mem_nil, or_false]
      tauto
    · intro p
      rw [List.nil_append]
  exact hnodes.trans (swaps_drop List.not_mem_nil)

end Removing

/-! ## Rotating -/

section Rotating

variable {μ : Memory (ListObject α)} {list : ℕ} {m : ListMethods α}

/-- **`listRotate`** -/
theorem listRotate_meets {e : ℕ × α} {l : List (ℕ × α)} (h : HoldsList μ list m (l ++ [e])) :
    Meets (listRotate list) μ fun _ μ' => HoldsList μ' list m (e :: l) ∧ μ'.next = μ.next ∧
      Swaps (list :: nodesOf (l ++ [e])) (list :: nodesOf (e :: l)) μ μ' := by
  have hperm : (l ++ [e]).Perm (e :: l) := List.perm_append_singleton e l
  obtain ⟨hnodup, next, prev, hfits, hring⟩ := id h
  unfold listRotate
  apply meets_loadList_bind hfits.list
  dsimp only
  rcases l.eq_nil_or_concat' with rfl | ⟨l₀, y, rfl⟩
  · -- there is nothing to rotate
    rw [if_pos (by simp)]
    exact meets_pure ⟨h, rfl, Swaps.refl _ μ⟩
  rw [if_neg (by simp)]
  obtain ⟨x, l₁, hl⟩ : ∃ x l₁, l₀ ++ [y] = x :: l₁ := List.exists_cons_of_ne_nil (by simp)
  have hlast : (nodesOf (l₀ ++ [y])).getLast? = some y.1 := by simp
  have hfirst : (nodesOf (l₀ ++ [y])).head? = some x.1 := by rw [hl]; rfl
  have htail : prev none = some e.1 := by rw [hring.tail_eq]; simp
  have hhead : next none = some x.1 := by
    rw [hring.head_eq, nodesOf_append, List.head?_append, hfirst]
    rfl
  rw [nodesOf_append, nodesOf_cons, nodesOf_nil] at hring
  have hprev : prev (some e.1) = some y.1 := hring.prev_eq.trans hlast
  have hmem : e ∈ l₀ ++ [y] ++ [e] := by simp
  have hmemy : y ∈ l₀ ++ [y] ++ [e] := by simp
  have hmemx : x ∈ l₀ ++ [y] ++ [e] := by rw [hl]; simp
  have hne : some e.1 ≠ some x.1 := by
    intro hcon
    rw [nodesOf_append, hl] at hnodup
    exact (List.nodup_append.mp hnodup).2.2 x.1 List.mem_cons_self e.1 List.mem_cons_self
      (Option.some.inj hcon).symm
  rw [htail, hhead]
  apply meets_notNull_bind
  apply meets_loadNode_bind (hfits.node e hmem)
  dsimp only
  rw [hprev]
  apply meets_setTail_bind hfits.edits
  intro μ₁ h₁
  apply meets_notNull_bind
  apply meets_setNext_bind h₁ hmemy
  intro μ₂ h₂
  apply meets_notNull_bind
  apply meets_setPrev_bind h₂ hmemx
  intro μ₃ h₃
  apply meets_setPrev_bind h₃ hmem
  intro μ₄ h₄
  apply meets_setNext_bind h₄ hmem
  intro μ₅ h₅
  apply (meets_setHead h₅ (some e.1)).mono
  intro _ μ' h₆
  have hnodup' : (nodesOf (e :: (l₀ ++ [y]))).Nodup := (nodesOf_perm hperm).nodup_iff.mp hnodup
  rw [nodesOf_append, nodesOf_cons, nodesOf_nil] at hnodup
  have herase := hring.erase hnodup
  rw [List.append_nil] at herase
  have hring' := herase.insert e.1 [] (nodesOf (l₀ ++ [y])) hnodup'
  rw [hlast, hfirst] at hring'
  have hfits' : Fits μ' list m (e :: (l₀ ++ [y])).length
      (Function.update (Function.update (Function.update next (some y.1) none) (some e.1) (some x.1))
        none (some e.1))
      (Function.update (Function.update (Function.update prev none (some y.1)) (some x.1) (some e.1))
        (some e.1) none) (e :: (l₀ ++ [y])) := by
    constructor
    · rw [← hperm.length_eq]
      exact h₆.fits.list
    · exact fun e' he' => h₆.fits.node e' (hperm.mem_iff.mpr he')
  refine ⟨⟨hnodup', _, _, hfits', ?_⟩, h₆.next, ?_⟩
  · rw [Function.update_comm (by simp : some e.1 ≠ none)]
    exact hring'
  · apply h₆.swaps.congr fun _ => Iff.rfl
    intro p
    rw [List.mem_cons, List.mem_cons, (nodesOf_perm hperm).mem_iff]

/-- There is nothing to rotate. -/
theorem listRotate_meets_nil (h : HoldsList μ list m ([] : List (ℕ × α))) :
    Meets (listRotate list) μ fun _ μ' => μ' = μ := by
  obtain ⟨-, next, prev, hfits, -⟩ := h
  unfold listRotate
  apply meets_loadList_bind hfits.list
  exact meets_pure rfl

end Rotating

/-! ## Iterating -/

section Iterating

variable {μ : Memory (ListObject α)} {list : ℕ} {m : ListMethods α} {l : List (ℕ × α)}

/-- **`listNext`, from the head on** -/
theorem listNext_meets_head {e : ℕ × α} {l₁ l₂ : List (ℕ × α)}
    (h : HoldsList μ list m (l₁ ++ e :: l₂)) :
    Meets (listNext ⟨some e.1, .startHead⟩) μ fun r μ' => μ' = μ ∧
      r = (some e.1, ⟨(nodesOf l₂).head?, .startHead⟩) := by
  obtain ⟨-, next, prev, hfits, hring⟩ := h
  rw [nodesOf_append, nodesOf_cons] at hring
  unfold listNext
  apply meets_loadNode_bind (hfits.node e (by simp))
  exact meets_pure ⟨rfl, by dsimp only; rw [hring.next_eq]⟩

/-- **`listNext`, from the tail on** -/
theorem listNext_meets_tail {e : ℕ × α} {l₁ l₂ : List (ℕ × α)}
    (h : HoldsList μ list m (l₁ ++ e :: l₂)) :
    Meets (listNext ⟨some e.1, .startTail⟩) μ fun r μ' => μ' = μ ∧
      r = (some e.1, ⟨(nodesOf l₁).getLast?, .startTail⟩) := by
  obtain ⟨-, next, prev, hfits, hring⟩ := h
  rw [nodesOf_append, nodesOf_cons] at hring
  unfold listNext
  apply meets_loadNode_bind (hfits.node e (by simp))
  exact meets_pure ⟨rfl, by dsimp only; rw [hring.prev_eq]⟩

theorem listRewind_meets (h : HoldsList μ list m l) : Meets (listRewind list) μ fun r μ' =>
    μ' = μ ∧ r = ⟨(nodesOf l).head?, .startHead⟩ := by
  obtain ⟨-, next, prev, hfits, hring⟩ := h
  unfold listRewind
  apply meets_loadList_bind hfits.list
  exact meets_pure ⟨rfl, by dsimp only; rw [hring.head_eq]⟩

theorem listRewindTail_meets (h : HoldsList μ list m l) : Meets (listRewindTail list) μ fun r μ' =>
    μ' = μ ∧ r = ⟨(nodesOf l).getLast?, .startTail⟩ := by
  obtain ⟨-, next, prev, hfits, hring⟩ := h
  unfold listRewindTail
  apply meets_loadList_bind hfits.list
  exact meets_pure ⟨rfl, by dsimp only; rw [hring.tail_eq]⟩

/-- Along one of the two functions. -/
theorem walk_meets {step : ListNode α → Option ℕ} (next prev : Option ℕ → Option ℕ) {ps : List ℕ} :
    ∀ {a : Option ℕ} {i : ℕ}, LinkPath next prev a ps none →
    (∀ p ∈ ps, ∃ n, μ.cells p = some (.node n) ∧ step n = next (some p)) →
      Meets (walk step i (next a)) μ fun r μ' => μ' = μ ∧ r = ps[i]? := by
  induction ps with
  | nil =>
    rintro a i ⟨ha, -⟩ -
    rw [ha]
    cases i with
    | zero => exact meets_pure ⟨rfl, rfl⟩
    | succ i => exact meets_pure ⟨rfl, rfl⟩
  | cons p ps ih =>
    rintro a i ⟨ha, -, hrest⟩ hcells
    rw [ha]
    cases i with
    | zero => exact meets_pure ⟨rfl, rfl⟩
    | succ i =>
      obtain ⟨n, hcell, hstep⟩ := hcells p List.mem_cons_self
      unfold walk
      apply meets_loadNode_bind hcell
      rw [hstep]
      exact ih hrest fun q hq => hcells q (List.mem_cons_of_mem p hq)

/-- **`listIndex`**: from the head on, or from the tail when the index is negative. -/
theorem listIndex_meets (h : HoldsList μ list m l) (index : ℤ) :
    Meets (listIndex list index) μ fun r μ' => μ' = μ ∧
      r = if index < 0 then (nodesOf l).reverse[(-index - 1).toNat]? else (nodesOf l)[index.toNat]? := by
  obtain ⟨-, next, prev, hfits, hring⟩ := h
  unfold listIndex
  apply meets_loadList_bind hfits.list
  have hcell : ∀ p ∈ nodesOf l, ∃ v, μ.cells p = some (.node ⟨prev (some p), next (some p), v⟩) := by
    intro p hp
    obtain ⟨e, he, rfl⟩ := List.mem_map.mp hp
    exact ⟨e.2, hfits.node e he⟩
  by_cases hneg : index < 0
  · rw [if_pos hneg, if_pos hneg]
    apply walk_meets prev next (LinkPath.reverse hring)
    intro p hp
    obtain ⟨v, hv⟩ := hcell p (List.mem_reverse.mp hp)
    exact ⟨_, hv, rfl⟩
  · rw [if_neg hneg, if_neg hneg]
    apply walk_meets next prev hring
    intro p hp
    obtain ⟨v, hv⟩ := hcell p hp
    exact ⟨_, hv, rfl⟩

theorem searchFrom_meets [DecidableEq α] {key : α} {l₂ : List (ℕ × α)} : ∀ (l₁ : List (ℕ × α))
    {fuel : ℕ}, HoldsList μ list m (l₁ ++ l₂) → l₂.length < fuel →
      Meets (searchFrom m key fuel ⟨(nodesOf l₂).head?, .startHead⟩) μ fun r μ' => μ' = μ ∧
        r = (l₂.find? fun e => m.finds key e.2).map Prod.fst := by
  induction l₂ with
  | nil =>
    intro l₁ fuel h hfuel
    obtain ⟨n, rfl⟩ : ∃ n, fuel = n + 1 := ⟨fuel - 1, by simp at hfuel; omega⟩
    exact meets_pure ⟨rfl, rfl⟩
  | cons e l₂ ih =>
    intro l₁ fuel h hfuel
    obtain ⟨n, rfl⟩ : ∃ n, fuel = n + 1 := ⟨fuel - 1, by simp at hfuel; omega⟩
    obtain ⟨-, next, prev, hfits, -⟩ := id h
    unfold searchFrom
    rw [nodesOf_cons, List.head?_cons]
    apply (listNext_meets_head h).bind
    rintro r μ' ⟨rfl, rfl⟩
    apply meets_loadNode_bind (hfits.node e (by simp))
    dsimp only
    by_cases hfound : m.finds key e.2 = true
    · rw [if_pos hfound, List.find?_cons_of_pos (p := fun e : ℕ × α => m.finds key e.2) hfound]
      exact meets_pure ⟨rfl, rfl⟩
    · rw [if_neg hfound, List.find?_cons_of_neg (p := fun e : ℕ × α => m.finds key e.2) hfound]
      have hsplit : l₁ ++ e :: l₂ = (l₁ ++ [e]) ++ l₂ := by simp
      rw [hsplit] at h
      exact ih _ h (by simpa using hfuel)

/-- **`listSearchKey`** -/
theorem listSearchKey_meets [DecidableEq α] (h : HoldsList μ list m l) (key : α) :
    Meets (listSearchKey list key) μ fun r μ' => μ' = μ ∧
      r = (l.find? fun e => m.finds key e.2).map Prod.fst := by
  have hlen : l.length ≤ μ.next := by
    have hle := Memory.length_le_next h.nodup fun p hp => h.live (List.mem_cons_of_mem list hp)
    rwa [nodesOf, List.length_map] at hle
  obtain ⟨-, next, prev, hfits, -⟩ := id h
  unfold listSearchKey
  apply (listRewind_meets h).bind
  rintro r μ' ⟨rfl, rfl⟩
  apply meets_loadList_bind hfits.list
  apply meets_fuel_bind
  exact searchFrom_meets [] h (by omega)

end Iterating

/-! ## Copying -/

section Copying

variable {list copy : ℕ} {m : ListMethods α} {grant : ℕ → Bool}

/-- A copy of the values `vs` whose first node is request `n` is given up, with the values
`cs` in it: at the first value that `dup` refuses or for whose copy there is no memory.  In
the second case that copy is not among them. -/
def GivesUp (m : ListMethods α) (grant : ℕ → Bool) (n : ℕ) (vs cs : List α) : Prop :=
  ∃ done v rest, vs = done ++ v :: rest ∧ done.map m.copyOf = cs.map some ∧
    (∀ i < done.length, grant (n + i) = true) ∧
    (m.copyOf v = none ∨ grant (n + done.length) = false)

theorem givesUp_here {n : ℕ} {v : α} {vs : List α} (h : m.copyOf v = none ∨ grant n = false) :
    GivesUp m grant n (v :: vs) [] :=
  ⟨[], v, vs, rfl, rfl, fun i hi => absurd hi (Nat.not_lt_zero i), h⟩

theorem GivesUp.later {n : ℕ} {v c : α} {vs cs : List α} (h : GivesUp m grant (n + 1) vs cs)
    (hcopy : m.copyOf v = some c) (hyes : grant n = true) :
    GivesUp m grant n (v :: vs) (c :: cs) := by
  obtain ⟨done, x, rest, rfl, hdone, hgrant, hend⟩ := h
  refine ⟨v :: done, x, rest, rfl, ?_, fun i hi => ?_, ?_⟩
  · rw [List.map_cons, List.map_cons, hcopy, hdone]
  · cases i with
    | zero => exact hyes
    | succ i =>
      have hi' := hgrant i (Nat.lt_of_succ_lt_succ hi)
      rwa [Nat.add_right_comm] at hi'
  · rw [List.length_cons, ← Nat.add_assoc, Nat.add_right_comm]
    exact hend

/-- The rest `l₂` of the list is copied behind the copies of the nodes before. -/
theorem dupFrom_meets {l₂ : List (ℕ × α)} : ∀ {μ : Memory (ListObject α)} (l₁ : List (ℕ × α))
    {lc : List (ℕ × α)} {fuel : ℕ}, HoldsList μ list m (l₁ ++ l₂) → HoldsList μ copy m lc →
    (∀ p ∈ copy :: nodesOf lc, p ∉ list :: nodesOf (l₁ ++ l₂)) → l₂.length < fuel →
      Meets (dupFrom grant copy m fuel ⟨(nodesOf l₂).head?, .startHead⟩) μ fun r μ' =>
        HoldsList μ' list m (l₁ ++ l₂) ∧
        ((∃ l', r = (some copy, []) ∧ HoldsList μ' copy m l' ∧
            (l'.map fun e => some e.2) = (lc.map fun e => some e.2) ++ l₂.map (fun e => m.copyOf e.2) ∧
            (∀ i < l₂.length, grant (μ.next + i) = true) ∧
            Swaps (copy :: nodesOf lc) (copy :: nodesOf l') μ μ') ∨
          (∃ cs, r = (none, m.freed (lc.map Prod.snd ++ cs)) ∧
            GivesUp m grant μ.next (l₂.map Prod.snd) cs ∧ Swaps (copy :: nodesOf lc) [] μ μ')) := by
  induction l₂ with
  | nil =>
    intro μ l₁ lc fuel h hc hapart hfuel
    obtain ⟨n, rfl⟩ : ∃ n, fuel = n + 1 := ⟨fuel - 1, by simp at hfuel; omega⟩
    exact meets_pure ⟨h, Or.inl ⟨lc, rfl, hc, by simp, fun i hi => absurd hi (Nat.not_lt_zero i),
      Swaps.refl _ μ⟩⟩
  | cons e l₂ ih =>
    intro μ l₁ lc fuel h hc hapart hfuel
    obtain ⟨n, rfl⟩ : ∃ n, fuel = n + 1 := ⟨fuel - 1, by simp at hfuel; omega⟩
    obtain ⟨-, next, prev, hfits, -⟩ := id h
    -- the original is not touched when the copy is
    have hkeep : ∀ (μ' : Memory (ListObject α)) (F : List ℕ),
        (∀ p ∈ F, p ∈ copy :: nodesOf lc ∨ p = μ.next) →
        Swaps (copy :: nodesOf lc) F μ μ' → HoldsList μ' list m (l₁ ++ e :: l₂) := by
      intro μ' F hF hswap
      apply h.frame
      intro p hp
      apply hswap.same p
      · exact fun hin => hapart p hin hp
      · intro hin
        rcases hF p hin with hin | rfl
        · exact hapart p hin hp
        · exact Memory.ne_next (h.live hp) rfl
    unfold dupFrom
    rw [nodesOf_cons, List.head?_cons]
    apply (listNext_meets_head h).bind
    rintro r μ₀ ⟨rfl, rfl⟩
    apply meets_loadNode_bind (hfits.node e (by simp))
    dsimp only
    cases hcopy : m.copyOf e.2 with
    | none =>
      apply (listRelease_meets hc).bind
      rintro destroyed μ' ⟨rfl, -, hswap⟩
      refine meets_pure ⟨hkeep μ' [] (fun p hp => absurd hp List.not_mem_nil) hswap,
        Or.inr ⟨[], ?_, givesUp_here (Or.inl hcopy), hswap⟩⟩
      rw [List.append_nil]
    | some value =>
      apply (listAddNodeTail_meets hc value).bind
      rintro r μ₁ ⟨hnext₁, ⟨rfl, hno, hc₁, hswap₁⟩ | ⟨rfl, hyes, hc₁, hswap₁⟩⟩
      · apply (listRelease_meets hc₁).bind
        rintro destroyed μ' ⟨rfl, -, hswap⟩
        have hall := hswap₁.trans hswap
        refine meets_pure ⟨hkeep μ' [] (fun p hp => absurd hp List.not_mem_nil) hall,
          Or.inr ⟨[], ?_, givesUp_here (Or.inr hno), hall⟩⟩
        rw [List.append_nil]
      · have hsplit : l₁ ++ e :: l₂ = (l₁ ++ [e]) ++ l₂ := by simp
        have h₁ := hkeep μ₁ (copy :: nodesOf (lc ++ [(μ₀.next, value)])) (by
          intro p hp
          simp only [nodesOf_append, nodesOf_cons, nodesOf_nil, List.mem_cons, List.mem_append,
            List.not_mem_nil, or_false] at hp ⊢
          tauto) hswap₁
        have hapart₁ : ∀ p ∈ copy :: nodesOf (lc ++ [(μ₀.next, value)]),
            p ∉ list :: nodesOf (l₁ ++ e :: l₂) := by
          intro p hp hin
          simp only [nodesOf_append, nodesOf_cons, nodesOf_nil, List.mem_cons, List.mem_append,
            List.not_mem_nil, or_false] at hp
          rcases hp with rfl | hp | rfl
          · exact hapart p List.mem_cons_self hin
          · exact hapart p (List.mem_cons_of_mem _ hp) hin
          · exact Memory.ne_next (h.live hin) rfl
        rw [hsplit] at h₁ hapart₁
        dsimp only
        apply (ih _ h₁ hc₁ hapart₁ (by simpa using hfuel)).mono
        rintro r μ' ⟨h', hr⟩
        rw [← hsplit] at h'
        refine ⟨h', ?_⟩
        rcases hr with ⟨l', rfl, hc', hvalues, hgrant, hswap⟩ | ⟨cs, rfl, hgives, hswap⟩
        · refine Or.inl ⟨l', rfl, hc', ?_, fun i hi => ?_, hswap₁.trans hswap⟩
          · rw [hvalues, List.map_append, List.map_cons, List.map_cons, hcopy, List.append_assoc]
            rfl
          · cases i with
            | zero => exact hyes
            | succ i =>
              have hi' := hgrant i (Nat.lt_of_succ_lt_succ hi)
              rwa [hnext₁, Nat.add_right_comm] at hi'
        · refine Or.inr ⟨value :: cs, ?_, ?_, hswap₁.trans hswap⟩
          · rw [List.map_append, List.append_assoc]
            rfl
          · rw [hnext₁] at hgives
            exact hgives.later hcopy hyes

/-- **`listDup` copies the list** if `dup` and every allocation succeed, and otherwise leaves no
trace; the original is not touched.  When a copy is given up, `free` is called on the values in
it: on the copies of the values before the one at which it stopped. -/
theorem listDup_meets {μ : Memory (ListObject α)} {l : List (ℕ × α)} (h : HoldsList μ list m l) :
    Meets (listDup grant list) μ fun r μ' => HoldsList μ' list m l ∧
      ((∃ copy l', r = (some copy, []) ∧ HoldsList μ' copy m l' ∧
          (l'.map fun e => some e.2) = l.map (fun e => m.copyOf e.2) ∧
          (∀ i ≤ l.length, grant (μ.next + i) = true) ∧ Swaps [] (copy :: nodesOf l') μ μ') ∨
        (grant μ.next = false ∧ r = (none, []) ∧ μ'.cells = μ.cells) ∨
        (∃ cs, grant μ.next = true ∧ GivesUp m grant (μ.next + 1) (l.map Prod.snd) cs ∧
          r = (none, m.freed cs) ∧ μ'.cells = μ.cells)) := by
  obtain ⟨hnodup, next, prev, hfits, -⟩ := id h
  unfold listDup
  apply meets_loadList_bind hfits.list
  unfold listCreate
  apply meets_alloc_bind
  · exact fun hno => meets_pure ⟨h.frame fun _ _ => rfl, Or.inr (Or.inl ⟨hno, rfl, rfl⟩)⟩
  intro hyes
  have hold : ∀ p ∈ list :: nodesOf l, p ≠ μ.next := fun p hp => Memory.ne_next (h.live hp)
  have h₁ : HoldsList (μ.push (.list { methods := m })) list m l := h.frame fun p hp =>
    μ.cells_push_of_ne (hold p hp)
  have hc := holds_created μ m
  have hpush := swaps_push (F := []) (μ := μ) (.list { methods := m } : ListObject α)
  have hlen : l.length ≤ μ.next := by
    have hle := Memory.length_le_next hnodup fun p hp => h.live (List.mem_cons_of_mem list hp)
    rwa [nodesOf, List.length_map] at hle
  dsimp only
  apply (listRewind_meets h₁).bind
  rintro r μ₁ ⟨rfl, rfl⟩
  apply meets_fuel_bind
  apply (dupFrom_meets [] h₁ hc (by
    intro p hp hin
    rw [nodesOf_nil, List.mem_singleton] at hp
    exact hold p hin hp) (by rw [Memory.next_push]; omega)).mono
  rintro r μ' ⟨h', ⟨l', rfl, hc', hvalues, hgrant, hswap⟩ | ⟨cs, rfl, hgives, hswap⟩⟩
  · refine ⟨h', Or.inl ⟨μ.next, l', rfl, hc', hvalues, fun i hi => ?_, hpush.trans hswap⟩⟩
    cases i with
    | zero => exact hyes
    | succ i =>
      have hi' := hgrant i hi
      rwa [Memory.next_push, Nat.add_right_comm] at hi'
  · exact ⟨h', Or.inr (Or.inr ⟨cs, hyes, hgives, rfl, (hpush.trans hswap).cells_eq⟩)⟩

/-- A list of two nodes. -/
def pair (m : ListMethods ℕ) (v w : ℕ) : Memory (ListObject ℕ) :=
  ((Memory.empty.push (.list ⟨some 1, some 2, 2, m⟩)).push (.node ⟨none, some 2, v⟩)).push
    (.node ⟨some 1, none, w⟩)

theorem holds_pair (m : ListMethods ℕ) (v w : ℕ) : HoldsList (pair m v w) 0 m [(1, v), (2, w)] := by
  refine ⟨by simp, fun p => if p = none then some 1 else if p = some 1 then some 2 else none,
    fun p => if p = none then some 2 else if p = some 2 then some 1 else none, ⟨rfl, ?_⟩,
    by simp [LinkRing, LinkPath]⟩
  intro e he
  simp only [List.mem_cons, List.not_mem_nil, or_false] at he
  rcases he with rfl | rfl
  · rfl
  · rfl

/-- Values are copied to their successors. -/
def successors : ListMethods ℕ := { dup := some fun v => some (v + 1), free := true }

/-- The list and its first node are allocated, and the second node is refused: `free` is called
on the copy in the first node, and not on the other one. -/
theorem listDup_meets_pair :
    Meets (listDup (fun n => n != 5) 0) (pair successors 10 20) fun r μ' =>
      r = (none, [11]) ∧ μ'.cells = (pair successors 10 20).cells := by
  refine (listDup_meets (holds_pair successors 10 20)).mono fun r μ' ⟨_, hr⟩ => ?_
  rcases hr with ⟨_, _, -, -, -, hgrant, -⟩ | ⟨hno, -⟩ | ⟨cs, -, hgives, rfl, hcells⟩
  · exact absurd (hgrant 2 (by decide)) (by decide)
  · exact absurd hno (by decide)
  · refine ⟨?_, hcells⟩
    obtain ⟨done, v, rest, hvs, hdone, hgrant, hend⟩ := hgives
    rcases done with _ | ⟨x, _ | ⟨y, done⟩⟩
    · obtain ⟨rfl, -⟩ := List.cons.inj hvs
      rcases hend with hend | hend
      · cases hend
      · exact absurd hend (by decide)
    · -- the copy of the first value is the only one
      obtain ⟨rfl, -⟩ := List.cons.inj hvs
      obtain ⟨c, rfl⟩ : ∃ c, cs = [c] := by
        rw [← List.length_eq_one_iff, ← List.length_map (f := some), ← hdone]
        rfl
      obtain rfl := Option.some.inj (List.singleton_inj.mp hdone)
      rfl
    · exact absurd (hgrant 1 (by simp)) (by decide)

end Copying

end Adlist
