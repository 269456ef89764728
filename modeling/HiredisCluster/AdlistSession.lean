/-
# Sessions with a linked list

In a session a list is created, used by any sequence of calls and released.  The calls name nodes by
what earlier calls have returned, and an iteration goes on while nodes are added and removed, the
one that it has returned last among them; only the node that it is about to return has to stay.

`ListSteps` is what the calls do to a list of which each element carries its name.  Whatever they do
there the code does in memory, without an access to an object that does not exist, and at the end
the memory is what it was.
-/
import HiredisCluster.AdlistRing

namespace Adlist

open Procedure

variable {α : Type}

/-! ## Calls -/

/-- A use of a list with one iterator; nodes are named by their addresses. -/
inductive ListCall (α : Type) where
  | addHead (value : α)
  | addTail (value : α)
  | insert (node : ℕ) (value : α) (after : Bool)
  | del (node : ℕ)
  | rotate
  | rewind
  | rewindTail
  | next
  | index (i : ℤ)
  | search (key : α)

/-- The calls that ask for memory. -/
def ListCall.adds : ListCall α → Bool
  | .addHead _ | .addTail _ | .insert _ _ _ => true
  | _ => false

/-- What the user of a list sees. -/
inductive ListAnswer (α : Type) where
  | added (ok : Bool)
  | freed (values : List α)
  | done
  | node (e : Option (ℕ × α))
  deriving DecidableEq

/-- A node together with `listNodeValue` -/
def withValue : Option ℕ → ListRoutine α (Option (ℕ × α))
  | none => pure none
  | some p => do
    let n ← loadNode p
    pure (some (p, n.value))

section Calls

variable [DecidableEq α] (grant : ℕ → Bool)

/-- A call with the code of `adlist.c`. -/
def ListCall.perform (list : ℕ) (iter : ListIter) :
    ListCall α → ListRoutine α (ListAnswer α × ListIter)
  | .addHead value => do
    let r ← listAddNodeHead grant list value
    pure (.added r.isSome, iter)
  | .addTail value => do
    let r ← listAddNodeTail grant list value
    pure (.added r.isSome, iter)
  | .insert node value after => do
    let r ← listInsertNode grant list node value after
    pure (.added r.isSome, iter)
  | .del node => do
    let destroyed ← listDelNode list node
    pure (.freed destroyed, iter)
  | .rotate => do
    listRotate list
    pure (.done, iter)
  | .rewind => do
    let iter ← listRewind list
    pure (.done, iter)
  | .rewindTail => do
    let iter ← listRewindTail list
    pure (.done, iter)
  | .next => do
    let r ← listNext iter
    let e ← withValue r.1
    pure (.node e, r.2)
  | .index i => do
    let r ← listIndex list i
    let e ← withValue r
    pure (.node e, iter)
  | .search key => do
    let r ← listSearchKey list key
    let e ← withValue r
    pure (.node e, iter)

def performAll (list : ℕ) : ListIter → List (ListCall α) → ListRoutine α (List (ListAnswer α))
  | _, [] => pure []
  | iter, call :: calls => do
    let r ← call.perform grant list iter
    let answers ← performAll list r.2 calls
    pure (r.1 :: answers)

/-- The life of a list: the answers to the calls, and the values on which `free` is called at its
release; `none` if it cannot be created. -/
def session (m : ListMethods α) (calls : List (ListCall α)) :
    ListRoutine α (Option (List (ListAnswer α) × List α)) := do
  match ← listCreate grant m with
  | none => pure none
  | some list => do
    let answers ← performAll grant list ⟨none, .startHead⟩ calls
    let destroyed ← listRelease list
    pure (some (answers, destroyed))

end Calls

/-! ## The same calls to a list -/

/-- A list whose elements have names, the next new name, and an iterator. -/
structure ListState (α : Type) where
  fresh : ℕ
  nodes : List (ℕ × α)
  iter : ListIter

/-- A call to a list.  A node that is named is in the list, and the iterator goes on from a node
that is. -/
inductive ListSteps [DecidableEq α] (grant : ℕ → Bool) (m : ListMethods α) :
    ListState α → ListCall α → ListAnswer α → ListState α → Prop where
  | addHead {n : ℕ} {l : List (ℕ × α)} {it : ListIter} {v : α} (h : grant n = true) :
      ListSteps grant m ⟨n, l, it⟩ (.addHead v) (.added true) ⟨n + 1, (n, v) :: l, it⟩
  | addTail {n : ℕ} {l : List (ℕ × α)} {it : ListIter} {v : α} (h : grant n = true) :
      ListSteps grant m ⟨n, l, it⟩ (.addTail v) (.added true) ⟨n + 1, l ++ [(n, v)], it⟩
  | insertAfter {n : ℕ} {l₁ l₂ : List (ℕ × α)} {e : ℕ × α} {it : ListIter} {v : α}
      (h : grant n = true) : ListSteps grant m ⟨n, l₁ ++ e :: l₂, it⟩ (.insert e.1 v true)
        (.added true) ⟨n + 1, l₁ ++ e :: (n, v) :: l₂, it⟩
  | insertBefore {n : ℕ} {l₁ l₂ : List (ℕ × α)} {e : ℕ × α} {it : ListIter} {v : α}
      (h : grant n = true) : ListSteps grant m ⟨n, l₁ ++ e :: l₂, it⟩ (.insert e.1 v false)
        (.added true) ⟨n + 1, l₁ ++ (n, v) :: e :: l₂, it⟩
  | refused {n : ℕ} {l : List (ℕ × α)} {it : ListIter} {call : ListCall α} (hcall : call.adds = true)
      (h : grant n = false) :
      ListSteps grant m ⟨n, l, it⟩ call (.added false) ⟨n + 1, l, it⟩
  | del {n : ℕ} {l₁ l₂ : List (ℕ × α)} {e : ℕ × α} {it : ListIter} :
      ListSteps grant m ⟨n, l₁ ++ e :: l₂, it⟩ (.del e.1) (.freed (m.freed [e.2])) ⟨n, l₁ ++ l₂, it⟩
  | rotate {n : ℕ} {l : List (ℕ × α)} {e : ℕ × α} {it : ListIter} :
      ListSteps grant m ⟨n, l ++ [e], it⟩ .rotate .done ⟨n, e :: l, it⟩
  | rotateNil {n : ℕ} {it : ListIter} : ListSteps grant m ⟨n, [], it⟩ .rotate .done ⟨n, [], it⟩
  | rewind {n : ℕ} {l : List (ℕ × α)} {it : ListIter} :
      ListSteps grant m ⟨n, l, it⟩ .rewind .done ⟨n, l, ⟨(nodesOf l).head?, .startHead⟩⟩
  | rewindTail {n : ℕ} {l : List (ℕ × α)} {it : ListIter} :
      ListSteps grant m ⟨n, l, it⟩ .rewindTail .done ⟨n, l, ⟨(nodesOf l).getLast?, .startTail⟩⟩
  | nextHead {n : ℕ} {l₁ l₂ : List (ℕ × α)} {e : ℕ × α} :
      ListSteps grant m ⟨n, l₁ ++ e :: l₂, ⟨some e.1, .startHead⟩⟩ .next (.node (some e))
        ⟨n, l₁ ++ e :: l₂, ⟨(nodesOf l₂).head?, .startHead⟩⟩
  | nextTail {n : ℕ} {l₁ l₂ : List (ℕ × α)} {e : ℕ × α} :
      ListSteps grant m ⟨n, l₁ ++ e :: l₂, ⟨some e.1, .startTail⟩⟩ .next (.node (some e))
        ⟨n, l₁ ++ e :: l₂, ⟨(nodesOf l₁).getLast?, .startTail⟩⟩
  | nextEnd {n : ℕ} {l : List (ℕ × α)} {d : Direction} :
      ListSteps grant m ⟨n, l, ⟨none, d⟩⟩ .next (.node none) ⟨n, l, ⟨none, d⟩⟩
  | index {n : ℕ} {l : List (ℕ × α)} {it : ListIter} {i : ℤ} :
      ListSteps grant m ⟨n, l, it⟩ (.index i)
        (.node (if i < 0 then l.reverse[(-i - 1).toNat]? else l[i.toNat]?)) ⟨n, l, it⟩
  | search {n : ℕ} {l : List (ℕ × α)} {it : ListIter} {key : α} :
      ListSteps grant m ⟨n, l, it⟩ (.search key) (.node (l.find? fun e => m.finds key e.2)) ⟨n, l, it⟩

/-- A sequence of calls to a list. -/
inductive ListReplays [DecidableEq α] (grant : ℕ → Bool) (m : ListMethods α) :
    ListState α → List (ListCall α) → List (ListAnswer α) → ListState α → Prop where
  | nil {s : ListState α} : ListReplays grant m s [] [] s
  | cons {s s₁ s' : ListState α} {call : ListCall α} {answer : ListAnswer α}
      {calls : List (ListCall α)} {answers : List (ListAnswer α)}
      (h : ListSteps grant m s call answer s₁) (hs : ListReplays grant m s₁ calls answers s') :
      ListReplays grant m s (call :: calls) (answer :: answers) s'

section Sessions

variable {μ : Memory (ListObject α)} {list : ℕ} {m : ListMethods α} {grant : ℕ → Bool}

/-- The `hilist` at `list` is the list of the state. -/
structure ListRepresents (μ : Memory (ListObject α)) (list : ℕ) (m : ListMethods α)
    (s : ListState α) : Prop where
  next : μ.next = s.fresh
  holds : HoldsList μ list m s.nodes

/-- The node found is read. -/
theorem withValue_meets {l : List (ℕ × α)} (h : HoldsList μ list m l) {r : Option (ℕ × α)}
    (hr : ∀ e, r = some e → e ∈ l) :
    Meets (withValue (r.map Prod.fst)) μ fun e μ' => μ' = μ ∧ e = r := by
  cases r with
  | none => exact meets_pure ⟨rfl, rfl⟩
  | some e =>
    obtain ⟨-, next, prev, hfits, -⟩ := h
    unfold withValue
    apply meets_loadNode_bind (hfits.node e (hr e rfl))
    exact meets_pure ⟨rfl, rfl⟩

/-- A node has been added, or not. -/
theorem Adds.meets {l l' : List (ℕ × α)} {it : ListIter} {code : ListRoutine α (Option ℕ)}
    {answer : ListAnswer α} {s' : ListState α}
    (hcode : Meets code μ fun r μ' => Adds grant μ list m l l' r μ')
    (hyes : grant μ.next = true → answer = .added true ∧ s' = ⟨μ.next + 1, l', it⟩)
    (hno : grant μ.next = false → answer = .added false ∧ s' = ⟨μ.next + 1, l, it⟩) :
    Meets (do
      let r ← code
      pure (ListAnswer.added r.isSome, it)) μ fun r μ' => r = (answer, s'.iter) ∧
        ListRepresents μ' list m s' ∧ Swaps (list :: nodesOf l) (list :: nodesOf s'.nodes) μ μ' := by
  apply hcode.bind
  rintro r μ' ⟨hnext, ⟨rfl, hg, hholds, hswap⟩ | ⟨rfl, hg, hholds, hswap⟩⟩
  · obtain ⟨rfl, rfl⟩ := hno hg
    exact meets_pure ⟨rfl, ⟨hnext, hholds⟩, hswap⟩
  · obtain ⟨rfl, rfl⟩ := hyes hg
    exact meets_pure ⟨rfl, ⟨hnext, hholds⟩, hswap⟩

variable [DecidableEq α]

/-- **Whatever a call does to the list, the code does in memory.** -/
theorem perform_meets {s s' : ListState α} {call : ListCall α} {answer : ListAnswer α}
    (h : ListRepresents μ list m s) (hstep : ListSteps grant m s call answer s') :
    Meets (call.perform grant list s.iter) μ fun r μ' => r = (answer, s'.iter) ∧
      ListRepresents μ' list m s' ∧
      Swaps (list :: nodesOf s.nodes) (list :: nodesOf s'.nodes) μ μ' := by
  obtain ⟨hnext, hholds⟩ := h
  cases hstep with
  | addHead hg =>
    obtain rfl : μ.next = _ := hnext
    exact Adds.meets (listAddNodeHead_meets hholds _) (fun _ => ⟨rfl, rfl⟩) fun hno => by simp [hg] at hno
  | addTail hg =>
    obtain rfl : μ.next = _ := hnext
    exact Adds.meets (listAddNodeTail_meets hholds _) (fun _ => ⟨rfl, rfl⟩) fun hno => by simp [hg] at hno
  | insertAfter hg =>
    obtain rfl : μ.next = _ := hnext
    exact Adds.meets (listInsertNode_meets_after hholds _) (fun _ => ⟨rfl, rfl⟩)
      fun hno => by simp [hg] at hno
  | insertBefore hg =>
    obtain rfl : μ.next = _ := hnext
    exact Adds.meets (listInsertNode_meets_before hholds _) (fun _ => ⟨rfl, rfl⟩)
      fun hno => by simp [hg] at hno
  | @refused n l it call hcall hg =>
    obtain rfl : μ.next = n := hnext
    have hadds := hholds.refused l hg
    -- none of them looks at the list before it has the memory
    have hcode : ∀ {f : ℕ → ListRoutine α (Option ℕ)} {o : ListObject α},
        Meets (alloc grant o >>= fun r => match r with | none => pure none | some node => f node) μ
          fun r μ' => Adds grant μ list m l l r μ' := by
      intro f o
      apply meets_alloc_bind
      · exact fun _ => meets_pure hadds
      · exact fun hyes => by simp [hg] at hyes
    have hno : grant μ.next = true → ListAnswer.added false = (ListAnswer.added true : ListAnswer α) ∧
        (⟨μ.next + 1, l, it⟩ : ListState α) = ⟨μ.next + 1, l, it⟩ := fun hyes => by simp [hg] at hyes
    cases call with
    | addHead v =>
      exact Adds.meets hcode hno fun _ => ⟨rfl, rfl⟩
    | addTail v =>
      exact Adds.meets hcode hno fun _ => ⟨rfl, rfl⟩
    | insert node v after =>
      exact Adds.meets hcode hno fun _ => ⟨rfl, rfl⟩
    | _ => cases hcall
  | del =>
    apply (listDelNode_meets hholds).bind
    rintro r μ' ⟨rfl, hholds', hnext', hswap⟩
    exact meets_pure ⟨rfl, ⟨hnext'.trans hnext, hholds'⟩, hswap⟩
  | rotate =>
    apply (listRotate_meets hholds).bind
    rintro r μ' ⟨hholds', hnext', hswap⟩
    exact meets_pure ⟨rfl, ⟨hnext'.trans hnext, hholds'⟩, hswap⟩
  | rotateNil =>
    apply (listRotate_meets_nil hholds).bind
    rintro r μ' rfl
    exact meets_pure ⟨rfl, ⟨hnext, hholds⟩, Swaps.refl _ _⟩
  | rewind =>
    apply (listRewind_meets hholds).bind
    rintro r μ' ⟨rfl, rfl⟩
    exact meets_pure ⟨rfl, ⟨hnext, hholds⟩, Swaps.refl _ _⟩
  | rewindTail =>
    apply (listRewindTail_meets hholds).bind
    rintro r μ' ⟨rfl, rfl⟩
    exact meets_pure ⟨rfl, ⟨hnext, hholds⟩, Swaps.refl _ _⟩
  | @nextHead _ l₁ l₂ e =>
    apply (listNext_meets_head hholds).bind
    rintro r μ' ⟨rfl, rfl⟩
    apply (withValue_meets hholds (r := some e) fun x hx => ?_).bind
    · rintro x μ' ⟨rfl, rfl⟩
      exact meets_pure ⟨rfl, ⟨hnext, hholds⟩, Swaps.refl _ _⟩
    · obtain rfl := Option.some.inj hx
      simp
  | @nextTail _ l₁ l₂ e =>
    apply (listNext_meets_tail hholds).bind
    rintro r μ' ⟨rfl, rfl⟩
    apply (withValue_meets hholds (r := some e) fun x hx => ?_).bind
    · rintro x μ' ⟨rfl, rfl⟩
      exact meets_pure ⟨rfl, ⟨hnext, hholds⟩, Swaps.refl _ _⟩
    · obtain rfl := Option.some.inj hx
      simp
  | nextEnd =>
    exact meets_pure ⟨rfl, ⟨hnext, hholds⟩, Swaps.refl _ _⟩
  | @index n l it i =>
    apply (listIndex_meets hholds i).bind
    rintro r μ' ⟨rfl, rfl⟩
    have hmap : (if i < 0 then (nodesOf l).reverse[(-i - 1).toNat]? else (nodesOf l)[i.toNat]?) =
        (if i < 0 then l.reverse[(-i - 1).toNat]? else l[i.toNat]?).map Prod.fst := by
      rw [nodesOf]
      split
      · rw [← List.map_reverse, List.getElem?_map]
      · rw [List.getElem?_map]
    dsimp only
    rw [hmap]
    apply (withValue_meets hholds fun x hx => ?_).bind
    · rintro x μ' ⟨rfl, rfl⟩
      exact meets_pure ⟨rfl, ⟨hnext, hholds⟩, Swaps.refl _ _⟩
    · split at hx
      · exact List.mem_reverse.mp (List.mem_of_getElem? hx)
      · exact List.mem_of_getElem? hx
  | @search n l it key =>
    apply (listSearchKey_meets hholds key).bind
    rintro r μ' ⟨rfl, rfl⟩
    apply (withValue_meets hholds fun x hx => List.mem_of_find?_eq_some hx).bind
    rintro x μ' ⟨rfl, rfl⟩
    exact meets_pure ⟨rfl, ⟨hnext, hholds⟩, Swaps.refl _ _⟩

/-- **Any sequence of calls.** -/
theorem performAll_meets {s s' : ListState α} {calls : List (ListCall α)}
    {answers : List (ListAnswer α)} (hreplays : ListReplays grant m s calls answers s') :
    ∀ {μ : Memory (ListObject α)}, ListRepresents μ list m s →
      Meets (performAll grant list s.iter calls) μ fun r μ' => r = answers ∧
        ListRepresents μ' list m s' ∧
        Swaps (list :: nodesOf s.nodes) (list :: nodesOf s'.nodes) μ μ' := by
  induction hreplays with
  | nil =>
    intro μ h
    exact meets_pure ⟨rfl, h, Swaps.refl _ _⟩
  | cons hstep _ ih =>
    intro μ h
    unfold performAll
    apply (perform_meets h hstep).bind
    rintro r μ₁ ⟨rfl, h₁, hswap₁⟩
    apply (ih h₁).bind
    rintro answers μ' ⟨rfl, h', hswap'⟩
    exact meets_pure ⟨rfl, h', hswap₁.trans hswap'⟩

/-- **The life of a linked list.**  Calls that a list can answer are answered by the code as by the
list, without an access to an object that does not exist; at its release `free` is called on the
values of the nodes that are left, and the memory is what it was. -/
theorem listSession_meets {calls : List (ListCall α)} {answers : List (ListAnswer α)}
    {s : ListState α} (hyes : grant μ.next = true)
    (h : ListReplays grant m ⟨μ.next + 1, [], ⟨none, .startHead⟩⟩ calls answers s) :
    Meets (session grant m calls) μ fun r μ' =>
      r = some (answers, m.freed (s.nodes.map Prod.snd)) ∧ μ'.cells = μ.cells := by
  unfold session listCreate
  apply meets_alloc_bind
  · exact fun hno => by simp [hyes] at hno
  intro _
  have hnew : ListRepresents (μ.push (.list { methods := m })) μ.next m
      ⟨μ.next + 1, [], ⟨none, .startHead⟩⟩ := ⟨rfl, holds_created μ m⟩
  dsimp only
  apply (performAll_meets h hnew).bind
  rintro answers μ₁ ⟨rfl, h₁, hswap⟩
  apply (listRelease_meets h₁.holds).bind
  rintro destroyed μ' ⟨rfl, -, hfreed⟩
  have hall : Swaps [] [] μ μ' := ((swaps_push _).trans hswap).trans hfreed
  exact meets_pure ⟨rfl, hall.cells_eq⟩

end Sessions

/-- The node that has just been returned is deleted, a request is refused, and the list is rotated
while it is iterated over. -/
theorem listSession_deleting :
    Meets (session (fun n => n ≠ 3) { free := true } [.addTail 10, .addTail 20, .addHead 30, .rewind,
        .next, .del 1, .insert 2 15 false, .rotate, .next, .next]) Memory.empty fun r μ' =>
      r = some ([.added true, .added true, .added false, .done, .node (some (1, 10)), .freed [10],
        .added true, .done, .node (some (2, 20)), .node (some (4, 15))], [20, 15]) ∧
        μ'.cells = Memory.empty.cells := by
  apply listSession_meets (s := ⟨5, [(2, 20), (4, 15)], ⟨none, .startHead⟩⟩) rfl
  apply ListReplays.cons (.addTail rfl)
  apply ListReplays.cons (.addTail rfl)
  apply ListReplays.cons (.refused rfl rfl)
  apply ListReplays.cons .rewind
  apply ListReplays.cons (@ListSteps.nextHead _ _ _ _ _ [] _ _)
  apply ListReplays.cons (@ListSteps.del _ _ _ _ _ [] _ _ _)
  apply ListReplays.cons (@ListSteps.insertBefore _ _ _ _ _ [] _ (2, 20) _ _ rfl)
  apply ListReplays.cons (ListSteps.rotate (l := [(4, 15)]))
  apply ListReplays.cons (@ListSteps.nextHead _ _ _ _ _ [] _ _)
  apply ListReplays.cons (@ListSteps.nextHead _ _ _ _ _ [(2, 20)] _ _)
  exact .nil

end Adlist
