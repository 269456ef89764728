/-
# Linked lists in memory

`adlist.c`: a `hilist` points to the first and the last of its nodes, and a node to its neighbours.
The rest of the development works with lists; here is the code below them, over a `Memory` of
lists and nodes.

* Addresses are never `NULL`, which is `none`.
* The methods of a list are those that its user has set.  `free` only says whether there is
  such a method: the values on which it is called are part of the results.
* `grant` says which requests of memory are fulfilled.

Embedded source (`adlist.c`, `adlist.h`): `listCreate`, `listRelease`, `listAddNodeHead`,
`listAddNodeTail`, `listInsertNode`, `listDelNode`, `listRewind`, `listRewindTail`, `listNext`,
`listDup`, `listSearchKey`, `listIndex`, `listRotate`.
-/
import HiredisCluster.Lib.Memory
import Mathlib.Data.Int.Notation

namespace Adlist

open Procedure

variable {α : Type}

/-! ## Objects -/

/-- `listNode` -/
structure ListNode (α : Type) where
  prev : Option ℕ
  next : Option ℕ
  value : α

/-- The methods of a `hilist`. -/
structure ListMethods (α : Type) where
  dup : Option (α → Option α) := none
  free : Bool := false
  isMatch : Option (α → α → Bool) := none

/-- `hilist` -/
structure HiList (α : Type) where
  head : Option ℕ := none
  tail : Option ℕ := none
  len : ℕ := 0
  methods : ListMethods α := {}

inductive ListObject (α : Type) where
  | node (n : ListNode α)
  | list (l : HiList α)

/-- A routine of `adlist.c`. -/
abbrev ListRoutine (α : Type) := Procedure (ListObject α)

def loadNode (p : ℕ) : ListRoutine α (ListNode α) := do
  match ← load p with
  | .node n => pure n
  | _ => fault

def loadList (p : ℕ) : ListRoutine α (HiList α) := do
  match ← load p with
  | .list l => pure l
  | _ => fault

/-- `node->prev = x` -/
def setPrev (node : ℕ) (x : Option ℕ) : ListRoutine α Unit := do
  let n ← loadNode node
  store node (.node { n with prev := x })

/-- `node->next = x` -/
def setNext (node : ℕ) (x : Option ℕ) : ListRoutine α Unit := do
  let n ← loadNode node
  store node (.node { n with next := x })

/-- `list->head = x` -/
def setHead (list : ℕ) (x : Option ℕ) : ListRoutine α Unit := do
  let l ← loadList list
  store list (.list { l with head := x })

/-- `list->tail = x` -/
def setTail (list : ℕ) (x : Option ℕ) : ListRoutine α Unit := do
  let l ← loadList list
  store list (.list { l with tail := x })

/-- `list->len = n` -/
def setLen (list n : ℕ) : ListRoutine α Unit := do
  let l ← loadList list
  store list (.list { l with len := n })

/-- `if (x) x->next = y; else list->head = y;` -/
def linkNext (list : ℕ) (x y : Option ℕ) : ListRoutine α Unit :=
  match x with
  | some p => setNext p y
  | none => setHead list y

/-- `if (x) x->prev = y; else list->tail = y;` -/
def linkPrev (list : ℕ) (x y : Option ℕ) : ListRoutine α Unit :=
  match x with
  | some p => setPrev p y
  | none => setTail list y

/-- A pointer that the code follows without a test. -/
def notNull : Option ℕ → ListRoutine α ℕ
  | none => fault
  | some p => pure p

/-! ## Adding and removing nodes -/

section Operations

variable (grant : ℕ → Bool)

/-- `listCreate`, and what the user of the list sets as its methods -/
def listCreate (methods : ListMethods α) : ListRoutine α (Option ℕ) :=
  alloc grant (.list { methods })

/-- `listAddNodeHead` -/
def listAddNodeHead (list : ℕ) (value : α) : ListRoutine α (Option ℕ) := do
  match ← alloc grant (.node ⟨none, none, value⟩) with
  | none => pure none
  | some node => do
    let l ← loadList list
    if l.len = 0 then do
      setTail list (some node)
      setHead list (some node)
      setNext node none
      setPrev node none
    else do
      setPrev node none
      setNext node l.head
      let head ← notNull l.head
      setPrev head (some node)
      setHead list (some node)
    setLen list (l.len + 1)
    pure (some list)

/-- `listAddNodeTail` -/
def listAddNodeTail (list : ℕ) (value : α) : ListRoutine α (Option ℕ) := do
  match ← alloc grant (.node ⟨none, none, value⟩) with
  | none => pure none
  | some node => do
    let l ← loadList list
    if l.len = 0 then do
      setTail list (some node)
      setHead list (some node)
      setNext node none
      setPrev node none
    else do
      setPrev node l.tail
      setNext node none
      let tail ← notNull l.tail
      setNext tail (some node)
      setTail list (some node)
    setLen list (l.len + 1)
    pure (some list)

/-- `listInsertNode` -/
def listInsertNode (list oldNode : ℕ) (value : α) (after : Bool) : ListRoutine α (Option ℕ) := do
  match ← alloc grant (.node ⟨none, none, value⟩) with
  | none => pure none
  | some node => do
    let old ← loadNode oldNode
    let l ← loadList list
    if after then do
      setPrev node (some oldNode)
      setNext node old.next
      if l.tail = some oldNode then setTail list (some node) else pure ()
    else do
      setNext node (some oldNode)
      setPrev node old.prev
      if l.head = some oldNode then setHead list (some node) else pure ()
    let n ← loadNode node
    match n.prev with
    | none => pure ()
    | some prev => setNext prev (some node)
    let n ← loadNode node
    match n.next with
    | none => pure ()
    | some next => setPrev next (some node)
    setLen list (l.len + 1)
    pure (some list)

end Operations

/-- `listDelNode`; the result are the values on which `list->free` is called. -/
def listDelNode (list node : ℕ) : ListRoutine α (List α) := do
  let n ← loadNode node
  linkNext list n.prev n.next
  let n ← loadNode node
  linkPrev list n.next n.prev
  let l ← loadList list
  free node
  setLen list (l.len - 1)
  pure (if l.methods.free then [n.value] else [])

/-- The loop of `listRelease` over `len` nodes. -/
def releaseNodes (methods : ListMethods α) : ℕ → Option ℕ → ListRoutine α (List α)
  | 0, _ => pure []
  | len + 1, current => do
    let p ← notNull current
    let n ← loadNode p
    free p
    let rest ← releaseNodes methods len n.next
    pure (if methods.free then n.value :: rest else rest)

/-- `listRelease`; the result are the values on which `list->free` is called. -/
def listRelease (list : ℕ) : ListRoutine α (List α) := do
  let l ← loadList list
  let destroyed ← releaseNodes l.methods l.len l.head
  free list
  pure destroyed

/-- `listRotate` -/
def listRotate (list : ℕ) : ListRoutine α Unit := do
  let l ← loadList list
  if l.len ≤ 1 then pure ()
  else do
    let tail ← notNull l.tail
    let t ← loadNode tail
    setTail list t.prev
    let last ← notNull t.prev
    setNext last none
    let head ← notNull l.head
    setPrev head (some tail)
    setPrev tail none
    setNext tail (some head)
    setHead list (some tail)

/-! ## Iterating -/

/-- `AL_START_HEAD` and `AL_START_TAIL` -/
inductive Direction where
  | startHead | startTail
  deriving DecidableEq

/-- `listIter` -/
structure ListIter where
  next : Option ℕ
  direction : Direction
  deriving DecidableEq

/-- `listRewind` -/
def listRewind (list : ℕ) : ListRoutine α ListIter := do
  let l ← loadList list
  pure ⟨l.head, .startHead⟩

/-- `listRewindTail` -/
def listRewindTail (list : ℕ) : ListRoutine α ListIter := do
  let l ← loadList list
  pure ⟨l.tail, .startTail⟩

/-- `listNext` -/
def listNext (iter : ListIter) : ListRoutine α (Option ℕ × ListIter) :=
  match iter.next with
  | none => pure (none, iter)
  | some current => do
    let n ← loadNode current
    match iter.direction with
    | .startHead => pure (some current, { iter with next := n.next })
    | .startTail => pure (some current, { iter with next := n.prev })

/-- Whether a value is the one that is searched for. -/
def ListMethods.finds [DecidableEq α] (methods : ListMethods α) (key value : α) : Bool :=
  match methods.isMatch with
  | some isMatch => isMatch value key
  | none => key = value

/-- The loop of `listSearchKey`. -/
def searchFrom [DecidableEq α] (methods : ListMethods α) (key : α) :
    ℕ → ListIter → ListRoutine α (Option ℕ)
  | 0, _ => fault
  | fuel + 1, iter => do
    match ← listNext iter with
    | (none, _) => pure none
    | (some node, iter) => do
      let n ← loadNode node
      if methods.finds key n.value then pure (some node) else searchFrom methods key fuel iter

/-- `listSearchKey` -/
def listSearchKey [DecidableEq α] (list : ℕ) (key : α) : ListRoutine α (Option ℕ) := do
  let iter ← listRewind list
  let l ← loadList list
  let fuel ← fuel
  searchFrom l.methods key (fuel + 1) iter

/-- `while (index-- && n) n = …` -/
def walk (step : ListNode α → Option ℕ) : ℕ → Option ℕ → ListRoutine α (Option ℕ)
  | 0, n => pure n
  | _ + 1, none => pure none
  | index + 1, some p => do
    let n ← loadNode p
    walk step index (step n)

/-- `listIndex` -/
def listIndex (list : ℕ) (index : ℤ) : ListRoutine α (Option ℕ) := do
  let l ← loadList list
  if index < 0 then walk ListNode.prev (-index - 1).toNat l.tail
  else walk ListNode.next index.toNat l.head

/-! ## Copying -/

/-- The value of a copied node. -/
def ListMethods.copyOf (methods : ListMethods α) (value : α) : Option α :=
  match methods.dup with
  | some dup => dup value
  | none => some value

/-- The loop of `listDup`. -/
def dupFrom (grant : ℕ → Bool) (copy : ℕ) (methods : ListMethods α) :
    ℕ → ListIter → ListRoutine α (Option ℕ × List α)
  | 0, _ => fault
  | fuel + 1, iter => do
    match ← listNext iter with
    | (none, _) => pure (some copy, [])
    | (some node, iter) => do
      let n ← loadNode node
      match methods.copyOf n.value with
      | none => do
        let destroyed ← listRelease copy
        pure (none, destroyed)
      | some value =>
        match ← listAddNodeTail grant copy value with
        | none => do
          let destroyed ← listRelease copy
          pure (none, destroyed)
        | some _ => dupFrom grant copy methods fuel iter

/-- `listDup`; with the values on which `copy->free` is called when the copy is given up. -/
def listDup (grant : ℕ → Bool) (orig : ℕ) : ListRoutine α (Option ℕ × List α) := do
  let l ← loadList orig
  match ← listCreate grant l.methods with
  | none => pure (none, [])
  | some copy => do
    let iter ← listRewind orig
    let fuel ← fuel
    dupFrom grant copy l.methods (fuel + 1) iter

end Adlist
