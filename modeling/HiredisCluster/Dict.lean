/-
# The dictionary in memory

`dict.c`: a `dict` points to a table of chains, and a chain is a list of entries linked by their
`next` pointers.  The rest of the development works with `HashTable`, a list of lists; here is
the code below it, over a `Memory` of dictionaries, tables and entries.

* Addresses are never `NULL`, which is `none`; a table is one object.
* The functions of the `dictType` are those of the library's two types: keys are compared by
  their contents and neither keys nor values are copied.  Destructors are called by `dictClear`
  on the entries of its result, one after the other.
* `grant` says which requests of memory are fulfilled.

Embedded source (`dict.c`, `dict.h`): `_dictReset`, `dictCreate`, `_dictInit`, `dictExpand`,
`dictAdd`, `dictSetHashVal`, `_dictClear`, `dictRelease`, `dictFind`, `dictInitIterator`, `dictNext`,
`_dictExpandIfNeeded`, `_dictNextPower`, `_dictKeyIndex`.
-/
import HiredisCluster.World
import HiredisCluster.Lib.Chain
import HiredisCluster.Lib.TableIterator

namespace Dict

open Procedure

variable {κ α : Type}

/-! ## Objects -/

/-- `dictEntry` -/
structure DictEntry (κ α : Type) where
  key : κ
  val : α
  next : Option ℕ
  deriving DecidableEq

/-- `dict`, without the type and the data of its functions; the initial values are those of
`_dictReset`. -/
structure DictHeader where
  table : Option ℕ := none
  size : ℕ := 0
  sizemask : ℕ := 0
  used : ℕ := 0
  deriving DecidableEq

inductive DictObject (κ α : Type) where
  | entry (e : DictEntry κ α)
  | table (heads : List (Option ℕ))
  | dict (ht : DictHeader)
  deriving DecidableEq

/-- A routine of `dict.c`. -/
abbrev DictRoutine (κ α : Type) := Procedure (DictObject κ α)

def loadEntry (p : ℕ) : DictRoutine κ α (DictEntry κ α) := do
  match ← load p with
  | .entry e => pure e
  | _ => fault

def loadTable (p : Option ℕ) : DictRoutine κ α (List (Option ℕ)) :=
  match p with
  | none => fault
  | some p => do
    match ← load p with
    | .table heads => pure heads
    | _ => fault

def storeTable (p : Option ℕ) (heads : List (Option ℕ)) : DictRoutine κ α Unit :=
  match p with
  | none => fault
  | some p => store p (.table heads)

def loadDict (p : ℕ) : DictRoutine κ α DictHeader := do
  match ← load p with
  | .dict ht => pure ht
  | _ => fault

/-- `heads[h]` -/
def headAt (heads : List (Option ℕ)) (h : ℕ) : DictRoutine κ α (Option ℕ) :=
  match heads[h]? with
  | none => fault
  | some p => pure p

/-! ## Growing -/

/-- `DICT_HT_INITIAL_SIZE` -/
def dictHtInitialSize : ℕ := 4

/-- `LONG_MAX` -/
def longMax : ℕ := 2 ^ 63 - 1

/-- The loop of `_dictNextPower` from `i` on; `i` has doubled 61 times before it overflows. -/
def doubleUpTo (size : ℕ) : ℕ → ℕ → ℕ
  | 0, i => i
  | n + 1, i => if size ≤ i then i else doubleUpTo size n (i * 2)

/-- `_dictNextPower` -/
def dictNextPower (size : ℕ) : ℕ :=
  if longMax ≤ size then longMax else doubleUpTo size 61 dictHtInitialSize

section Operations

variable (grant : ℕ → Bool) (hash : κ → ℕ)

/-- `dictCreate` -/
def dictCreate : DictRoutine κ α (Option ℕ) := alloc grant (.dict {})

/-- The chain from `he` on is moved to the table `table`; the result is what `ht->used` has come
down to. -/
def moveChain (table sizemask : ℕ) : ℕ → Option ℕ → ℕ → DictRoutine κ α ℕ
  | _, none, used => pure used
  | 0, some _, _ => fault
  | fuel + 1, some he, used => do
    let e ← loadEntry he
    let heads ← loadTable (some table)
    let first ← headAt heads (hash e.key &&& sizemask)
    store he (.entry { e with next := first })
    storeTable (some table) (heads.set (hash e.key &&& sizemask) (some he))
    moveChain table sizemask fuel e.next (used - 1)

/-- The loop of `dictExpand` over the `n` chains from number `i` on, as long as there are
entries left. -/
def moveTable (table sizemask : ℕ) (old : Option ℕ) : ℕ → ℕ → ℕ → DictRoutine κ α ℕ
  | 0, _, used => pure used
  | n + 1, i, used =>
    if used = 0 then pure used
    else do
      let heads ← loadTable old
      let he ← headAt heads i
      let fuel ← fuel
      let used ← moveChain hash table sizemask fuel he used
      moveTable table sizemask old n (i + 1) used

/-- `dictExpand` -/
def dictExpand (ht size : ℕ) : DictRoutine κ α Status := do
  let d ← loadDict ht
  if size < d.used then pure .err
  else do
    match ← alloc grant (.table (List.replicate (dictNextPower size) none)) with
    | none => pure .err
    | some table => do
      let used ← moveTable hash table (dictNextPower size - 1) d.table d.size 0 d.used
      -- the assertion that all entries have been moved
      if used ≠ 0 then fault
      else do
        freeOpt d.table
        store ht (.dict ⟨some table, dictNextPower size, dictNextPower size - 1, d.used⟩)
        pure .ok

/-- `_dictExpandIfNeeded` -/
def dictExpandIfNeeded (ht : ℕ) : DictRoutine κ α Status := do
  let d ← loadDict ht
  if d.size = 0 then dictExpand grant hash ht dictHtInitialSize
  else if d.used = d.size then dictExpand grant hash ht (d.size * 2 % 2 ^ 64)
  else pure .ok

/-! ## Looking up and adding -/

/-- The loop over a chain that looks for a key. -/
def searchChain [DecidableEq κ] (key : κ) : ℕ → Option ℕ → DictRoutine κ α (Option ℕ)
  | _, none => pure none
  | 0, some _ => fault
  | fuel + 1, some he => do
    let e ← loadEntry he
    if key = e.key then pure (some he) else searchChain key fuel e.next

variable [DecidableEq κ]

/-- `dictFind` -/
def dictFind (ht : ℕ) (key : κ) : DictRoutine κ α (Option ℕ) := do
  let d ← loadDict ht
  if d.size = 0 then pure none
  else do
    let heads ← loadTable d.table
    let he ← headAt heads (hash key &&& d.sizemask)
    let fuel ← fuel
    searchChain key fuel he

/-- `_dictKeyIndex` -/
def dictKeyIndex (ht : ℕ) (key : κ) : DictRoutine κ α ℤ := do
  match ← dictExpandIfNeeded grant hash ht with
  | .err => pure (-1)
  | .ok => do
    let d ← loadDict ht
    let heads ← loadTable d.table
    let he ← headAt heads (hash key &&& d.sizemask)
    let fuel ← fuel
    match ← searchChain key fuel he with
    | some _ => pure (-1)
    | none => pure (toInt32 (hash key &&& d.sizemask : ℕ))

/-- `dictAdd` -/
def dictAdd (ht : ℕ) (key : κ) (val : α) : DictRoutine κ α Status := do
  let index ← dictKeyIndex grant hash ht key
  if index = -1 then pure .err
  else do
    match ← alloc grant (.entry ⟨key, val, none⟩) with
    | none => pure .err
    | some entry => do
      let d ← loadDict ht
      let heads ← loadTable d.table
      if index < 0 then fault
      else do
        let first ← headAt heads index.toNat
        store entry (.entry ⟨key, val, first⟩)
        storeTable d.table (heads.set index.toNat (some entry))
        store ht (.dict { d with used := d.used + 1 })
        pure .ok

end Operations

/-- `dictSetHashVal`, on the entry at `entry` -/
def dictSetHashVal (entry : ℕ) (val : α) : DictRoutine κ α Unit := do
  let e ← loadEntry entry
  store entry (.entry { e with val := val })

/-! ## Releasing -/

/-- The entries of a chain are freed; the result is what is left of `ht->used`, and the keys and
values on which the destructors were called. -/
def clearChain : ℕ → Option ℕ → ℕ → DictRoutine κ α (ℕ × List (κ × α))
  | _, none, used => pure (used, [])
  | 0, some _, _ => fault
  | fuel + 1, some he, used => do
    let e ← loadEntry he
    free he
    let r ← clearChain fuel e.next (used - 1)
    pure (r.1, (e.key, e.val) :: r.2)

/-- The loop of `_dictClear` over the `n` chains from number `i` on. -/
def clearTable (table : Option ℕ) : ℕ → ℕ → ℕ → DictRoutine κ α (List (κ × α))
  | 0, _, _ => pure []
  | n + 1, i, used =>
    if used = 0 then pure []
    else do
      let heads ← loadTable table
      let he ← headAt heads i
      let fuel ← fuel
      let r ← clearChain fuel he used
      let rest ← clearTable table n (i + 1) r.1
      pure (r.2 ++ rest)

/-- `_dictClear` -/
def dictClear (ht : ℕ) : DictRoutine κ α (List (κ × α)) := do
  let d ← loadDict ht
  let destroyed ← clearTable d.table d.size 0 d.used
  freeOpt d.table
  store ht (.dict {})
  pure destroyed

/-- `dictRelease` -/
def dictRelease (ht : ℕ) : DictRoutine κ α (List (κ × α)) := do
  let destroyed ← dictClear ht
  free ht
  pure destroyed

/-! ## Iterating -/

/-- `dictIterator` -/
structure DictIterator where
  ht : ℕ
  index : ℤ
  entry : Option ℕ
  nextEntry : Option ℕ
  deriving DecidableEq

/-- `dictInitIterator` -/
def dictInitIterator (ht : ℕ) : DictIterator := ⟨ht, -1, none, none⟩

/-- A turn of the loop of `dictNext` up to the test of `iter->entry`; it says whether the loop
was left before that. -/
def advance (iter : DictIterator) : DictRoutine κ α (Bool × DictIterator) :=
  match iter.entry with
  | some _ => pure (false, { iter with entry := iter.nextEntry })
  | none => do
    let d ← loadDict iter.ht
    if toInt32 d.size ≤ iter.index + 1 then pure (true, { iter with index := iter.index + 1 })
    else do
      let heads ← loadTable d.table
      let he ← headAt heads (iter.index + 1).toNat
      pure (false, { iter with index := iter.index + 1, entry := he })

/-- The loop of `dictNext`. -/
def nextFrom : ℕ → DictIterator → DictRoutine κ α (Option ℕ × DictIterator)
  | 0, _ => fault
  | fuel + 1, iter => do
    match ← advance iter with
    | (true, iter) => pure (none, iter)
    | (false, iter) =>
      match iter.entry with
      | none => nextFrom fuel iter
      | some he => do
        let e ← loadEntry he
        pure (some he, { iter with nextEntry := e.next })

/-- `dictNext`.  The index counts up to the size of the table, which is below `2 ^ 31` as an
`int`. -/
def dictNext (iter : DictIterator) : DictRoutine κ α (Option ℕ × DictIterator) :=
  nextFrom (2 ^ 31 + 2) iter

end Dict
