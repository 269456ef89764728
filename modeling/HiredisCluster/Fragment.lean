/-
# Splitting a command by slot, and merging the replies

A command whose keys belong to several slots is split into one fragment per slot,
in the order of the slots; each fragment has the keys of its slot in the order of
the command.  The replies to the fragments are merged into one.

Embedded source: `_hi_itoa`, `_uint_len` (`hiutil.c`), `command_get`
(`command.c`), `command_pre_fragment`, `command_post_fragment` and
`command_format_by_slot` (`hircluster.c`).
-/
import HiredisCluster.Command
import HiredisCluster.Hiredis

open Program

variable {ω : Type}

/-! ## The bytes of a fragment -/

/-- `_hi_itoa` into a buffer that holds `prev`.  A zero is written without the
terminating NUL, so what `prev` had after its first character stays. -/
def hiItoa (prev : Bytes) (num : ℕ) : Bytes :=
  if num = 0 then 48 :: prev.drop 1 else decimal num

/-- `_uint_len`: the number of decimal digits. -/
def uintLen (num : ℕ) : ℕ := (decimal num).length

/-- The length of a key. -/
def KeyPos.len (k : KeyPos) : ℕ := k.stop - k.start

/-- The keys of a fragment as they are written, with what follows each of them in
the command if `k.remainLen` is set and else with a line end; `numStr` is the
number buffer. -/
def writeKeys (mset : Bool) (buf : Bytes) : Bytes → List KeyPos → Bytes
  | _, [] => []
  | numStr, k :: ks =>
    let numStr' := hiItoa numStr k.len
    36 :: numStr' ++ [13, 10] ++ (buf.drop k.start).take (k.len + k.remainLen) ++
      (if mset then [] else [13, 10]) ++ writeKeys mset buf numStr' ks

/-- What follows the number of arguments in a fragment. -/
def fragmentHeader : CmdType → Bytes
  | .mget => [13, 10] ++ ascii "$4" ++ [13, 10] ++ ascii "mget" ++ [13, 10]
  | .del => [13, 10] ++ ascii "$3" ++ [13, 10] ++ ascii "del" ++ [13, 10]
  | .exists => [13, 10] ++ ascii "$6" ++ [13, 10] ++ ascii "exists" ++ [13, 10]
  | .mset => [13, 10] ++ ascii "$4" ++ [13, 10] ++ ascii "mset" ++ [13, 10]
  | _ => []

/-- The number of arguments of a fragment with `n` keys. -/
def fragmentNarg (type : CmdType) (n : ℕ) : ℕ := if type = .mset then 2 * n + 1 else n + 1

/-- The length computed for a fragment in `uint32_t` arithmetic. -/
def fragmentLen (type : CmdType) (keys : List KeyPos) : ℕ :=
  ((keys.map fun k => k.len + uintLen k.len + k.remainLen).sum +
    (if type = .mset then 3 else 5) * keys.length + 1 + (fragmentHeader type).length +
    uintLen (fragmentNarg type keys.length)) % 2 ^ 32

/-- The bytes of a fragment: what is written, in a buffer of the computed length. -/
def fragmentBytes (type : CmdType) (buf : Bytes) (keys : List KeyPos) : Bytes :=
  let numStr := decimal (fragmentNarg type keys.length)
  let written := 42 :: numStr ++ fragmentHeader type ++
    writeKeys (type = .mset) buf numStr keys
  (written ++ List.replicate (fragmentLen type keys) 0).take (fragmentLen type keys)

/-! ## Splitting -/

/-- The length of what follows a key of MSET up to the next pair: the digits after
the key are the length of the value. -/
def remainLen (buf : Bytes) (stop : ℕ) : ℕ :=
  let rest := buf.drop (stop + 1)
  let skipped := (rest.takeWhile fun b => !isDigit b).length
  let digits := parseUint 0 0 (rest.drop skipped)
  (digits.1 + 4 + (1 + skipped + digits.2.pos)) % 2 ^ 32

/-- A key as a fragment has it. -/
def fragmentKey (type : CmdType) (buf : Bytes) (k : KeyPos) : KeyPos :=
  { k with remainLen := if type = .mset then remainLen buf k.stop else 0 }

/-- Add a key to the fragment of its slot, creating the fragment with the given
`id` if there is none.  The fragments are in the order of their slots. -/
def addToFragment (id : ℕ) (slot : ℕ) (k : KeyPos) : List Cmd → List Cmd
  | [] => [{ id, slotNum := slot, keys := [k], narg := 1 }]
  | f :: fs =>
    if f.slotNum = slot then { f with keys := f.keys ++ [k], narg := f.narg + 1 } :: fs
    else if f.slotNum < slot then f :: addToFragment id slot k fs
    else { id, slotNum := slot, keys := [k], narg := 1 } :: f :: fs

/-- The fragments of a list of keys; `id` is the last command id that was used. -/
def collectFragments (type : CmdType) (buf : Bytes) : ℕ → List Cmd → List KeyPos → ℕ × List Cmd
  | id, fs, [] => (id, fs)
  | id, fs, k :: ks =>
    let slot := keyHashSlot (k.bytes buf)
    let id' := if fs.any (·.slotNum = slot) then id else id + 1
    collectFragments type buf id' (addToFragment id' slot (fragmentKey type buf k) fs) ks

/-- The header is prepended to a fragment. -/
def finishFragment (type : CmdType) (buf : Bytes) (f : Cmd) : Cmd :=
  { f with type, narg := fragmentNarg type f.narg, cmd := fragmentBytes type buf f.keys }

/-- `command_pre_fragment`: the slot of the last key, the command with the slots
of its keys, and the fragments unless there is only one. -/
def commandPreFragment (command : Request) : Prog ω (ℤ × Request) := do
  let w ← get
  let slots := command.keys.map fun k => (keyHashSlot (k.bytes command.cmd) : ℤ)
  let frags := collectFragments command.type command.cmd w.cmdId [] command.keys
  modify fun w => { w with cmdId := frags.1 }
  if frags.2.length = 1 then
    pure (slots.getLast?.getD (-1), { command with slotNum := slots.getLast?.getD (-1) })
  else
    pure (slots.getLast?.getD (-1), { command with
      fragSeq := slots
      subCommands := some (frags.2.map (finishFragment command.type command.cmd)) })

/-- `command_get`: the id of a new command. -/
def commandGet : Prog ω ℕ := do
  modify fun w => { w with cmdId := w.cmdId + 1 }
  let w ← get
  pure w.cmdId

/-- `command_format_by_slot`; a negative slot is an error, which an empty buffer
does not report. -/
def commandFormatBySlot (command : Request) : Prog ω (ℤ × Request) :=
  if command.cmd = [] then pure (-1, command)
  else
    match redisParseCmd command.cmd with
    | .error e => do
      setError (some .protocol) (ErrText.ofBytes e.text)
      pure (-1, command)
    | .ok p => do
      let command := { command with type := p.type, narg := p.narg, keys := p.keys }
      match p.keys with
      | [] => do
        setError (some .other) (.lit "No keys in command(must have keys for redis cluster mode)")
        pure (-1, command)
      | [k] =>
        pure (keyHashSlot (k.bytes command.cmd),
          { command with slotNum := keyHashSlot (k.bytes command.cmd) })
      | _ => commandPreFragment command

/-! ## Merging -/

/-- Why merging fails: the error on the context, if one is set. -/
inductive Merge where
  | reply (r : Reply)
  | error (text : String)
  | null

/-- The sum of two counts as `long long`. -/
def addCount (a b : ℤ) : ℤ := Int.bmod (a + b) (2 ^ 64)

/-- The reply to a fragment has the type of its command. -/
def fragmentReplyOk (type : CmdType) (r : Reply) : Bool :=
  match type, r with
  | .mget, .array _ => true
  | .del, .integer _ => true
  | .exists, .integer _ => true
  | .mset, .status s => s = ascii "OK"
  | _, _ => false

/-- The first loop of `command_post_fragment`: the first reply that is missing, an
error, or of the wrong type decides; otherwise the total count. -/
def checkReplies (type : CmdType) : ℤ → List (Option Reply) → Except Merge ℤ
  | count, [] => .ok count
  | _, none :: _ => .error .null
  | _, some (.error s) :: _ => .error (.reply (.error s))
  | count, some r :: rs =>
    if fragmentReplyOk type r then
      checkReplies type (match r with | .integer n => addCount count n | _ => count) rs
    else .error (.error "reply type error")

/-- The elements of an array reply. -/
def Reply.elems : Reply → List Reply
  | .array es => es
  | _ => []

/-- The arrays of the fragments, by slot. -/
def fragmentArrays (frags : List (Cmd × Option Reply)) (slot : ℤ) : List Reply :=
  match frags.find? (·.1.slotNum = slot) with
  | some (_, some r) => r.elems
  | _ => []

/-- The second loop, from the last key to the first: each key takes the last
element that is left of the array of its fragment.  The slots are in reverse
order, and the elements found are put in front. -/
def popElements : (ℤ → List Reply) → List ℤ → List Reply → Option (List Reply)
  | _, [], acc => some acc
  | arrays, slot :: slots, acc =>
    match (arrays slot).getLast? with
    | none => none
    | some r =>
      popElements (Function.update arrays slot (arrays slot).dropLast) slots (r :: acc)

/-- `command_post_fragment` on the fragments with their replies. -/
def mergeReplies (type : CmdType) (fragSeq : List ℤ) (frags : List (Cmd × Option Reply)) : Merge :=
  match checkReplies type 0 (frags.map Prod.snd) with
  | .error m => m
  | .ok count =>
    match type with
    | .mget =>
      match popElements (fragmentArrays frags) fragSeq.reverse [] with
      | none => .error "sub reply elements error"
      | some es => .reply (.array es)
    | .mset => .reply (.status (ascii "OK"))
    | _ => .reply (.integer count)

/-- `command_post_fragment`. -/
def commandPostFragment (type : CmdType) (fragSeq : List ℤ) (frags : List (Cmd × Option Reply)) :
    Prog ω (Option Reply) :=
  match mergeReplies type fragSeq frags with
  | .reply r => pure (some r)
  | .null => pure none
  | .error text => do
    setError (some .other) (.lit text)
    pure none
