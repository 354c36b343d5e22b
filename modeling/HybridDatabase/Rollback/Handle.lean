/-
# A handle and the memory it changes

The functions of a handle that change nodes and transactional memory in place, over memory
byte by byte.  Locks lie in the objects they guard; here their words are kept apart from the
other bytes of the objects.

A function returns whether it succeeded.  Where the source fails an assertion or follows a
null pointer, there is no result.
-/

import HybridDatabase.Rollback.Items
import HybridDatabase.Service.Commit
import HybridDatabase.Utils.FastStack

namespace HybridDatabase.Rollback

open HybridDatabase.Storage HybridDatabase.Database HybridDatabase.Utils
open HybridDatabase.Service (CommitType)

/-! ## The state -/

/-- `struct Transaction`. -/
structure Transaction where
  readSet : BitVec 32
  pos : Option (ℕ × ℕ)
  acquiredLocks : BitVec 32
  commitType : CommitType
  deriving DecidableEq

/-- The items of a page of the log. -/
def logBlockSize : ℕ := (pageSize - 16) / 48

/-- The items of a page of `transactions`. -/
def transactionsBlockSize : ℕ := (pageSize - 16) / 24

/-- `Handle`.  A lock is named by the object it lies in. -/
structure Handle where
  address : ℕ
  startTime : ℕ
  readSet : List ℕ
  transactions : FastStack Transaction
  log : FastStack LogItem
  commitType : CommitType
  acquiredLocks : List ℕ

/-- `locks` are the words of the locks: odd versions, or the address of the handle that has
the lock. -/
structure State where
  memory : Memory
  locks : ℕ → ℕ
  handle : Handle

/-- A function of a handle. -/
abbrev Op := State → Option (Bool × State)

namespace Op

def answer (ok : Bool) : Op := fun s => some (ok, s)

/-- The second function where the first one succeeds, else `return false`. -/
def andThen (first second : Op) : Op := fun s =>
  (first s).bind fun (ok, s) => if ok then second s else some (false, s)

/-- A change that always succeeds. -/
def change (f : State → State) : Op := fun s => some (true, f s)

end Op

namespace State

/-! ## Memory and locks -/

/-- `memcpy` to an address. -/
def store (s : State) (address : ℕ) (bytes : Bytes) : State :=
  { s with memory := { s.memory with contents := s.memory.contents.write address bytes } }

/-- The bytes at an address. -/
def load (s : State) (address size : ℕ) : Bytes := s.memory.contents.read address size

/-- A pointer or a number at an address. -/
def loadWord (s : State) (address : ℕ) : ℕ := ofWord (s.load address 8)

/-- `fstack_push(H->log, item)`. -/
def push (source : PageAlloc) (s : State) (item : LogItem) : State :=
  { s with handle := { s.handle with log := s.handle.log.push logBlockSize source item } }

/-- `util_lock`. -/
def utilLock (object : ℕ) : Op := fun s =>
  let v := s.locks object
  if v % 2 = 1 then
    if s.handle.startTime < v then some (false, s)
    else
      some (true, { s with
        locks := Function.update s.locks object s.handle.address
        handle := { s.handle with acquiredLocks := object :: s.handle.acquiredLocks } })
  else some (decide (v = s.handle.address), s)

/-- `l_check`. -/
def lCheck (s : State) (object : ℕ) : Bool :=
  let v := s.locks object
  if v % 2 = 1 then v ≤ s.handle.startTime else v = s.handle.address

/-- `_readSetAddNode`. -/
def readSetAddNode (s : State) (node : ℕ) : State :=
  { s with handle := { s.handle with readSet := s.handle.readSet ++ [node] } }

/-! ## Transactional memory -/

variable (source : PageAlloc)

/-- `trMemoryInternalWrite_`. -/
def trMemoryInternalWrite (s : State) (ptr : ℕ) (val : Bytes) : State :=
  (s.store ptr val).push source (LogItem.ofMemory s.memory.contents ptr val.length)

/-- `generic_allocator_alloc`; `malloc` has returned `p`. -/
def genericAllocatorAlloc (s : State) (p size : ℕ) : State :=
  { s with memory := { s.memory with
      blocks := Function.update s.memory.blocks p (some (max size 16)) } }

/-- `tr_memory_alloc`. -/
def trMemoryAlloc (s : State) (p size : ℕ) : State :=
  (s.genericAllocatorAlloc p size).push source (.ofPtr p .memoryAlloc)

/-- `tr_memory_free`. -/
def trMemoryFree (s : State) (p : ℕ) : State := s.push source (.ofPtr p .memoryDelete)

/-- A change of `ref_count`, the first word of a node. -/
def setRefCount (node refCount : ℕ) : Op :=
  Op.change fun s => s.trMemoryInternalWrite source node (wordBytes refCount)

/-- `_node_ref_count_increase`. -/
def nodeRefCountIncrease (node : ℕ) : Op := fun s =>
  if node = 0 then none
  else
    (utilLock node).andThen
      (fun s => setRefCount source node (s.loadWord node + 1) s) s

/-- `_node_ref_count_decrease`. -/
def nodeRefCountDecrease (node : ℕ) : Op := fun s =>
  if node = 0 then none
  else
    (utilLock node).andThen
      (fun s =>
        if 0 < s.loadWord node then setRefCount source node (s.loadWord node - 1) s else none) s

/-! ## Attributes -/

/-- `strlen` of what stands at an address, in the address space. -/
def strlen (m : Contents) : ℕ → ℕ → ℕ
  | 0, _ => 0
  | space + 1, address => if m address = 0 then 0 else strlen m space (address + 1) + 1

/-- `attr->value = *value`. -/
def assign (s : State) (type : AttrType) (attr value : ℕ) : State :=
  s.store attr (s.load value (attributeSize type))

/-- The `Write` block of a type that points to memory of its own: `length` bytes are allocated
at `p` and copied from an address. -/
def attributeWriteBlock (s : State) (attr value p : ℕ) (length address : State → ℕ) : State :=
  if attr = value then s
  else
    let s := s.trMemoryFree source (s.loadWord attr)
    if s.loadWord value = 0 then s.store attr (wordBytes 0)
    else
      let bytes := s.load (address s) (length s)
      ((s.trMemoryAlloc source p (length s)).store p bytes).store attr (wordBytes p)

/-- `attribute_write_String`. -/
def attributeWriteString (s : State) (attr value p : ℕ) : State :=
  s.attributeWriteBlock source attr value p
    (fun s => strlen s.memory.contents (2 ^ 64) (s.loadWord value) + 1)
    (fun s => s.loadWord value)

/-- `attribute_write_RawString`.  It copies from `value`, not from `*value`. -/
def attributeWriteRawString (s : State) (attr value p : ℕ) : State :=
  s.attributeWriteBlock source attr value p
    (fun s => 8 + s.loadWord (s.loadWord value))
    (fun _ => value)

/-- `attribute_write_Pointer`.  The test in front of the second change of a `ref_count` looks
at `value`, which is never null. -/
def attributeWritePointer (attr value : ℕ) : Op := fun s =>
  let old := s.loadWord attr
  let drop := if old = 0 then Op.answer true else nodeRefCountDecrease source old
  (drop.andThen fun s =>
    (nodeRefCountIncrease source (s.loadWord value)).andThen
      (Op.change fun s => s.assign .pointer attr value) s) s

/-- `attribute_write`. -/
def attributeWrite (type : AttrType) (attr value p : ℕ) : Op :=
  match type.kind with
  | .raw _ | .number _ => Op.change fun s => s.assign type attr value
  | .string => Op.change fun s => s.attributeWriteString source attr value p
  | .rawString => Op.change fun s => s.attributeWriteRawString source attr value p
  | .pointer => attributeWritePointer source attr value

end State

end HybridDatabase.Rollback
