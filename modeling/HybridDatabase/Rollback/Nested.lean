/-
# Nested transactions

`tr_begin`, `tr_abort` and nested `tr_commit` of a handle, and the functions that change memory
between them.  A nested transaction is a record of how far the log and the read set went when
it began, and an abort undoes the log down to there.
-/

import HybridDatabase.Base.Runs
import HybridDatabase.Rollback.Generic
import HybridDatabase.Rollback.Undo

namespace HybridDatabase.Rollback

open HybridDatabase.Base HybridDatabase.Storage HybridDatabase.Database HybridDatabase.Utils
open HybridDatabase.Service (CommitType)

namespace State

variable {T : DatabaseType} (L : NodeLayout T) (source : PageAlloc)

/-! ## Begin -/

/-- `tr_begin`; `time` is the time of the database. -/
def trBegin (time : ℕ) (s : State) : State :=
  if s.handle.startTime ≠ 0 then
    let nt : Transaction := {
      readSet := BitVec.ofNat 32 s.handle.readSet.length
      pos := if s.handle.log.empty then none else some s.handle.log.topAddress
      acquiredLocks := BitVec.ofNat 32 s.handle.acquiredLocks.length
      commitType := s.handle.commitType }
    { s with handle := { s.handle with
        transactions := s.handle.transactions.push transactionsBlockSize source nt } }
  else { s with handle := { s.handle with startTime := time } }

/-! ## Rollback -/

/-- The conditions of the loops of `_tr_handle_rollback`. -/
def atPos (log : FastStack LogItem) : Option (ℕ × ℕ) → Bool
  | some pos => decide (log.topAddress = pos)
  | none => log.empty

/-- The loops of `_tr_handle_rollback`: `log_undo_item` and `fstack_pop` until the condition
holds. -/
def unwind (junk : Contents) (pos : Option (ℕ × ℕ)) : ℕ → State → Option State
  | fuel, s =>
    if atPos s.handle.log pos then some s
    else
      match fuel with
      | 0 => none
      | fuel + 1 => s.handle.log.top.bind fun item =>
          unwind junk pos fuel { s with
            memory := s.memory.logUndoItem L junk item
            handle := { s.handle with log := s.handle.log.pop logBlockSize } }

/-- `_tr_handle_rollback`. -/
def trHandleRollback (junk : Contents) (tr : Transaction) (s : State) : Option State :=
  let s := { s with handle := { s.handle with
    readSet := s.handle.readSet.take tr.readSet.toNat } }
  (unwind L junk tr.pos (s.handle.log.size logBlockSize) s).map fun s =>
    { s with handle := { s.handle with commitType := tr.commitType } }

/-- `_tr_unlock`. -/
def trUnlock (ver : ℕ) (s : State) : State :=
  { s with
    locks := fun object =>
      if object ∈ s.handle.acquiredLocks ∧ s.locks object = s.handle.address then ver
      else s.locks object
    handle := { s.handle with acquiredLocks := [] } }

/-- `handle_cleanup`. -/
def handleCleanup (s : State) : State :=
  { s with handle := { s.handle with
      startTime := 0
      readSet := []
      acquiredLocks := []
      transactions := s.handle.transactions.erase transactionsBlockSize
      log := s.handle.log.erase logBlockSize
      commitType := .async } }

/-- `_tr_abort_main`, which is `tr_hard_abort`; `endTime` is the time of the database after it
has been increased. -/
def trAbortMain (junk : Contents) (endTime : ℕ) (s : State) : Option State :=
  (trHandleRollback L junk ⟨0, none, 0, .async⟩ s).map fun s => (s.trUnlock endTime).handleCleanup

/-- `tr_abort`. -/
def trAbort (junk : Contents) (endTime : ℕ) (s : State) : Option State :=
  if s.handle.transactions.empty then trAbortMain L junk endTime s
  else s.handle.transactions.top.bind fun tr =>
    (trHandleRollback L junk tr s).map fun s => { s with handle := { s.handle with
      transactions := s.handle.transactions.pop transactionsBlockSize } }

/-! ## Commit -/

/-- What a nested commit makes of `commit_type`. -/
def nestedCommitType (commitType old : CommitType) : CommitType :=
  match commitType with
  | .sync => .sync
  | .forceAsync => .async
  | .async => old

/-- `tr_commit` of a nested transaction. -/
def trCommit (commitType : CommitType) (s : State) : State :=
  { s with handle := { s.handle with
      transactions := s.handle.transactions.pop transactionsBlockSize
      commitType := nestedCommitType commitType s.handle.commitType } }

/-! ## Nodes -/

/-- The type of the database that `tr_node_create` uses: the one it is given where it lies in
the table at the index `diff`, else the one with the same name. -/
def nodeTypeOf (T : DatabaseType) (diff : ℤ) (name : Bytes) : Option ℕ :=
  if diff < 0 ∨ T.nodeTypes.length ≤ diff then T.nodeTypes.findIdx? (·.name = name)
  else some diff.toNat

/-- Memory with a node of a type at `p`, as `node_allocator_alloc` returns it. -/
def nodeAllocatorAlloc (p type : ℕ) (s : State) : State :=
  { s with memory := { s.memory with nodes := Function.update s.memory.nodes p (some type) } }

/-- What `tr_node_create` stores in a node: its id, its `ref_count` and its attributes. -/
def initNode (p type id : ℕ) (m : Contents) : Contents :=
  Memory.init L ((m.write (p + 8) (wordBytes id)).write p (wordBytes 0)) p type

/-- `tr_node_create` up to the update of the indexes, which is made of other calls; `p` is the
address the allocator has returned and `id` the number the node gets. -/
def trNodeCreate (diff : ℤ) (name : Bytes) (p id : ℕ) (junk : Contents) : Op := fun s =>
  match nodeTypeOf T diff name with
  | none => some (false, s)
  | some type =>
      (utilLock p (s.nodeAllocatorAlloc p type)).map fun (ok, s) =>
        if ok then
          (true, { s with memory := { s.memory with
            contents := initNode L p type id s.memory.contents } }.push source
              (.ofPtr p .nodeAlloc))
        else (false, { s with memory := s.memory.nodeAllocatorFree L junk p type })

/-! ## Runs -/

/-- What a handle does; the attribute of a write is the one with this index in the type of the
node.  `environment` is what others do to locks, and outside of the memory in use. -/
inductive Call
  | begin (time : ℕ)
  | write (node type index : ℕ) (a : NodeAttribute) (value p : ℕ)
  | memoryWrite (ptr : ℕ) (val : Bytes)
  | nodeCreate (diff : ℤ) (name : Bytes) (p id : ℕ) (junk : Contents)
  | memoryAlloc (p size : ℕ)
  | memoryFree (p : ℕ)
  | read (object : ℕ)
  | commit (commitType : CommitType)
  | abort (junk : Contents) (endTime : ℕ)
  | hardAbort (junk : Contents) (endTime : ℕ)
  | environment (memory : Memory) (locks : ℕ → ℕ)

/-- Allocators return memory that is not in use. -/
def Fresh (M : Memory) (p size : ℕ) : Prop :=
  p ≠ 0 ∧ M.nodes p = none ∧ M.blocks p = none ∧ ∀ x, p ≤ x → x < p + size → ¬ M.InUse L x

/-- A handle, and the states in which the transactions that are open began, the newest one
first. -/
structure Run where
  now : State
  begun : List State

/-- What callers keep to: changes are made in a transaction, only a nested transaction is
committed, an attribute is one of its node, an object fits into `data_old`, and a read set has
a size of 32 bits.  What allocators keep to: they return memory that is not in use. -/
def Allowed (r : Run) : Call → Prop
  | .begin time => time ≠ 0
  | .write node type index a value p =>
      r.begun ≠ [] ∧ r.now.memory.nodes node = some type ∧ attributeAt T type index = some a ∧
        (OwnsMemory a.type → Fresh L r.now.memory p (max (r.now.contentLength a.type value) 16))
  | .memoryWrite _ val => r.begun ≠ [] ∧ val.length ≤ maxAttrSize
  | .nodeCreate diff name p _ _ => r.begun ≠ [] ∧
      ∀ type, nodeTypeOf T diff name = some type → Fresh L r.now.memory p (L.size type)
  | .memoryAlloc p size => r.begun ≠ [] ∧ Fresh L r.now.memory p (max size 16)
  | .memoryFree _ => r.begun ≠ []
  | .read _ => r.begun ≠ [] ∧ r.now.handle.readSet.length + 1 < 2 ^ 32
  | .commit _ => 2 ≤ r.begun.length
  | .abort _ _ | .hardAbort _ _ => r.begun ≠ []
  | .environment memory _ => r.now.memory.Agrees L memory

/-- A call, whether it succeeds or not.  There is no next state where an assertion fails. -/
def step (r : Run) : Call → Option Run
  | .begin time => some ⟨r.now.trBegin source time, r.now :: r.begun⟩
  | .write node type index a value p =>
      (trWrite L source node type index a value p r.now).map fun (_, s) => ⟨s, r.begun⟩
  | .memoryWrite ptr val => some ⟨r.now.trMemoryInternalWrite source ptr val, r.begun⟩
  | .nodeCreate diff name p id junk =>
      (trNodeCreate L source diff name p id junk r.now).map fun (_, s) => ⟨s, r.begun⟩
  | .memoryAlloc p size => some ⟨r.now.trMemoryAlloc source p size, r.begun⟩
  | .memoryFree p => some ⟨r.now.trMemoryFree source p, r.begun⟩
  | .read object => some ⟨r.now.readSetAddNode object, r.begun⟩
  | .commit commitType => some ⟨r.now.trCommit commitType, r.begun.tail⟩
  | .abort junk endTime => (r.now.trAbort L junk endTime).map fun s => ⟨s, r.begun.tail⟩
  | .hardAbort junk endTime => (r.now.trAbortMain L junk endTime).map fun s => ⟨s, []⟩
  | .environment memory locks =>
      some ⟨{ r.now with
        memory := memory
        locks := locks }, r.begun⟩

end State

end HybridDatabase.Rollback
