/-
# Handles that share nodes

Several handles work on the nodes of one database.  Each runs a transaction, with nested
ones, and locks the nodes it changes.  A call of `util_lock` may fail whenever it is made:
the lock can be held by another handle or have too high a version.

An operation answers as the function of the source does, with `true` or `false`.  Where
the source would follow a null pointer or fail an assertion, there is no answer.
-/

import HybridDatabase.Base.Locked
import HybridDatabase.Transaction.Effects

namespace HybridDatabase.Transaction

open HybridDatabase.Base HybridDatabase.Storage HybridDatabase.Database

/-! ## Operations of one handle -/

/-- What an operation of a handle works on: the nodes, the log of the handle, and the
holders of the locks in the nodes. -/
structure Session extends State where
  owner : ℕ → Option ℕ

/-- A function that answers `true` or `false`. -/
abbrev Op := Session → Option (Bool × Session)

namespace Op

/-- `return`. -/
def answer (ok : Bool) : Op := fun s => some (ok, s)

/-- `if (!first) return false;` in front of another operation. -/
def andThen (first second : Op) : Op := fun s =>
  (first s).bind fun (ok, t) => if ok then second t else some (false, t)

/-- A change that does not look at locks. -/
def change (f : State → Option State) : Op := fun s =>
  (f s.toState).map fun t => (true, { s with toState := t })

/-- An operation that reads a node. -/
def withNode (id : ℕ) (op : MemoryNode → Op) : Op := fun s => (s.nodes id).bind fun node => op node s

end Op

/-- The answers that the calls of `util_lock` in a write would get from the versions of
the locks: for the node, and for the old and the new target of a `Pointer`. -/
structure Locks where
  node : Bool
  old : Bool
  target : Bool
  deriving DecidableEq, Repr

/-- The lock of a node can be taken. -/
def Grants (owner : ℕ → Option ℕ) (h id : ℕ) (granted : Bool) : Prop :=
  granted = true ∧ (owner id = none ∨ owner id = some h)

instance (owner : ℕ → Option ℕ) (h id : ℕ) (granted : Bool) : Decidable (Grants owner h id granted) :=
  inferInstanceAs (Decidable (_ ∧ _))

/-- `util_lock` of the lock in a node. -/
def utilLock (h id : ℕ) (granted : Bool) : Op :=
  Op.withNode id fun _ s =>
    if Grants s.owner h id granted then
      some (true, { s with owner := Function.update s.owner id (some h) })
    else some (false, s)

/-- `_node_ref_count_increase`. -/
def nodeRefCountIncrease (h id : ℕ) (granted : Bool) : Op :=
  (utilLock h id granted).andThen (.change fun s => s.nodeRefCountIncrease id)

/-- `_node_ref_count_decrease`. -/
def nodeRefCountDecrease (h id : ℕ) (granted : Bool) : Op :=
  (utilLock h id granted).andThen (.change fun s => s.nodeRefCountDecrease id)

/-- `attribute_write` of a `Pointer`, up to the assignment.  The test in front of the
second call looks at the address of the argument, which is never null. -/
def attributeWritePointer (h old target : ℕ) (locks : Locks) : Op :=
  (if old = 0 then .answer true else nodeRefCountDecrease h old locks.old).andThen
    (nodeRefCountIncrease h target locks.target)

/-- `attribute_write`, up to the assignment. -/
def attributeWrite (h : ℕ) (old value : Value) (freed allocated : ℕ) (locks : Locks) :
    AttrKind → Op
  | .pointer =>
      match old, value with
      | .pointer old, .pointer target => attributeWritePointer h old target locks
      | _, _ => fun _ => none
  | kind => .change fun s => s.attributeWrite old value freed allocated kind

/-- What `trInternalWrite_` does after `attribute_write` has answered.  The attribute keeps
its value where the write failed.  The item has the place of the attribute in the node,
as `offset` has it, where a record has the eight bits of `index`. -/
def recordWrite (id index : ℕ) (type : AttrType) (old value : Value) (ok : Bool) : Op := fun s =>
  let left := if ok then value else old
  some (ok, { s with toState := { s.toState with
    nodes := s.nodes.setValue id index left }.push [.nodeModify id index type old left] })

/-- `trInternalWrite_`. -/
def trInternalWrite (T : DatabaseType) (h id index : ℕ) (value : Value) (freed allocated : ℕ)
    (locks : Locks) : Op :=
  .withNode id fun node s => do
    let attr ← attributeAt T node.type index
    let old ← node.values[index]?
    let (ok, s) ← attributeWrite h old value freed allocated locks attr.type.kind s
    recordWrite id index attr.type old value ok s

/-- `trWrite_`. -/
def trWrite (T : DatabaseType) (h id index : ℕ) (value : Value) (freed allocated : ℕ)
    (locks : Locks) : Op :=
  (utilLock h id locks.node).andThen (trInternalWrite T h id index value freed allocated locks)

/-- The attributes that the generated `destroy_pointers` of a type goes through. -/
def pointerIndexes (T : DatabaseType) (type : ℕ) : List ℕ :=
  let attributes := (T.nodeTypes[type]?).elim [] NodeType.attributes
  (List.range attributes.length).filter fun index =>
    (attributes[index]?).any fun attr => attr.type = .pointer

/-- `destroy_pointers`.  It writes null to one `Pointer` after another, and records no
attribute in the log. -/
def destroyPointers (h id : ℕ) (locks : ℕ → Locks) : List ℕ → Op
  | [] => .answer true
  | index :: indexes =>
      .withNode id fun node =>
        match node.values[index]? with
        | some (.pointer old) =>
            ((attributeWritePointer h old 0 (locks index)).andThen
              (.change fun s => some { s with nodes := s.nodes.setValue id index (.pointer 0) })).andThen
              (destroyPointers h id locks indexes)
        | _ => fun _ => none

/-- `tr_node_delete`, once it has the lock.  `indexed` is the answer of `update_indexes`;
that of `destroy_pointers` is not looked at. -/
def deleteLocked (T : DatabaseType) (h id : ℕ) (indexed : Bool) (locks : ℕ → Locks) : Op :=
  .withNode id fun node =>
    if node.refCount ≠ 0 then .answer false
    else if indexed = false then .answer false
    else fun s => do
      let (_, s) ← destroyPointers h id locks (pointerIndexes T node.type) s
      some (true, { s with toState := s.push [.nodeDelete id] })

/-- `tr_node_delete`. -/
def trNodeDelete (T : DatabaseType) (h id : ℕ) (granted indexed : Bool) (locks : ℕ → Locks) : Op :=
  (utilLock h id granted).andThen (deleteLocked T h id indexed locks)

/-- `tr_node_create`.  The lock is that of the new node; without it the node is given back.
The answer is `false` where a null pointer is returned. -/
def trNodeCreate (T : DatabaseType) (h type : ℕ) (granted indexed : Bool) : Op := fun s =>
  if granted = true then
    (s.toState.trNodeCreate T type (s.counter + 1)).map fun t =>
      (indexed, ⟨t, Function.update s.owner (s.counter + 1) (some h)⟩)
  else some (false, s)

/-- The functions that a transaction calls between its begin and its end. -/
inductive Operation
  | create (type : ℕ) (granted indexed : Bool)
  | write (id index : ℕ) (value : Value) (freed allocated : ℕ) (locks : Locks)
  | delete (id : ℕ) (granted indexed : Bool) (locks : ℕ → Locks)

def Operation.run (T : DatabaseType) (h : ℕ) : Operation → Op
  | .create type granted indexed => trNodeCreate T h type granted indexed
  | .write id index value freed allocated locks =>
      trWrite T h id index value freed allocated locks
  | .delete id granted indexed locks => trNodeDelete T h id granted indexed locks

/-! ## The database and its handles -/

/-- A handle: whether a transaction runs (`start_time` is not 0), its log, and the `pos` of
the nested transactions, the innermost first.  A write that answers `false` leaves a handle
on its way to `tr_failed`. -/
structure Handle where
  running : Bool := false
  failed : Bool := false
  log : List LogItem := []
  transactions : List ℕ := []

/-- `jobs` are the deleted nodes of the committed transactions that the service thread has
not handled, the oldest first. -/
structure Shared where
  nodes : Nodes
  counter : ℕ
  owner : ℕ → Option ℕ
  handles : ℕ → Handle
  jobs : List (List ℕ)

namespace Shared

def setHandle (D : Shared) (h : ℕ) (H : Handle) : Shared :=
  { D with handles := Function.update D.handles h H }

@[simp]
theorem handles_setHandle_self (D : Shared) (h : ℕ) (H : Handle) :
    (D.setHandle h H).handles h = H := Function.update_self _ _ _

theorem handles_setHandle_of_ne (D : Shared) {h h' : ℕ} (apart : h' ≠ h) (H : Handle) :
    (D.setHandle h H).handles h' = D.handles h' := Function.update_of_ne apart _ _

/-- The database as an operation of `h` sees it. -/
def session (D : Shared) (h : ℕ) : Session :=
  ⟨⟨D.nodes, D.counter, (D.handles h).log, (D.handles h).transactions⟩, D.owner⟩

/-- The database after an operation of `h`. -/
def store (D : Shared) (h : ℕ) (failed : Bool) (s : Session) : Shared :=
  { D with
    nodes := s.nodes
    counter := s.counter
    owner := s.owner
    handles := Function.update D.handles h ⟨true, failed, s.log, s.transactions⟩ }

/-- The answer of an operation, and the database after it. -/
def call (T : DatabaseType) (D : Shared) (h : ℕ) (op : Operation) : Option (Bool × Shared) :=
  (op.run T h (D.session h)).map fun (ok, s) =>
    (ok, D.store h (match op with | .write .. => !ok | _ => false) s)

/-- `_tr_unlock` and `handle_cleanup`. -/
def release (D : Shared) (h : ℕ) : Shared :=
  { D.setHandle h {} with
    owner := fun id => if D.owner id = some h then none else D.owner id }

/-- `_tr_handle_rollback` to a position. -/
def rollbackTo (D : Shared) (h pos : ℕ) : Shared :=
  { D with
    nodes := rollback State.logUndoItem D.nodes ((D.handles h).log.drop pos) }

/-- `_tr_abort_main`. -/
def trAbortMain (D : Shared) (h : ℕ) : Shared := (D.rollbackTo h 0).release h

/-- `tr_abort`. -/
def trAbort (D : Shared) (h : ℕ) : Shared :=
  match (D.handles h).transactions with
  | [] => D.trAbortMain h
  | pos :: transactions =>
      (D.rollbackTo h pos).setHandle h ⟨true, false, (D.handles h).log.take pos, transactions⟩

/-- `_tr_commit_main`.  `valid` is the answer of `tr_validate`. -/
def trCommitMain (D : Shared) (h : ℕ) (valid : Bool) : Shared :=
  if (D.handles h).log = [] then D.release h
  else if valid then
    { D.release h with jobs := D.jobs ++ [State.garbage (D.handles h).log] }
  else D.trAbortMain h

/-- `tr_commit`. -/
def trCommit (D : Shared) (h : ℕ) (valid : Bool) : Shared :=
  match (D.handles h).transactions with
  | [] => D.trCommitMain h valid
  | _ :: transactions => D.setHandle h { D.handles h with transactions := transactions }

/-- `tr_begin`. -/
def trBegin (D : Shared) (h : ℕ) : Shared :=
  if (D.handles h).running then
    D.setHandle h { D.handles h with
      transactions := (D.handles h).log.length :: (D.handles h).transactions }
  else D.setHandle h { D.handles h with running := true }

/-- The service thread handles a job: the deleted nodes are freed. -/
def handleJob (D : Shared) : Shared :=
  match D.jobs with
  | [] => D
  | garbage :: jobs => { D with nodes := State.freeGarbage D.nodes garbage, jobs := jobs }

end Shared

/-- The steps of the handles and of the service thread. -/
inductive SharedLabel
  | begin (h : ℕ)
  | call (h : ℕ) (op : Operation)
  | commit (h : ℕ) (valid : Bool)
  | abort (h : ℕ)
  | hardAbort (h : ℕ)
  | handleJob

/-- Where the source would follow a null pointer or fail an assertion, there is no step. -/
def Shared.step (T : DatabaseType) (D : Shared) : SharedLabel → Option Shared
  | .begin h => some (D.trBegin h)
  | .call h op => (D.call T h op).map Prod.snd
  | .commit h valid => some (D.trCommit h valid)
  | .abort h => some (D.trAbort h)
  | .hardAbort h => some (D.trAbortMain h)
  | .handleJob => some D.handleJob

/-- The handle that takes a step. -/
def SharedLabel.handle : SharedLabel → Option ℕ
  | .begin h | .call h _ | .commit h _ | .abort h | .hardAbort h => some h
  | .handleJob => none

end HybridDatabase.Transaction
