/-
# Transactions on nodes

The nodes of a database in memory, and the functions of a handle that change them in
place: every change is recorded in the log of the transaction with what it overwrites,
nested transactions remember how long the log was, and an abort undoes the items from
the end.  The locks are taken as granted here.

Nodes are named by their ids, and a `Pointer` holds the id of the node it points at.
Where the source would follow a null pointer or fail an assertion, there is no step.
-/

import HybridDatabase.Base.Runs
import HybridDatabase.Base.UndoLog
import HybridDatabase.Database.Load

namespace HybridDatabase.Transaction

open HybridDatabase.Base HybridDatabase.Storage HybridDatabase.Database

/-! ## Nodes in memory -/

structure MemoryNode where
  type : ℕ
  values : List Value
  refCount : ℕ
  deriving DecidableEq, Repr

abbrev Nodes := ℕ → Option MemoryNode

namespace Nodes

def setRefCount (nodes : Nodes) (id refCount : ℕ) : Nodes :=
  Function.update nodes id ((nodes id).map fun node => { node with refCount := refCount })

def setValue (nodes : Nodes) (id index : ℕ) (value : Value) : Nodes :=
  Function.update nodes id ((nodes id).map fun node =>
    { node with values := node.values.set index value })

/-- The logical state of nodes: what the dictionary of a load holds. -/
def view (nodes : Nodes) (id : ℕ) : Option Node :=
  (nodes id).map fun node => ⟨node.type, node.values⟩

end Nodes

/-- The database between transactions: its nodes and `node_id_counter`. -/
structure World where
  nodes : Nodes
  counter : ℕ

/-- A handle inside a main transaction.  `transactions` holds the `pos` of the nested
transactions, as lengths of the log, the innermost first. -/
structure State where
  nodes : Nodes
  counter : ℕ
  log : List LogItem
  transactions : List ℕ

/-- `tr_begin` of a main transaction. -/
def World.begin (w : World) : State := ⟨w.nodes, w.counter, [], []⟩

/-! ## Changes in place -/

namespace State

/-- `fstack_push` of items, the last one on top. -/
def push (s : State) (items : List LogItem) : State := { s with log := s.log ++ items }

/-- `_node_ref_count_increase`. -/
def nodeRefCountIncrease (s : State) (id : ℕ) : Option State := do
  let node ← s.nodes id
  some ({ s with nodes := s.nodes.setRefCount id (node.refCount + 1) }.push
    [.refCount id node.refCount])

/-- `_node_ref_count_decrease`. -/
def nodeRefCountDecrease (s : State) (id : ℕ) : Option State := do
  let node ← s.nodes id
  if 0 < node.refCount then
    some ({ s with nodes := s.nodes.setRefCount id (node.refCount - 1) }.push
      [.refCount id node.refCount])
  else none

/-- The reference that an attribute gives up. -/
def dropReference (s : State) (old : ℕ) : Option State :=
  if old = 0 then some s else s.nodeRefCountDecrease old

/-- `attribute_write`, up to the assignment of the value.  The two addresses are those of
the memory that a string gives back and takes.  The test for a null pointer in front of
the second change of a `ref_count` looks at the address of the argument, which is never
null. -/
def attributeWrite (s : State) (old value : Value) (freed allocated : ℕ) :
    AttrKind → Option State
  | .raw _ | .number _ => some s
  | .string =>
      match value with
      | .string none => some (s.push [.memoryDelete freed])
      | .string (some _) => some (s.push [.memoryDelete freed, .memoryAlloc allocated])
      | _ => none
  | .rawString =>
      match value with
      | .rawString none => some (s.push [.memoryDelete freed])
      | .rawString (some _) => some (s.push [.memoryDelete freed, .memoryAlloc allocated])
      | _ => none
  | .pointer =>
      match old, value with
      | .pointer old, .pointer target => do
          let s ← s.dropReference old
          s.nodeRefCountIncrease target
      | _, _ => none

/-- `trInternalWrite_`.  `index` is a field of eight bits; an undo goes by the offset of
the attribute instead, which is the same attribute for indexes below 256. -/
def trInternalWrite (T : DatabaseType) (s : State) (id index : ℕ) (value : Value)
    (freed allocated : ℕ) : Option State := do
  let node ← s.nodes id
  let attr ← attributeAt T node.type index
  let old ← node.values[index]?
  let s ← s.attributeWrite old value freed allocated attr.type.kind
  some ({ s with nodes := s.nodes.setValue id index value }.push
    [.nodeModify id (index % 256) attr.type old value])

/-- `type->init`. -/
def initialNode (T : DatabaseType) (type : ℕ) : MemoryNode where
  type := type
  values := ((T.nodeTypes[type]?).elim [] NodeType.attributes).map fun attr =>
    attributeInit attr.type
  refCount := 0

/-- `tr_node_create`.  The id is what `atomic_add_and_fetch` returned: a number above all
earlier ones, not always the next one, because other handles take ids too. -/
def trNodeCreate (T : DatabaseType) (s : State) (type id : ℕ) : Option State :=
  if type < T.nodeTypes.length ∧ s.counter < id ∧ id < 2 ^ 64 then
    some ({ s with
      nodes := Function.update s.nodes id (some (initialNode T type))
      counter := id }.push [.nodeAlloc type id])
  else none

/-- The type has an attribute that `destroy_pointers` writes null to. -/
def hasPointers (T : DatabaseType) (type : ℕ) : Bool :=
  ((T.nodeTypes[type]?).elim [] NodeType.attributes).any fun attr => attr.type = .pointer

/-- `tr_node_delete`.  It refuses a node that is referenced.  Writing null to a `Pointer`
follows a null pointer. -/
def trNodeDelete (T : DatabaseType) (s : State) (id : ℕ) : Option State := do
  let node ← s.nodes id
  if node.refCount ≠ 0 then some s
  else if hasPointers T node.type then none
  else some (s.push [.nodeDelete id])

/-! ## Undoing -/

/-- `log_undo_item`, what it does to the nodes. -/
def logUndoItem (nodes : Nodes) : LogItem → Nodes
  | .refCount id dataOld => nodes.setRefCount id dataOld
  | .nodeModify id index _ dataOld _ => nodes.setValue id index dataOld
  | .nodeAlloc _ id => Function.update nodes id none
  | .nodeDelete _ | .raw .. | .memoryAlloc _ | .memoryDelete _ => nodes

/-- `_tr_handle_rollback` to a position. -/
def rollbackTo (s : State) (pos : ℕ) : State :=
  { s with
    nodes := rollback logUndoItem s.nodes (s.log.drop pos)
    log := s.log.take pos }

/-! ## Steps -/

/-- The steps inside a main transaction. -/
inductive Label
  | create (type id : ℕ)
  | write (id index : ℕ) (value : Value) (freed allocated : ℕ)
  | delete (id : ℕ)
  | begin
  | commitNested
  | abortNested
  deriving DecidableEq, Repr

def step (T : DatabaseType) (s : State) : Label → Option State
  | .create type id => s.trNodeCreate T type id
  | .write id index value freed allocated => s.trInternalWrite T id index value freed allocated
  | .delete id => s.trNodeDelete T id
  | .begin => some { s with transactions := s.log.length :: s.transactions }
  | .commitNested =>
      match s.transactions with
      | [] => none
      | _ :: transactions => some { s with transactions := transactions }
  | .abortNested =>
      match s.transactions with
      | [] => none
      | pos :: transactions => some { s.rollbackTo pos with transactions := transactions }

/-- The garbage of a log: the nodes whose memory is freed when its job is handled. -/
def garbage (log : List LogItem) : List ℕ :=
  log.filterMap fun item =>
    match item with
    | .nodeDelete id => some id
    | _ => none

/-- `free_garbage`. -/
def freeGarbage (nodes : Nodes) (garbage : List ℕ) : Nodes :=
  garbage.foldl (fun nodes id => Function.update nodes id none) nodes

/-- The database after the main transaction is committed and its job is handled. -/
def commit (s : State) : World := ⟨freeGarbage s.nodes (garbage s.log), s.counter⟩

/-- The database after `_tr_abort_main`. -/
def abort (s : State) : World := ⟨rollback logUndoItem s.nodes s.log, s.counter⟩

/-! ## What transactions may do -/

/-- A node that the transaction has not deleted. -/
def Live (s : State) (id : ℕ) : Prop := (s.nodes id).isSome ∧ id ∉ garbage s.log

/-- A value that the type can hold, and that comes back when it is stored and loaded. -/
def Faithful (type : AttrType) (value : Value) : Prop :=
  type.kind.Holds value ∧ value.stored = value

/-- Transactions refer to live nodes only, write values that are stored faithfully, and
delete no nodes of types with a `Pointer`. -/
def Allowed (T : DatabaseType) (s : State) : Label → Prop
  | .write id index value _ _ =>
      s.Live id ∧
        (∀ node attr, s.nodes id = some node → attributeAt T node.type index = some attr →
          Faithful attr.type value) ∧
        ∀ target, value = .pointer target → s.Live target
  | .delete id =>
      s.Live id ∧ ∀ node, s.nodes id = some node → hasPointers T node.type = false
  | _ => True

end State

end HybridDatabase.Transaction
