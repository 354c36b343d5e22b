/-
# Releasing transactional memory

A string that is overwritten, a block that is freed and a node that is deleted stay where
they are until the transaction has been committed: the log says what is garbage then.  An
abort goes the other way and releases what the transaction has allocated.

Here memory is what is allocated: the nodes with the strings their `String` attributes
point to, and the blocks of transactional memory.  Releasing something that is not
allocated is recorded.  A client that calls the functions keeps an account of its own.
-/

import Mathlib.Data.List.Nodup
import Mathlib.Logic.Function.Basic
import HybridDatabase.Base.Runs
import HybridDatabase.Base.UndoLog

namespace HybridDatabase.Transaction.Release

open HybridDatabase.Base

/-! ## Memory -/

/-- `nodes` gives the strings of an allocated node by the numbers of its `String` attributes.
A null pointer is 0. -/
structure Memory where
  nodes : ℕ → Option (List ℕ)
  blocks : ℕ → Bool
  broken : Bool

namespace Memory

/-- `generic_allocator_free`. -/
def genericAllocatorFree (M : Memory) (p : ℕ) : Memory :=
  if p = 0 then M
  else if M.blocks p then { M with blocks := Function.update M.blocks p false }
  else { M with broken := true }

/-- `destroy` of a node type, with `attribute_destroy_String` for each attribute. -/
def destroy (M : Memory) (strings : List ℕ) : Memory := strings.foldl genericAllocatorFree M

/-- `destroy` and `node_allocator_free`. -/
def release (M : Memory) (node : ℕ) : Memory :=
  match M.nodes node with
  | none => { M with broken := true }
  | some strings =>
      let M := M.destroy strings
      { M with nodes := Function.update M.nodes node none }

/-- A pointer of a node is assigned. -/
def setString (M : Memory) (node index p : ℕ) : Memory :=
  { M with
    nodes := Function.update M.nodes node
      ((M.nodes node).map fun strings => strings.set index p) }

/-- An allocator gives out memory that is not in use, at an even address. -/
def Free (M : Memory) (p : ℕ) : Prop :=
  p ≠ 0 ∧ p % 2 = 0 ∧ M.blocks p = false ∧ M.nodes p = none

instance (M : Memory) (p : ℕ) : Decidable (M.Free p) := by
  unfold Free
  infer_instance

/-- A new node, with its attributes set to null. -/
def create (M : Memory) (node count : ℕ) : Memory :=
  { M with nodes := Function.update M.nodes node (some (List.replicate count 0)) }

/-- A new block. -/
def allocate (M : Memory) (p : ℕ) : Memory := { M with blocks := Function.update M.blocks p true }

end Memory

/-! ## The log -/

/-- `struct LogItem`. -/
inductive LogItem
  | nodeModify (node index dataOld dataNew : ℕ)
  | nodeAlloc (node : ℕ)
  | nodeDelete (node : ℕ)
  | memoryAlloc (p : ℕ)
  | memoryDelete (p : ℕ)
  deriving DecidableEq, Repr

/-- `log_undo_item`. -/
def logUndoItem (M : Memory) : LogItem → Memory
  | .nodeModify node index dataOld _ => M.setString node index dataOld
  | .nodeAlloc node => M.release node
  | .memoryAlloc p => M.genericAllocatorFree p
  | .nodeDelete _ | .memoryDelete _ => M

/-- What `process_transaction_log` pushes to the `garbage_stack`.  The lowest bit tells blocks
from nodes. -/
def garbageStack (log : List LogItem) : List ℕ :=
  log.filterMap fun item =>
    match item with
    | .nodeDelete node => some node
    | .memoryDelete p => some (p ||| 1)
    | _ => none

/-- An item of the loop in `free_garbage`. -/
def freeItem (M : Memory) (i : ℕ) : Memory :=
  if i % 2 = 1 then M.genericAllocatorFree (i ^^^ 1) else M.release i

/-- `free_garbage`. -/
def freeGarbage (M : Memory) (garbage : List ℕ) : Memory := garbage.foldl freeItem M

/-! ## Transactions -/

/-- The account of a client: the nodes it has created and not deleted, and the blocks it has
obtained by `tr_memory_alloc` and not freed. -/
structure Client where
  nodes : ℕ → Bool
  blocks : ℕ → Bool

namespace Client

def setNode (C : Client) (node : ℕ) (has : Bool) : Client :=
  { C with nodes := Function.update C.nodes node has }

def setBlock (C : Client) (p : ℕ) (has : Bool) : Client :=
  { C with blocks := Function.update C.blocks p has }

end Client

/-- A handle and the memory of its database.  `transactions` holds the `pos` of the nested
transactions as lengths of the log, the innermost first.  The client remembers its account
at the beginning of each transaction in `saved`. -/
structure State where
  memory : Memory
  running : Bool
  log : List LogItem
  transactions : List ℕ
  client : Client
  saved : List Client

/-- The calls of a client.  The addresses are what the allocators return; a string that is
written is null or a copy at such an address.  The outcome of `tr_validate` is open. -/
inductive Label
  | begin
  | write (node index : ℕ) (copy : Option ℕ)
  | create (type node : ℕ)
  | delete (node : ℕ)
  | alloc (p : ℕ)
  | free (p : ℕ)
  | commit (valid : Bool)
  | abort
  deriving DecidableEq, Repr

namespace State

/-- An empty database. -/
def initial : State where
  memory := ⟨fun _ => none, fun _ => false, false⟩
  running := false
  log := []
  transactions := []
  client := ⟨fun _ => false, fun _ => false⟩
  saved := []

def push (s : State) (items : List LogItem) : State := { s with log := s.log ++ items }

/-- `tr_begin`. -/
def trBegin (s : State) : State :=
  { s with
    running := true
    transactions := if s.running then s.log.length :: s.transactions else s.transactions
    saved := s.client :: s.saved }

/-- `attribute_write_String` for an attribute that holds `old`, up to the assignment. -/
def attributeWrite (s : State) (old : ℕ) : Option ℕ → Option State
  | none => some (s.push [.memoryDelete old])
  | some copy =>
      if s.memory.Free copy then
        some ({ s with memory := s.memory.allocate copy }.push
          [.memoryDelete old, .memoryAlloc copy])
      else none

/-- `trInternalWrite_` of a `String` attribute. -/
def trInternalWrite (s : State) (node index : ℕ) (copy : Option ℕ) : Option State := do
  let strings ← s.memory.nodes node
  let old ← strings[index]?
  let s ← s.attributeWrite old copy
  let new := copy.getD 0
  some ({ s with memory := s.memory.setString node index new }.push
    [.nodeModify node index old new])

/-- `tr_node_create`, with `count` attributes that are set to null. -/
def trNodeCreate (s : State) (count node : ℕ) : Option State :=
  if s.memory.Free node then
    some { s with
      memory := s.memory.create node count
      log := s.log ++ [.nodeAlloc node]
      client := s.client.setNode node true }
  else none

/-- `tr_node_delete`. -/
def trNodeDelete (s : State) (node : ℕ) : State :=
  { s.push [.nodeDelete node] with client := s.client.setNode node false }

/-- `tr_memory_alloc`. -/
def trMemoryAlloc (s : State) (p : ℕ) : Option State :=
  if s.memory.Free p then
    some { s with
      memory := s.memory.allocate p
      log := s.log ++ [.memoryAlloc p]
      client := s.client.setBlock p true }
  else none

/-- `tr_memory_free`. -/
def trMemoryFree (s : State) (p : ℕ) : State :=
  { s.push [.memoryDelete p] with client := s.client.setBlock p false }

/-- `_tr_handle_rollback` to a position; the client goes back to an earlier account. -/
def rollbackTo (s : State) (pos : ℕ) (client : Client) : State :=
  { s with
    memory := rollback logUndoItem s.memory (s.log.drop pos)
    log := s.log.take pos
    client := client }

/-- `tr_abort`. -/
def trAbort (s : State) : Option State :=
  match s.transactions, s.saved with
  | pos :: transactions, client :: saved =>
      some { s.rollbackTo pos client with transactions := transactions, saved := saved }
  | [], client :: _ => some { s.rollbackTo 0 client with running := false, saved := [] }
  | _, [] => none

/-- `tr_commit`.  A main transaction that is valid leaves its garbage to the service thread,
which frees it. -/
def trCommit (s : State) (valid : Bool) : Option State :=
  match s.transactions with
  | _ :: transactions => some { s with transactions := transactions, saved := s.saved.tail }
  | [] =>
      if s.log = [] ∨ valid then
        some { s with
          memory := freeGarbage s.memory (garbageStack s.log)
          running := false
          log := []
          saved := [] }
      else s.trAbort

/-- One call.  Nodes of a type have `strings type` attributes. -/
def step (strings : ℕ → ℕ) (s : State) : Label → Option State
  | .begin => some s.trBegin
  | .write node index copy => if s.running then s.trInternalWrite node index copy else none
  | .create type node => if s.running then s.trNodeCreate (strings type) node else none
  | .delete node => if s.running then some (s.trNodeDelete node) else none
  | .alloc p => if s.running then s.trMemoryAlloc p else none
  | .free p => if s.running then some (s.trMemoryFree p) else none
  | .commit valid => if s.running then s.trCommit valid else none
  | .abort => if s.running then s.trAbort else none

/-- The client uses and deletes nodes that it has, and frees blocks that it has. -/
def Allows (s : State) : Label → Prop
  | .write node _ _ => s.client.nodes node = true
  | .delete node => s.client.nodes node = true
  | .free p => s.client.blocks p = true
  | _ => True

instance (s : State) (l : Label) : Decidable (s.Allows l) := by
  cases l <;> unfold Allows <;> infer_instance

/-- The client can still reach a block: it holds it, or a node of the client does. -/
def Reachable (s : State) (b : ℕ) : Prop :=
  b ≠ 0 ∧ (s.client.blocks b = true ∨ ∃ node strings, s.client.nodes node = true ∧
    s.memory.nodes node = some strings ∧ b ∈ strings)

/-- Nothing has been released twice, everything the client can reach is allocated, and
outside of transactions nothing else is. -/
structure Released (s : State) : Prop where
  sound : s.memory.broken = false
  nodes : ∀ node, s.client.nodes node = true → (s.memory.nodes node).isSome
  blocks : ∀ b, s.Reachable b → s.memory.blocks b = true
  exactNodes : s.running = false → ∀ node,
    (s.memory.nodes node).isSome → s.client.nodes node = true
  exactBlocks : s.running = false → ∀ b, b ≠ 0 → s.memory.blocks b = true → s.Reachable b

end State

end HybridDatabase.Transaction.Release
