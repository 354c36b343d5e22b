/-
# The allocator of nodes

Nodes live in pages, one list of pages for each type of nodes.  A page has a header with
a list of its free slots; it goes to the begin of the list of pages when it is full and
to the end when a slot of it becomes free, so that the last page is the one to take a
slot from.

A second list of the pages, `dump_blocks`, is the order in which the nodes are walked
through.  The walk does not know which slots are taken: it stops at the slots whose `id`
is not zero.
-/

import HybridDatabase.Allocator.Pages
import HybridDatabase.Base.Walk

namespace HybridDatabase.Allocator

open HybridDatabase.Base

/-- How many nodes of each type a page holds, `nodes_per_block`.  The size of a type is
such that there is place for one. -/
structure Layout where
  nodesPerBlock : ℕ → ℕ
  positive : ∀ type, 0 < nodesPerBlock type

/-- The address of a node: its page, and its place in `block->data`. -/
structure Address where
  page : ℕ
  slot : ℕ
  deriving DecidableEq, Repr

/-- The header of a page, `struct NodeAllocatorBlock`; the top of `free_nodes` comes
first. -/
structure Block where
  freeNodes : List ℕ
  used : ℕ
  type : ℕ

/-- `struct NodeAllocator`. -/
structure NodeAllocator where
  blocks : List ℕ
  dumpBlocks : List ℕ
  dumpPtr : Option Address

/-- The node allocators of the types, and what stands in the pages: the headers, and the
`id` and the `lock` of the nodes. -/
structure Heap where
  allocators : ℕ → NodeAllocator
  block : ℕ → Block
  id : Address → ℕ
  lock : Address → ℕ

namespace Heap

/-- `node_allocator_init` of every type. -/
def init : Heap where
  allocators := fun _ => ⟨[], [], none⟩
  block := fun _ => ⟨[], 0, 0⟩
  id := fun _ => 0
  lock := fun _ => 1

def setAllocator (H : Heap) (type : ℕ) (A : NodeAllocator) : Heap :=
  { H with allocators := Function.update H.allocators type A }

def setBlock (H : Heap) (page : ℕ) (block : Block) : Heap :=
  { H with block := Function.update H.block page block }

def setId (H : Heap) (a : Address) (id : ℕ) : Heap :=
  { H with id := Function.update H.id a id }

/-! ## The walk -/

/-- The page behind another one. -/
def behind : List ℕ → ℕ → Option ℕ
  | [], _ => none
  | page :: rest, q => if page = q then rest.head? else behind rest q

/-- `_node_get_next_step`. -/
def getNextStep (L : Layout) (type : ℕ) (H : Heap) (node : Address) : Option Address :=
  if node.slot + 1 < L.nodesPerBlock type then some ⟨node.page, node.slot + 1⟩
  else (behind (H.allocators type).dumpBlocks node.page).map fun page => ⟨page, 0⟩

/-- The first place of the walk. -/
def firstStep (type : ℕ) (H : Heap) : Option Address :=
  (H.allocators type).dumpBlocks.head?.map fun page => ⟨page, 0⟩

/-- Enough steps for a walk. -/
def steps (L : Layout) (type : ℕ) (H : Heap) : ℕ :=
  (H.allocators type).dumpBlocks.length * L.nodesPerBlock type + 1

/-- The loop of `node_allocator_dump_init` and `_node_allocator_dump_next_nolock`, which
go on while `id` is zero. -/
def skipFree (L : Layout) (type : ℕ) (H : Heap) : Option Address → Option Address :=
  search (H.getNextStep L type) (fun node => H.id node != 0) (H.steps L type)

/-- `_node_allocator_dump_next_nolock`: the node after this one. -/
def dumpNext (L : Layout) (type : ℕ) (H : Heap) (node : Address) : Option Address :=
  H.skipFree L type (H.getNextStep L type node)

/-- `node_allocator_dump_init`: the first node. -/
def dumpInit (L : Layout) (type : ℕ) (H : Heap) : Option Address :=
  H.skipFree L type (H.firstStep type)

/-- The nodes that `node_for_each` visits, where the loop takes and frees none. -/
def nodeForEach (L : Layout) (type : ℕ) (H : Heap) : List Address :=
  visits (H.dumpNext L type) (H.steps L type) (H.dumpInit L type)

/-! ## Taking and freeing slots -/

/-- The part of `node_allocator_alloc` that holds the mutex: take a slot of the last
page, if it has one. -/
def allocSlot (type : ℕ) (H : Heap) : Option Address × Heap :=
  let A := H.allocators type
  match A.blocks.getLast? with
  | none => (none, H)
  | some page =>
      let block := H.block page
      let begin_ := { A with blocks := page :: A.blocks.erase page }
      match block.freeNodes with
      | [] => (none, H.setAllocator type begin_)
      | slot :: rest =>
          let H := H.setBlock page ⟨rest, block.used + 1, block.type⟩
          (some ⟨page, slot⟩, if rest = [] then H.setAllocator type begin_ else H)

/-- `_node_allocator_alloc_page` with this page. -/
def allocPage (L : Layout) (type page : ℕ) (H : Heap) : Address × Heap :=
  let A := H.allocators type
  let last := L.nodesPerBlock type - 1
  (⟨page, last⟩,
    { allocators := Function.update H.allocators type
        ⟨A.blocks ++ [page], A.dumpBlocks ++ [page], A.dumpPtr⟩
      block := Function.update H.block page ⟨(List.range last).reverse, 1, type⟩
      id := fun node => if node.page = page ∧ node.slot < L.nodesPerBlock type then 0 else H.id node
      lock := fun node =>
        if node.page = page ∧ node.slot < L.nodesPerBlock type then 1 else H.lock node })

/-- `node_allocator_free` up to the call of `vpage_allocator_free`; the answer says
whether the page is to be freed. -/
def freeSlot (L : Layout) (node : Address) (H : Heap) : Bool × Heap :=
  let block := H.block node.page
  let type := block.type
  let H := H.setId node 0
  let A := H.allocators type
  let A := if A.dumpPtr = some node then { A with dumpPtr := H.dumpNext L type node } else A
  if block.used - 1 = 0 then
    (true, H.setAllocator type
      { A with blocks := A.blocks.erase node.page, dumpBlocks := A.dumpBlocks.erase node.page })
  else
    let A := if block.freeNodes = [] then { A with blocks := A.blocks.erase node.page ++ [node.page] }
      else A
    (false, (H.setAllocator type A).setBlock node.page
      ⟨node.slot :: block.freeNodes, block.used - 1, type⟩)

end Heap

end HybridDatabase.Allocator
