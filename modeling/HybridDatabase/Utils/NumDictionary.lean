/-
# The dictionary of numbers

`NumDictionary` is a hash table with chained buckets.  Its nodes are cut from pages; a free
node is kept in a list that goes through the same pointer as the chains of the buckets.
The table grows and shrinks by one entry of a list of capacities.

An operation answers `none` where the source would divide by zero, follow a null pointer,
leave an array or fail an assertion.  A walk along a chain has fuel for one node more than
the dictionary counts.
-/

import Mathlib.Logic.Function.Basic
import Mathlib.Data.List.Basic

namespace HybridDatabase.Utils

/-- `struct NumDictionaryNode` with the value behind it; the null pointer is 0. -/
structure DictionaryNode (V : Type) where
  next : ℕ
  key : UInt64
  value : V

/-- `NumDictionary`, and the memory of the nodes. -/
structure NumDictionary (V : Type) where
  size : ℕ
  capacity : ℕ
  capacityIndex : ℕ
  buckets : List ℕ
  pages : List ℕ
  freeNodes : ℕ
  nodes : ℕ → DictionaryNode V

/-- `_ndict_capacities`. -/
def ndictCapacities : List ℕ :=
  [0, 29, 53, 89, 137, 211, 331, 499, 727, 1061, 1543, 2239, 3229, 4657, 6761, 9767, 14083,
    20287, 29243, 42131, 60703, 87433, 125927, 181361, 261223, 376171, 541699, 780119, 1123391,
    1617739, 2329559, 3354581, 4830619, 6956203, 10017011, 14424539, 20771371, 29910821,
    43071601, 51685939, 74427803, 107176057, 154333591, 222240413, 320026249, 460837813,
    663606499, 955593439, 1376054569, 1981518631, 2853386881, 4108877153, 4294967291,
    8294967337, 12294967297, 16294967303, 24294967309, 32294967307, 48294967321, 64294967299,
    0]

/-- `PAGE_ALLOCATOR_PAGE_SIZE`. -/
def dictionaryPageSize : ℕ := 4096

/-- `_ndict_hash`; there is no remainder of a division by zero. -/
def ndictHash (capacity : ℕ) (key : UInt64) : Option ℕ :=
  if capacity = 0 then none else some ((key * 2971215073).toNat % capacity)

/-- `node->next = next`. -/
def setNext {V : Type} (nodes : ℕ → DictionaryNode V) (node next : ℕ) :
    ℕ → DictionaryNode V :=
  Function.update nodes node { nodes node with next := next }

namespace NumDictionary

variable {V : Type}

/-- `ndict_generic_init`; `memory` is what the memory of the nodes holds. -/
def init (memory : ℕ → DictionaryNode V) : NumDictionary V :=
  ⟨0, 0, 0, [], [], 0, memory⟩

/-! ## Finding a node -/

/-- The loop of `ndict_generic_get_node`. -/
def findFrom (nodes : ℕ → DictionaryNode V) (key : UInt64) : ℕ → ℕ → Option ℕ
  | 0, _ => none
  | fuel + 1, node =>
      if node = 0 then some 0
      else if (nodes node).key = key then some node
      else findFrom nodes key fuel (nodes node).next

/-- `ndict_generic_get_node`. -/
def getNode (key : UInt64) (s : NumDictionary V) : Option ℕ :=
  if s.capacity = 0 then some 0
  else do
    let bucket ← ndictHash s.capacity key
    let node ← s.buckets[bucket]?
    findFrom s.nodes key (s.size + 1) node

/-! ## Another capacity -/

/-- The inner loop of `_ndict_resize`: the nodes of one chain go into the new buckets. -/
def moveChain (newCap : ℕ) : ℕ → ℕ → List ℕ → (ℕ → DictionaryNode V) →
    Option (List ℕ × (ℕ → DictionaryNode V))
  | 0, _, _, _ => none
  | fuel + 1, node, buckets, nodes =>
      if node = 0 then some (buckets, nodes)
      else do
        let next := (nodes node).next
        let bucket ← ndictHash newCap (nodes node).key
        let first ← buckets[bucket]?
        moveChain newCap fuel next (buckets.set bucket node) (setNext nodes node first)

/-- The outer loop of `_ndict_resize`, over the old buckets. -/
def moveChains (newCap fuel : ℕ) : List ℕ → List ℕ → (ℕ → DictionaryNode V) →
    Option (List ℕ × (ℕ → DictionaryNode V))
  | [], buckets, nodes => some (buckets, nodes)
  | first :: others, buckets, nodes => do
      let (buckets, nodes) ← moveChain newCap fuel first buckets nodes
      moveChains newCap fuel others buckets nodes

/-- `_ndict_resize`, one entry up or down. -/
def resize (up : Bool) (s : NumDictionary V) : Option (NumDictionary V) := do
  let capacityIndex := if up then s.capacityIndex + 1 else s.capacityIndex - 1
  let newCap ← ndictCapacities[capacityIndex]?
  if newCap = 0 then
    -- `assert(0)` at the end of the list of capacities
    if up then none else some s
  else do
    let (buckets, nodes) ←
      moveChains newCap (s.size + 1) s.buckets (List.replicate newCap 0) s.nodes
    return { s with capacity := newCap, capacityIndex, buckets, nodes }

/-! ## Nodes -/

/-- `slist_push` on `free_nodes`. -/
def pushFree (node : ℕ) (s : NumDictionary V) : NumDictionary V :=
  { s with nodes := setNext s.nodes node s.freeNodes, freeNodes := node }

/-- `slist_pop` of `free_nodes`. -/
def popFree (s : NumDictionary V) : ℕ × NumDictionary V :=
  (s.freeNodes,
    { s with freeNodes := if s.freeNodes = 0 then 0 else (s.nodes s.freeNodes).next })

/-- The nodes of a page. -/
def pageNodes (nodeSize page : ℕ) : List ℕ :=
  (List.range ((dictionaryPageSize - 16) / nodeSize)).map fun i => page + 16 + nodeSize * i

/-- `_ndict_alloc_nodes`, where `page_alloc` gives `page`. -/
def allocNodes (nodeSize page : ℕ) (s : NumDictionary V) : ℕ × NumDictionary V :=
  let s := { s with pages := page :: s.pages }
  ((pageNodes nodeSize page).foldl (fun s node => s.pushFree node) s).popFree

/-- The node that `ndict_insert` takes. -/
def takeNode (nodeSize page : ℕ) (s : NumDictionary V) : ℕ × NumDictionary V :=
  let (node, s) := s.popFree
  if node = 0 then s.allocNodes nodeSize page else (node, s)

/-! ## The operations -/

/-- `ndict_generic_insert`. -/
def insertNode (node : ℕ) (s : NumDictionary V) : Option (Bool × NumDictionary V) := do
  let present ← s.getNode (s.nodes node).key
  if present ≠ 0 then some (false, s.pushFree node)
  else do
    let s ← if s.capacity < s.size * 2 + 1 then s.resize true else some s
    let bucket ← ndictHash s.capacity (s.nodes node).key
    let first ← s.buckets[bucket]?
    return (true, { s with
      nodes := setNext s.nodes node first
      buckets := s.buckets.set bucket node
      size := s.size + 1 })

/-- `ndict_insert`. -/
def insert (nodeSize page : ℕ) (key : UInt64) (value : V) (s : NumDictionary V) :
    Option (Bool × NumDictionary V) :=
  let (node, s) := s.takeNode nodeSize page
  if node = 0 then none
  else { s with nodes := Function.update s.nodes node ⟨(s.nodes node).next, key, value⟩ }
    |>.insertNode node

/-- What `node_ptr` points to. -/
inductive Slot
  | bucket (index : ℕ)
  | next (node : ℕ)

/-- `*node_ptr`. -/
def load (s : NumDictionary V) : Slot → Option ℕ
  | .bucket index => s.buckets[index]?
  | .next node => some (s.nodes node).next

/-- `*node_ptr = node`. -/
def store (s : NumDictionary V) (node : ℕ) : Slot → NumDictionary V
  | .bucket index => { s with buckets := s.buckets.set index node }
  | .next before => { s with nodes := setNext s.nodes before node }

/-- The loop of `ndict_generic_remove`; inside, `none` stands for a key that is not found. -/
def removeFrom (key : UInt64) (s : NumDictionary V) : ℕ → Slot → Option (Option (NumDictionary V))
  | 0, _ => none
  | fuel + 1, slot => do
      let node ← s.load slot
      if node = 0 then some none
      else if (s.nodes node).key = key then
        some (some ((s.store (s.nodes node).next slot).pushFree node))
      else removeFrom key s fuel (.next node)

/-- `ndict_generic_remove`. -/
def remove (key : UInt64) (s : NumDictionary V) : Option (Bool × NumDictionary V) :=
  if s.capacity = 0 then some (false, s)
  else do
    let bucket ← ndictHash s.capacity key
    match ← removeFrom key s (s.size + 1) (.bucket bucket) with
    | none => some (false, s)
    | some s => do
        let s : NumDictionary V := { s with size := s.size - 1 }
        let s ← if s.size * 4 < s.capacity then s.resize false else some s
        return (true, s)

/-- The inner loop of `ndictFor`. -/
def visitFrom (nodes : ℕ → DictionaryNode V) : ℕ → ℕ → Option (List (UInt64 × V))
  | 0, _ => none
  | fuel + 1, node =>
      if node = 0 then some []
      else do
        let others ← visitFrom nodes fuel (nodes node).next
        return ((nodes node).key, (nodes node).value) :: others

/-- The pairs that `ndictFor` visits, one after another. -/
def visit (s : NumDictionary V) : Option (List (UInt64 × V)) := do
  let chains ← (s.buckets.take s.capacity).mapM (visitFrom s.nodes (s.size + 1))
  return chains.flatten

end NumDictionary

end HybridDatabase.Utils
