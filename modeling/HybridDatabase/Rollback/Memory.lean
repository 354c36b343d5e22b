/-
# Bytes in memory

The memory of a database, byte by byte: the nodes and the blocks of transactional memory
that are in use, and what stands at every address.  What stands where nothing is in use
does not matter: allocators write there.
-/

import HybridDatabase.Database.Load

namespace HybridDatabase.Rollback

open HybridDatabase.Storage HybridDatabase.Database

/-! ## Reading and writing bytes -/

abbrev Contents := ℕ → UInt8

namespace Contents

/-- The bytes of an object. -/
def read (m : Contents) (address size : ℕ) : Bytes := (List.range size).map fun i => m (address + i)

/-- `memcpy` to an address. -/
def write (m : Contents) (address : ℕ) (bytes : Bytes) : Contents := fun x =>
  if address ≤ x ∧ x < address + bytes.length then bytes.getD (x - address) 0 else m x

variable {m m' : Contents} {address size x : ℕ} {bytes : Bytes}

@[simp]
theorem length_read (m : Contents) (address size : ℕ) : (m.read address size).length = size := by
  simp [read]

theorem read_congr (same : ∀ x, address ≤ x → x < address + size → m x = m' x) :
    m.read address size = m'.read address size := by
  refine List.map_congr_left fun i inside => ?_
  rw [List.mem_range] at inside
  exact same _ (by omega) (by omega)

theorem write_outside (outside : x < address ∨ address + bytes.length ≤ x) :
    m.write address bytes x = m x := by
  rw [write, if_neg (by omega)]

theorem write_congr (m m' : Contents) (address : ℕ) (bytes : Bytes) (same : m x = m' x) :
    m.write address bytes x = m'.write address bytes x := by
  rw [write, write, same]

/-- The old bytes put back. -/
theorem write_write_read (m : Contents) (address : ℕ) (bytes : Bytes) :
    (m.write address bytes).write address (m.read address bytes.length) = m := by
  funext x
  by_cases inside : address ≤ x ∧ x < address + bytes.length
  · rw [write, length_read, if_pos inside]
    have low : x - address < bytes.length := by omega
    have place : address + (x - address) = x := by omega
    simp [read, low, place]
  · rw [write_outside (by rw [length_read]; omega), write_outside (by omega)]

end Contents

/-- The memory of a number of 64 bits. -/
def wordBytes (n : ℕ) : Bytes := leBytes 8 n

/-- A number from memory. -/
def ofWord (bytes : Bytes) : ℕ := shiftIn 0 bytes

@[simp]
theorem length_wordBytes (n : ℕ) : (wordBytes n).length = 8 := length_leBytes 8 n

theorem ofWord_wordBytes {n : ℕ} (small : n < 2 ^ 64) : ofWord (wordBytes n) = n :=
  shiftIn_leBytes_of_lt small

theorem wordBytes_ofWord {bytes : Bytes} (word : bytes.length = 8) :
    wordBytes (ofWord bytes) = bytes := by
  have back := leBytes_shiftIn bytes
  rwa [word] at back

/-! ## Nodes and blocks -/

/-- `attribute_size`. -/
def attributeSize (type : AttrType) : ℕ :=
  match type.kind with
  | .raw size => size
  | .number bits => bits / 8
  | .string | .rawString | .pointer => 8

/-- `PAGE_ALLOCATOR_PAGE_SIZE`. -/
def pageSize : ℕ := 4096

/-- `sizeof(struct NodeAllocatorBlock)`. -/
def nodeAllocatorBlockSize : ℕ := 56

/-- How the compiler lays out the nodes of a type: the size of a node and the offsets of
its attributes.  A node fits into a page of the node allocator, and its attributes lie behind
`ref_count`, `id` and `lock`. -/
structure NodeLayout (T : DatabaseType) where
  size : ℕ → ℕ
  offset : ℕ → ℕ → ℕ
  header : ∀ type, 24 ≤ size type
  page : ∀ type, size type ≤ pageSize - nodeAllocatorBlockSize
  behind : ∀ type index attr, attributeAt T type index = some attr → 24 ≤ offset type index
  inside : ∀ type index attr, attributeAt T type index = some attr →
    offset type index + attributeSize attr.type ≤ size type

/-- `nodes` are the types of the nodes in use and `blocks` the sizes of the blocks of
transactional memory, by their addresses. -/
structure Memory where
  contents : Contents
  nodes : ℕ → Option ℕ
  blocks : ℕ → Option ℕ

namespace Memory

variable {T : DatabaseType} (L : NodeLayout T)

/-- The address belongs to a node or a block in use. -/
def InUse (M : Memory) (x : ℕ) : Prop :=
  (∃ p type, M.nodes p = some type ∧ p ≤ x ∧ x < p + L.size type) ∨
    ∃ p size, M.blocks p = some size ∧ p ≤ x ∧ x < p + size

/-- What an allocator leaves in an area. -/
def scribble (junk m : Contents) (address size : ℕ) : Contents := fun x =>
  if address ≤ x ∧ x < address + size then junk x else m x

/-- `generic_allocator_free`.  Its header in the block, and whoever gets the memory next,
overwrite the block. -/
def genericAllocatorFree (junk : Contents) (M : Memory) (p : ℕ) : Memory :=
  if p = 0 then M
  else
    match M.blocks p with
    | none => M
    | some size =>
        { M with
          contents := scribble junk M.contents p size
          blocks := Function.update M.blocks p none }

/-- `attribute_destroy`. -/
def attributeDestroy (junk : Contents) (M : Memory) (address : ℕ) (type : AttrType) : Memory :=
  match type.kind with
  | .string | .rawString => M.genericAllocatorFree junk (ofWord (M.contents.read address 8))
  | _ => { M with contents := M.contents.write address (List.replicate (attributeSize type) 0) }

/-- `destroy` of a node type: its attributes one after another. -/
def destroy (junk : Contents) (M : Memory) (p type : ℕ) : Memory :=
  ((T.nodeTypes[type]?).elim [] NodeType.attributes).zipIdx.foldl
    (fun M (attr, index) => M.attributeDestroy junk (p + L.offset type index) attr.type) M

/-- `node_allocator_free`. -/
def nodeAllocatorFree (junk : Contents) (M : Memory) (p type : ℕ) : Memory :=
  { M with
    contents := scribble junk M.contents p (L.size type)
    nodes := Function.update M.nodes p none }

/-- `init` of a node type: every attribute is set to zero. -/
def init (m : Contents) (p type : ℕ) : Contents :=
  ((T.nodeTypes[type]?).elim [] NodeType.attributes).zipIdx.foldl
    (fun m (attr, index) =>
      m.write (p + L.offset type index) (List.replicate (attributeSize attr.type) 0)) m

/-- The same nodes and blocks are in use, and the same stands in them. -/
structure Agrees (M M' : Memory) : Prop where
  nodes : M.nodes = M'.nodes
  blocks : M.blocks = M'.blocks
  contents : ∀ x, M.InUse L x → M.contents x = M'.contents x

variable {L} {M M' M'' : Memory}

theorem InUse.congr (nodes : M.nodes = M'.nodes) (blocks : M.blocks = M'.blocks) {x : ℕ}
    (used : M.InUse L x) : M'.InUse L x := by
  rwa [InUse, ← nodes, ← blocks]

namespace Agrees

theorem refl (M : Memory) : Agrees L M M := ⟨rfl, rfl, fun _ _ => rfl⟩

theorem symm (agrees : Agrees L M M') : Agrees L M' M where
  nodes := agrees.nodes.symm
  blocks := agrees.blocks.symm
  contents x used := (agrees.contents x (used.congr agrees.nodes.symm agrees.blocks.symm)).symm

theorem trans (one : Agrees L M M') (two : Agrees L M' M'') : Agrees L M M'' where
  nodes := one.nodes.trans two.nodes
  blocks := one.blocks.trans two.blocks
  contents x used :=
    (one.contents x used).trans (two.contents x (used.congr one.nodes one.blocks))

end Agrees

end Memory

end HybridDatabase.Rollback
