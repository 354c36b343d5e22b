/-
# Slots that are handed out and given back

Runs of `node_allocator_alloc` and `node_allocator_free` on one allocator, from an initialised
one in any memory.  The slots that are handed out do not overlap, the headers of the pages count
them, and a page is taken where every page is full and given back with its last slot.
-/

import HybridDatabase.Allocator.Handed
import HybridDatabase.Base.Runs

namespace HybridDatabase.Allocator

open HybridDatabase.Base

/-! ## Places in the memory -/

/-- `PAGE_ALLOCATOR_PAGE_SIZE`. -/
def pageSize : ℕ := 4096

/-- `sizeof(struct NodeAllocatorBlock)`. -/
def blockHeaderSize : ℕ := 56

/-- The size of a type, such that a node of it fits on a page. -/
structure NodeSize where
  bytes : ℕ
  positive : 0 < bytes
  fits : bytes ≤ pageSize - blockHeaderSize

namespace NodeSize

/-- `nodes_per_block`. -/
def nodesPerBlock (size : NodeSize) : ℕ := (pageSize - blockHeaderSize) / size.bytes

def layout (size : NodeSize) : Layout :=
  ⟨fun _ => size.nodesPerBlock, fun _ => Nat.div_pos size.fits size.positive⟩

/-- The address of a node in the memory. -/
def place (size : NodeSize) (a : Address) : ℕ := a.page + blockHeaderSize + a.slot * size.bytes

/-- `page_allocator_get_page`. -/
def getPage (address : ℕ) : ℕ := address - address % pageSize

variable {size : NodeSize} {a b : Address}

/-- A slot ends on its page. -/
theorem place_le (small : a.slot < size.nodesPerBlock) :
    size.place a + size.bytes ≤ a.page + pageSize := by
  have fits : (a.slot + 1) * size.bytes ≤ pageSize - blockHeaderSize :=
    (Nat.mul_le_mul_right _ small).trans (Nat.div_mul_le_self _ _)
  rw [Nat.succ_mul] at fits
  unfold place
  unfold blockHeaderSize pageSize at *
  omega

/-- The page of a node is found from its address. -/
theorem getPage_place (aligned : pageSize ∣ a.page) (small : a.slot < size.nodesPerBlock) :
    getPage (size.place a) = a.page := by
  obtain ⟨k, page⟩ := aligned
  have bound := place_le small
  have positive := size.positive
  have below : a.page ≤ size.place a := by
    unfold place
    omega
  unfold getPage
  rw [page] at bound below ⊢
  unfold pageSize at *
  omega

/-- Two slots do not overlap. -/
theorem place_apart (different : a ≠ b) (alignedA : pageSize ∣ a.page)
    (alignedB : pageSize ∣ b.page) (smallA : a.slot < size.nodesPerBlock)
    (smallB : b.slot < size.nodesPerBlock) :
    size.place a + size.bytes ≤ size.place b ∨ size.place b + size.bytes ≤ size.place a := by
  have endA := place_le smallA
  have endB := place_le smallB
  by_cases same : a.page = b.page
  · have apart : a.slot ≠ b.slot := by
      intro slots
      cases a
      cases b
      exact different (congrArg₂ Address.mk same slots)
    unfold place
    rw [same]
    rcases Nat.lt_or_gt_of_ne apart with before | after
    · have less := Nat.mul_le_mul_right size.bytes (Nat.succ_le_of_lt before)
      rw [Nat.succ_mul] at less
      omega
    · have less := Nat.mul_le_mul_right size.bytes (Nat.succ_le_of_lt after)
      rw [Nat.succ_mul] at less
      omega
  · obtain ⟨i, pageA⟩ := alignedA
    obtain ⟨j, pageB⟩ := alignedB
    have startA : a.page ≤ size.place a := by
      unfold place
      omega
    have startB : b.page ≤ size.place b := by
      unfold place
      omega
    unfold pageSize at *
    omega

end NodeSize

/-! ## Runs -/

/-- An allocator, the slots it has handed out and the pages it holds. -/
structure SlotRun where
  linked : LinkedAllocator
  allocated : List Address
  held : List ℕ

/-- A call, or a node gets an `id`. -/
inductive SlotCall
  | alloc (page : ℕ)
  | free (node : Address)
  | setId (node : Address) (id : ℕ)

namespace SlotRun

/-- `node_allocator_init` in any memory. -/
def start (memory : LinkedAllocator) : SlotRun := ⟨memory.init, [], []⟩

/-- Enough steps for a walk through the pages. -/
def fuel (size : NodeSize) (g : SlotRun) : ℕ := g.held.length * size.nodesPerBlock + 1

/-- `vpage_allocator_alloc` may give this page. -/
def FreshPage (g : SlotRun) (page : ℕ) : Prop := pageSize ∣ page ∧ page ∉ g.held

instance (g : SlotRun) (page : ℕ) : Decidable (g.FreshPage page) := by
  unfold FreshPage
  infer_instance

/-- One call; a node that is given back is one that is handed out. -/
def step (size : NodeSize) (type : ℕ) (g : SlotRun) : SlotCall → Option SlotRun
  | .alloc page =>
      if g.FreshPage page then
        let ret := g.linked.nodeAllocatorAlloc size.nodesPerBlock type page
        some ⟨ret.2, ret.1.1 :: g.allocated, if ret.1.2 then page :: g.held else g.held⟩
      else none
  | .free node =>
      if node ∈ g.allocated then
        (g.linked.nodeAllocatorFree size.nodesPerBlock (g.fuel size) node).map fun (freed, A) =>
          ⟨A, g.allocated.erase node, if freed then g.held.erase node.page else g.held⟩
      else none
  | .setId node id =>
      if node ∈ g.allocated then some { g with linked := g.linked.setId node id } else none

/-- What holds of the slots and the pages. -/
structure Sound (size : NodeSize) (g : SlotRun) (blocks dumpBlocks : List ℕ) : Prop where
  /-- The two lists hold the pages that are held. -/
  lists : g.linked.Lists blocks dumpBlocks
  onBlocks : blocks.Perm g.held
  onDump : dumpBlocks.Perm g.held
  pages : g.held.Nodup
  /-- The slots do not overlap. -/
  slots : g.allocated.Nodup
  apart : g.allocated.Pairwise fun a b =>
    size.place a + size.bytes ≤ size.place b ∨ size.place b + size.bytes ≤ size.place a
  inside : ∀ a ∈ g.allocated, a.page ∈ g.held ∧ a.slot < size.nodesPerBlock ∧
    NodeSize.getPage (size.place a) = a.page
  /-- The headers count the slots. -/
  used : ∀ page ∈ g.held, 0 < (g.linked.block page).used ∧
    (g.linked.block page).used = (g.allocated.filter fun a => a.page = page).length
  free : ∀ page ∈ g.held, (g.linked.block page).freeNodes.Nodup ∧
    ∀ slot, slot ∈ (g.linked.block page).freeNodes ↔
      slot < size.nodesPerBlock ∧ (⟨page, slot⟩ : Address) ∉ g.allocated
  /-- Full pages stand before the others. -/
  order : blocks.Pairwise fun p q =>
    (g.linked.block q).freeNodes = [] → (g.linked.block p).freeNodes = []

/-- What every call keeps. -/
structure Kept (size : NodeSize) (type : ℕ) (g : SlotRun) (blocks dumpBlocks : List ℕ) : Prop where
  handed : LinkedAllocator.Handed size.layout type g.linked blocks dumpBlocks g.allocated g.held
  aligned : ∀ page ∈ g.held, pageSize ∣ page

variable {size : NodeSize} {type : ℕ} {g : SlotRun} {blocks dumpBlocks : List ℕ}

theorem Kept.sound (kept : g.Kept size type blocks dumpBlocks) : g.Sound size blocks dumpBlocks where
  lists := kept.handed.lists
  onBlocks := kept.handed.pages
  onDump := kept.handed.dumpPages
  pages := kept.handed.nodup_held
  slots := kept.handed.nodup
  apart := by
    refine kept.handed.nodup.imp_of_mem fun {a b} first second different => ?_
    obtain ⟨-, heldA, smallA⟩ := kept.handed.inside first
    obtain ⟨-, heldB, smallB⟩ := kept.handed.inside second
    exact NodeSize.place_apart different (kept.aligned _ heldA) (kept.aligned _ heldB) smallA smallB
  inside := fun a among => by
    obtain ⟨-, held, small⟩ := kept.handed.inside among
    exact ⟨held, small, NodeSize.getPage_place (kept.aligned _ held) small⟩
  used := fun page inside => ⟨(kept.handed.filled inside).2.positive, kept.handed.used_eq inside⟩
  free := fun page inside => ⟨(kept.handed.filled inside).2.nodup, kept.handed.mem_freeNodes inside⟩
  order := by
    have ordered := kept.handed.ordered
    unfold Heap.Ordered at ordered
    rwa [LinkedAllocator.view_allocators] at ordered

/-- A slot is handed out that was not; a new page is taken where all are full. -/
theorem Kept.alloc (kept : g.Kept size type blocks dumpBlocks) {page : ℕ}
    (fresh : g.FreshPage page) :
    ∃ a taken A blocks' dumpBlocks',
      g.linked.nodeAllocatorAlloc size.nodesPerBlock type page = ((a, taken), A) ∧
      a ∉ g.allocated ∧ (taken = true → ∀ p ∈ g.held, (g.linked.block p).freeNodes = []) ∧
      Kept size type ⟨A, a :: g.allocated, if taken then page :: g.held else g.held⟩
        blocks' dumpBlocks' := by
  obtain ⟨blocks', ⟨a, done, unused, handed⟩ | ⟨done, full, handed⟩⟩ := kept.handed.allocSlot
  · rw [LinkedAllocator.nodeAllocatorAlloc_some done]
    exact ⟨a, false, _, blocks', dumpBlocks, rfl, unused, fun h => (nomatch h), handed, kept.aligned⟩
  · obtain ⟨unused, handed'⟩ := handed.allocPage fresh.2
    rw [LinkedAllocator.nodeAllocatorAlloc_none done]
    refine ⟨_, true, _, _, _, rfl, unused, fun _ => full, handed', fun p inside => ?_⟩
    rcases List.mem_cons.mp inside with rfl | inside
    · exact fresh.1
    · exact kept.aligned p inside

/-- A slot is given back; its page is freed with its last one. -/
theorem Kept.free (kept : g.Kept size type blocks dumpBlocks) {a : Address}
    (among : a ∈ g.allocated) :
    ∃ freed A blocks' dumpBlocks',
      g.linked.nodeAllocatorFree size.nodesPerBlock (g.fuel size) a = some (freed, A) ∧
      (freed = true ↔ (g.linked.block a.page).used = 1) ∧
      Kept size type ⟨A, g.allocated.erase a, if freed then g.held.erase a.page else g.held⟩
        blocks' dumpBlocks' := by
  have cleared : LinkedAllocator.Handed size.layout type (g.linked.setId a 0) blocks dumpBlocks
      g.allocated g.held := kept.handed.setId (.inr rfl)
  obtain ⟨freed, A, blocks', dumpBlocks', done, last, -, handed, -⟩ :=
    cleared.freeSlot among (Function.update_self ..) (Nat.lt_succ_self _)
  refine ⟨freed, A, blocks', dumpBlocks', done, last, handed, fun page inside => ?_⟩
  cases freed with
  | false => exact kept.aligned page inside
  | true => exact kept.aligned page (List.mem_of_mem_erase inside)

theorem Kept.step (kept : g.Kept size type blocks dumpBlocks) {call : SlotCall} {g' : SlotRun}
    (moved : g.step size type call = some g') :
    ∃ blocks' dumpBlocks', g'.Kept size type blocks' dumpBlocks' := by
  cases call with
  | alloc page =>
      unfold SlotRun.step at moved
      obtain ⟨fresh, moved⟩ := Option.ite_none_right_eq_some.mp moved
      obtain ⟨a, taken, A, blocks', dumpBlocks', done, -, -, kept'⟩ := kept.alloc fresh
      rw [done] at moved
      cases moved
      exact ⟨blocks', dumpBlocks', kept'⟩
  | free a =>
      unfold SlotRun.step at moved
      obtain ⟨among, moved⟩ := Option.ite_none_right_eq_some.mp moved
      obtain ⟨freed, A, blocks', dumpBlocks', done, -, kept'⟩ := kept.free among
      rw [done] at moved
      cases moved
      exact ⟨blocks', dumpBlocks', kept'⟩
  | setId a id =>
      obtain ⟨among, ⟨⟩⟩ := Option.ite_none_right_eq_some.mp moved
      exact ⟨blocks, dumpBlocks, kept.handed.setId (.inl among), kept.aligned⟩

/-- In every state that is reached the slots are sound; the next slot is one that is not handed
out, a page is taken where every page is full, and freed where its last slot is. -/
theorem slots_sound (size : NodeSize) (type : ℕ) (memory : LinkedAllocator) (g : SlotRun)
    (reaches : Reaches (step size type) anyStep (start memory) g) :
    (∃ blocks dumpBlocks, g.Sound size blocks dumpBlocks) ∧
    (∀ page, g.FreshPage page → ∃ a taken A,
      g.linked.nodeAllocatorAlloc size.nodesPerBlock type page = ((a, taken), A) ∧
      a ∉ g.allocated ∧ (taken = true → ∀ p ∈ g.held, (g.linked.block p).freeNodes = [])) ∧
    (∀ a ∈ g.allocated, ∃ freed A,
      g.linked.nodeAllocatorFree size.nodesPerBlock (g.fuel size) a = some (freed, A) ∧
      (freed = true ↔ (g.linked.block a.page).used = 1)) := by
  obtain ⟨blocks, dumpBlocks, kept⟩ : ∃ blocks dumpBlocks, g.Kept size type blocks dumpBlocks := by
    induction reaches with
    | start =>
        exact ⟨[], [], LinkedAllocator.handed_init size.layout type memory,
          fun page inside => (nomatch inside)⟩
    | step before _ moved ih =>
        obtain ⟨blocks, dumpBlocks, kept⟩ := ih
        exact kept.step moved
  refine ⟨⟨blocks, dumpBlocks, kept.sound⟩, fun page fresh => ?_, fun a among => ?_⟩
  · obtain ⟨a, taken, A, -, -, done, unused, full, -⟩ := kept.alloc fresh
    exact ⟨a, taken, A, done, unused, full⟩
  · obtain ⟨freed, A, -, -, done, last, -⟩ := kept.free among
    exact ⟨freed, A, done, last⟩

/-- Two nodes on a page: the third one takes a second page, and the first page is freed. -/
theorem slots_sound_twoPages : ∃ g : SlotRun,
    runSteps (step ⟨2000, by decide, by decide⟩ 0)
      (start ⟨⟨id, id⟩, ⟨id, id⟩, none, fun _ => ⟨[], 0, 0⟩, fun _ => 7, fun _ => 0⟩)
      [.alloc 4096, .alloc 8192, .alloc 8192, .setId ⟨8192, 1⟩ 5, .free ⟨4096, 0⟩,
        .free ⟨4096, 1⟩] = some g ∧
    ∃ blocks dumpBlocks, g.Sound ⟨2000, by decide, by decide⟩ blocks dumpBlocks := by
  have ran : (runSteps (step ⟨2000, by decide, by decide⟩ 0)
      (start ⟨⟨id, id⟩, ⟨id, id⟩, none, fun _ => ⟨[], 0, 0⟩, fun _ => 7, fun _ => 0⟩)
      [.alloc 4096, .alloc 8192, .alloc 8192, .setId ⟨8192, 1⟩ 5, .free ⟨4096, 0⟩,
        .free ⟨4096, 1⟩]).isSome = true := by decide +kernel
  obtain ⟨g, done⟩ := Option.isSome_iff_exists.mp ran
  have reaches := reaches_of_runSteps .start (fun _ _ _ => trivial) done
  exact ⟨g, done, (slots_sound _ 0 _ g reaches).1⟩

end SlotRun

end HybridDatabase.Allocator
