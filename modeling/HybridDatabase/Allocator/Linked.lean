/-
# The allocator of nodes with its linked lists

One `NodeAllocator`, whose two lists of pages are circular lists with a head.  A page is
`some page` in them and the head in the allocator is `none`, so that the head can be taken for
a page as the source does.

`view` is the same allocator with plain lists of its pages; every operation is followed by the
one there.
-/

import HybridDatabase.Allocator.ForEach
import HybridDatabase.Allocator.Order
import HybridDatabase.Utils.Ring

namespace HybridDatabase.Allocator

open HybridDatabase.Base
open HybridDatabase.Utils

/-- `struct NodeAllocator` of a type, and what stands in the pages. -/
structure LinkedAllocator where
  blocks : Links (Option ℕ)
  dumpBlocks : Links (Option ℕ)
  dumpPtr : Option Address
  block : ℕ → Block
  id : Address → ℕ
  lock : Address → ℕ

namespace LinkedAllocator

/-- `node_allocator_init`, with any memory. -/
def init (A : LinkedAllocator) : LinkedAllocator :=
  { A with
    blocks := A.blocks.listInitHead none
    dumpBlocks := A.dumpBlocks.listInitHead none
    dumpPtr := none }

def setId (a : Address) (id : ℕ) (A : LinkedAllocator) : LinkedAllocator :=
  { A with id := Function.update A.id a id }

/-! ## Taking a slot -/

/-- `slist_empty(&block->free_nodes)`.  Where the head of `blocks` is taken for a page, its
`free_nodes` would stand where the allocator has `dump_ptr`. -/
def freeNodesEmpty (A : LinkedAllocator) : Option ℕ → Bool
  | some page => (A.block page).freeNodes.isEmpty
  | none => A.dumpPtr.isNone

/-- The part of `node_allocator_alloc` that holds the mutex. -/
def allocSlot (A : LinkedAllocator) : Option Address × LinkedAllocator :=
  let block := A.blocks.prev none
  let (ret, A) : Option Address × LinkedAllocator :=
    match block with
    | none => (none, A)
    | some page =>
        match (A.block page).freeNodes with
        | [] => (none, A)
        | slot :: rest =>
            (some ⟨page, slot⟩, { A with
              block := Function.update A.block page
                ⟨rest, (A.block page).used + 1, (A.block page).type⟩ })
  (ret,
    if A.freeNodesEmpty block then
      { A with blocks := (A.blocks.listRemove block).listAddBegin none block }
    else A)

/-- `_node_allocator_alloc_page` with this page. -/
def allocPage (n type page : ℕ) (A : LinkedAllocator) : Address × LinkedAllocator :=
  (⟨page, n - 1⟩,
    { A with
      blocks := A.blocks.listAddEnd none (some page)
      dumpBlocks := A.dumpBlocks.listAddEnd none (some page)
      block := Function.update A.block page ⟨(List.range (n - 1)).reverse, 1, type⟩
      id := fun node => if node.page = page ∧ node.slot < n then 0 else A.id node
      lock := fun node => if node.page = page ∧ node.slot < n then 1 else A.lock node })

/-- `node_allocator_alloc`, where `vpage_allocator_alloc` would give `page`; the answer says
whether it was called. -/
def nodeAllocatorAlloc (n type page : ℕ) (A : LinkedAllocator) :
    (Address × Bool) × LinkedAllocator :=
  match A.allocSlot with
  | (some a, A) => ((a, false), A)
  | (none, A) => (((A.allocPage n type page).1, true), (A.allocPage n type page).2)

/-- Taking a slot changes no node and leaves the cursor where it is. -/
theorem allocSlot_same (A : LinkedAllocator) :
    A.allocSlot.2.dumpPtr = A.dumpPtr ∧ A.allocSlot.2.id = A.id := by
  have moved (c : Bool) (B : LinkedAllocator) (links : Links (Option ℕ)) :
      (if c then { B with blocks := links } else B).dumpPtr = B.dumpPtr ∧
        (if c then { B with blocks := links } else B).id = B.id := by
    cases c <;> exact ⟨rfl, rfl⟩
  unfold allocSlot
  cases A.blocks.prev none with
  | none => exact moved _ A _
  | some page =>
      cases free : (A.block page).freeNodes with
      | nil =>
          simp only [free]
          exact moved _ A _
      | cons slot rest =>
          simp only [free]
          exact moved _ { A with block := _ } _

theorem nodeAllocatorAlloc_some {n type page : ℕ} {A : LinkedAllocator} {a : Address}
    (done : A.allocSlot.1 = some a) :
    A.nodeAllocatorAlloc n type page = ((a, false), A.allocSlot.2) := by
  unfold nodeAllocatorAlloc
  rcases called : A.allocSlot with ⟨ret, B⟩
  rw [called] at done
  obtain rfl : ret = some a := done
  rfl

theorem nodeAllocatorAlloc_none {n type page : ℕ} {A : LinkedAllocator}
    (done : A.allocSlot.1 = none) :
    A.nodeAllocatorAlloc n type page = (((A.allocSlot.2.allocPage n type page).1, true),
      (A.allocSlot.2.allocPage n type page).2) := by
  unfold nodeAllocatorAlloc
  rcases called : A.allocSlot with ⟨ret, B⟩
  rw [called] at done
  obtain rfl : ret = none := done
  rfl

/-! ## The walk -/

/-- `_node_get_next_step`. -/
def getNextStep (n : ℕ) (A : LinkedAllocator) (node : Address) : Option Address :=
  if node.slot + 1 < n then some ⟨node.page, node.slot + 1⟩
  else (A.dumpBlocks.next (some node.page)).map fun page => ⟨page, 0⟩

/-- The loops that go on while `id` is zero; there is no answer after `fuel` steps. -/
def skipFree (n : ℕ) (A : LinkedAllocator) : ℕ → Option Address → Option (Option Address)
  | 0, _ => none
  | _ + 1, none => some none
  | fuel + 1, some node =>
      if A.id node ≠ 0 then some (some node) else skipFree n A fuel (A.getNextStep n node)

/-- `node_allocator_dump_init`. -/
def dumpInit (n fuel : ℕ) (A : LinkedAllocator) : Option LinkedAllocator := do
  let found ← A.skipFree n fuel ((A.dumpBlocks.next none).map fun page => ⟨page, 0⟩)
  return { A with dumpPtr := found }

/-- `_node_allocator_dump_next_nolock`; it needs a node in `dump_ptr`. -/
def dumpNext (n fuel : ℕ) (A : LinkedAllocator) : Option LinkedAllocator := do
  let node ← A.dumpPtr
  let found ← A.skipFree n fuel (A.getNextStep n node)
  return { A with dumpPtr := found }

/-! ## Freeing a slot -/

/-- The slot goes to the free ones of its page, or the page goes; the answer says whether the
page is passed to `vpage_allocator_free`. -/
def releaseSlot (node : Address) (A : LinkedAllocator) : Bool × LinkedAllocator :=
  let page := node.page
  let block := A.block page
  if block.used - 1 = 0 then
    (true, { A with
      blocks := A.blocks.listRemove (some page)
      dumpBlocks := A.dumpBlocks.listRemove (some page)
      block := Function.update A.block page ⟨block.freeNodes, block.used - 1, block.type⟩ })
  else
    (false, { A with
      blocks :=
        if block.freeNodes = [] then (A.blocks.listRemove (some page)).listAddEnd none (some page)
        else A.blocks
      block := Function.update A.block page
        ⟨node.slot :: block.freeNodes, block.used - 1, block.type⟩ })

/-- The part of `node_allocator_free` that holds the mutex; the cursor of the walk leaves the
slot first. -/
def freeSlot (n fuel : ℕ) (node : Address) (A : LinkedAllocator) :
    Option (Bool × LinkedAllocator) :=
  (if A.dumpPtr = some node then A.dumpNext n fuel else some A).map (releaseSlot node)

/-- `node_allocator_free`; the answer says whether the page is freed. -/
def nodeAllocatorFree (n fuel : ℕ) (node : Address) (A : LinkedAllocator) :
    Option (Bool × LinkedAllocator) := (A.setId node 0).freeSlot n fuel node

/-! ## The plain lists -/

/-- The circular lists hold these pages. -/
structure Lists (A : LinkedAllocator) (blocks dumpBlocks : List ℕ) : Prop where
  blocks : A.blocks.Ring none (blocks.map some)
  dumpBlocks : A.dumpBlocks.Ring none (dumpBlocks.map some)

/-- Other types have no pages. -/
def noPages : ℕ → NodeAllocator := fun _ => ⟨[], [], none⟩

/-- The allocator with plain lists of pages. -/
def view (type : ℕ) (blocks dumpBlocks : List ℕ) (A : LinkedAllocator) : Heap where
  allocators := Function.update noPages type ⟨blocks, dumpBlocks, A.dumpPtr⟩
  block := A.block
  id := A.id
  lock := A.lock

variable {L : Layout} {A A' : LinkedAllocator} {blocks dumpBlocks front rest : List ℕ}
  {type page : ℕ} {a : Address}

@[simp] theorem view_allocators (type : ℕ) (blocks dumpBlocks : List ℕ) (A : LinkedAllocator) :
    (A.view type blocks dumpBlocks).allocators type = ⟨blocks, dumpBlocks, A.dumpPtr⟩ :=
  Function.update_self type _ noPages

theorem setAllocator_view (type : ℕ) (blocks dumpBlocks : List ℕ) (A : LinkedAllocator)
    (B : NodeAllocator) : (A.view type blocks dumpBlocks).setAllocator type B =
      { A.view type B.blocks B.dumpBlocks with
        allocators := Function.update noPages type B } := by
  rw [Heap.setAllocator, view, view, Function.update_idem]

theorem lists_init (A : LinkedAllocator) : A.init.Lists [] [] :=
  ⟨Links.ring_listInitHead none A.blocks, Links.ring_listInitHead none A.dumpBlocks⟩

/-- The last page of the list. -/
theorem Lists.last (lists : A.Lists blocks dumpBlocks) :
    A.blocks.prev none = blocks.getLast? := by
  rw [lists.blocks.prev_head, List.getLastD_eq_getLast?, List.getLast?_map]
  cases blocks.getLast? <;> rfl

/-- The head of an empty list is put before itself. -/
theorem allocSlot_empty (lists : A.Lists [] dumpBlocks) : A.allocSlot = (none, A) := by
  have none : A.blocks.prev none = none := lists.last
  have unchanged : (A.blocks.listRemove Option.none).listAddBegin Option.none Option.none =
      A.blocks := lists.blocks.head_moved
  unfold allocSlot
  simp only [none, unchanged, ite_self]

/-- The last page goes to the begin of the list. -/
theorem Lists.moveFirst (lists : A.Lists (front ++ [page]) dumpBlocks) :
    ((A.blocks.listRemove (some page)).listAddBegin none (some page)).Ring none
      ((page :: front).map some) := by
  have ring := lists.blocks
  rw [List.map_append, List.map_singleton] at ring
  have removed := ring.listRemove
  rw [List.append_nil] at removed
  refine removed.listAddBegin fun inside => ?_
  rcases List.mem_cons.mp inside with head | other
  · cases head
  · obtain ⟨q, among, ⟨⟩⟩ := List.mem_map.mp other
    have nodup := (List.nodup_cons.mp ring.nodup).2
    exact (List.nodup_append.mp nodup).2.2 _ other _ (List.mem_singleton_self _) rfl

theorem Lists.nodup (lists : A.Lists blocks dumpBlocks) : blocks.Nodup :=
  (List.nodup_cons.mp lists.blocks.nodup).2.of_map some

theorem Lists.nodup_dumpBlocks (lists : A.Lists blocks dumpBlocks) : dumpBlocks.Nodup :=
  (List.nodup_cons.mp lists.dumpBlocks.nodup).2.of_map some

/-- Taking a slot does the same with the plain lists. -/
theorem Lists.allocSlot (lists : A.Lists blocks dumpBlocks) :
    ∃ blocks', A.allocSlot.1 = ((A.view type blocks dumpBlocks).allocSlot type).1 ∧
      A.allocSlot.2.Lists blocks' dumpBlocks ∧
      A.allocSlot.2.view type blocks' dumpBlocks =
        ((A.view type blocks dumpBlocks).allocSlot type).2 := by
  obtain rfl | ⟨front, page, rfl⟩ := List.eq_nil_or_concat' blocks
  · have none : ((A.view type [] dumpBlocks).allocators type).blocks.getLast? = none := by
      rw [view_allocators]
      rfl
    rw [Heap.allocSlot_none none, allocSlot_empty lists]
    exact ⟨[], rfl, lists, rfl⟩
  · have last : ((A.view type (front ++ [page]) dumpBlocks).allocators type).blocks.getLast? =
        some page := by
      rw [view_allocators]
      exact List.getLast?_concat
    have linkedLast : A.blocks.prev none = some page := by
      rw [lists.last, List.getLast?_concat]
    have erased := Heap.erase_last lists.nodup
    have moved := lists.moveFirst
    cases free : (A.block page).freeNodes with
    | nil =>
        rw [Heap.allocSlot_full last free]
        have done : A.allocSlot = (none, { A with
            blocks := (A.blocks.listRemove (some page)).listAddBegin none (some page) }) := by
          unfold LinkedAllocator.allocSlot
          simp [linkedLast, free, freeNodesEmpty]
        rw [done, setAllocator_view, view_allocators]
        refine ⟨page :: front, rfl, ⟨moved, lists.dumpBlocks⟩, ?_⟩
        rw [erased]
        rfl
    | cons slot rest =>
        rw [Heap.allocSlot_free last free]
        set taken : ℕ → Block := Function.update A.block page
          ⟨rest, (A.block page).used + 1, (A.block page).type⟩ with htaken
        have left : (taken page).freeNodes = rest := by
          rw [htaken, Function.update_self]
        have done : A.allocSlot = (some ⟨page, slot⟩,
            if rest.isEmpty then { A with
              blocks := (A.blocks.listRemove (some page)).listAddBegin none (some page)
              block := taken }
            else { A with block := taken }) := by
          unfold LinkedAllocator.allocSlot
          simp only [linkedLast, free, freeNodesEmpty, ← htaken, left]
        rw [done]
        cases rest with
        | nil =>
            rw [if_pos rfl]
            refine ⟨page :: front, rfl, ⟨moved, lists.dumpBlocks⟩, ?_⟩
            show _ = ((A.view type (front ++ [page]) dumpBlocks).setAllocator type _).setBlock page _
            rw [setAllocator_view, view_allocators, erased]
            rfl
        | cons other rest =>
            exact ⟨front ++ [page], rfl, ⟨lists.blocks, lists.dumpBlocks⟩, rfl⟩

/-- A new page goes to the end of both lists. -/
theorem Lists.allocPage (lists : A.Lists blocks dumpBlocks) (page : ℕ) (out : page ∉ blocks)
    (outDump : page ∉ dumpBlocks) :
    (A.allocPage (L.nodesPerBlock type) type page).2.Lists (blocks ++ [page])
        (dumpBlocks ++ [page]) ∧
      (A.allocPage (L.nodesPerBlock type) type page).2.view type (blocks ++ [page])
          (dumpBlocks ++ [page]) =
        ((A.view type blocks dumpBlocks).allocPage L type page).2 := by
  have fresh {pages : List ℕ} (out : page ∉ pages) : some page ∉ none :: pages.map some := by
    intro inside
    rcases List.mem_cons.mp inside with head | other
    · cases head
    · obtain ⟨q, among, ⟨⟩⟩ := List.mem_map.mp other
      exact out among
  refine ⟨⟨?_, ?_⟩, ?_⟩
  · rw [List.map_append, List.map_singleton]
    exact lists.blocks.listAddEnd (fresh out)
  · rw [List.map_append, List.map_singleton]
    exact lists.dumpBlocks.listAddEnd (fresh outDump)
  · rw [Heap.allocPage, view_allocators]
    have once (B C : NodeAllocator) : Function.update (Function.update noPages type B) type C =
        Function.update noPages type C := Function.update_idem B C noPages
    exact congrArg (fun allocators => Heap.mk allocators _ _ _) (once _ _).symm

/-! ## The walk along the lists -/

theorem Lists.getNextStep (lists : A.Lists blocks dumpBlocks) (inside : a.page ∈ dumpBlocks) :
    A.getNextStep (L.nodesPerBlock type) a =
      (A.view type blocks dumpBlocks).getNextStep L type a := by
  obtain ⟨front, rest, rfl⟩ := List.append_of_mem inside
  have ring := lists.dumpBlocks
  rw [List.map_append, List.map_cons] at ring
  have next : A.dumpBlocks.next (some a.page) = rest.head? := by
    rw [ring.neighbours.2]
    cases rest <;> rfl
  rw [LinkedAllocator.getNextStep, Heap.getNextStep, view_allocators, next,
    Heap.behind_eq lists.nodup_dumpBlocks rfl]

theorem Lists.walks (lists : A.Lists blocks dumpBlocks)
    (valid : (A.view type blocks dumpBlocks).Valid L) :
    Walks (A.getNextStep (L.nodesPerBlock type)) (Heap.slotsOf (L.nodesPerBlock type) dumpBlocks) := by
  have walks := Heap.walks_slots valid type
  rw [Heap.slots, view_allocators] at walks
  exact walks.congr fun a inside => lists.getNextStep (Heap.mem_slotsOf.mp inside).1

/-- The loop comes to the first node whose `id` is not zero. -/
theorem skipFree_eq {n fuel : ℕ} {l : List Address} (walks : Walks (A.getNextStep n) l)
    (enough : l.length < fuel) :
    A.skipFree n fuel l.head? = some (l.filter fun node => A.id node != 0).head? := by
  induction l generalizing fuel with
  | nil =>
      obtain ⟨fuel, rfl⟩ : ∃ k, fuel = k + 1 := ⟨fuel - 1, by omega⟩
      rfl
  | cons node rest ih =>
      obtain ⟨fuel, rfl⟩ : ∃ k, fuel = k + 1 := ⟨fuel - 1, by omega⟩
      rw [List.length_cons] at enough
      rw [List.head?_cons, skipFree]
      by_cases used : A.id node = 0
      · rw [if_neg (not_not_intro used), walks.1, ih walks.2 (by omega),
          List.filter_cons_of_neg (by simp [used])]
      · rw [if_pos used, List.filter_cons_of_pos (by simpa using used), List.head?_cons]

/-- `node_allocator_dump_init` comes to the first node. -/
theorem Lists.dumpInit (lists : A.Lists blocks dumpBlocks)
    (valid : (A.view type blocks dumpBlocks).Valid L) {fuel : ℕ}
    (enough : dumpBlocks.length * L.nodesPerBlock type < fuel) :
    A.dumpInit (L.nodesPerBlock type) fuel = some { A with dumpPtr :=
      ((Heap.slotsOf (L.nodesPerBlock type) dumpBlocks).filter fun node => A.id node != 0).head? } := by
  have first : (A.dumpBlocks.next none).map (fun page => (⟨page, 0⟩ : Address)) =
      (Heap.slotsOf (L.nodesPerBlock type) dumpBlocks).head? := by
    rw [Heap.head_slotsOf (L.positive type), lists.dumpBlocks.next_head]
    cases dumpBlocks <;> rfl
  rw [← Heap.length_slotsOf] at enough
  rw [LinkedAllocator.dumpInit, first, skipFree_eq (lists.walks valid) enough]
  rfl

/-- The walk goes on to the first node behind the cursor. -/
theorem Lists.dumpNext (lists : A.Lists blocks dumpBlocks)
    (valid : (A.view type blocks dumpBlocks).Valid L) {fuel : ℕ}
    (enough : dumpBlocks.length * L.nodesPerBlock type < fuel) {before after : List Address}
    (split : Heap.slotsOf (L.nodesPerBlock type) dumpBlocks = before ++ a :: after)
    (cursor : A.dumpPtr = some a) :
    A.dumpNext (L.nodesPerBlock type) fuel = some { A with dumpPtr :=
      (after.filter fun node => A.id node != 0).head? } := by
  have walks := lists.walks valid
  rw [split] at walks
  have later := walks.of_append
  rw [← Heap.length_slotsOf, split, List.length_append, List.length_cons] at enough
  rw [LinkedAllocator.dumpNext, cursor]
  show ((A.skipFree _ fuel (A.getNextStep _ a)).bind fun found =>
    some { A with dumpPtr := found }) = _
  rw [later.1, skipFree_eq later.2 (by omega)]
  rfl

/-! ## Freeing along the lists -/

/-- Where the cursor stands when `a` is freed. -/
def cursorAfter (L : Layout) (type : ℕ) (H : Heap) (a : Address) : Option Address :=
  if (H.allocators type).dumpPtr = some a then H.dumpNext L type a
  else (H.allocators type).dumpPtr

theorem Lists.moveCursor (lists : A.Lists blocks dumpBlocks)
    (valid : (A.view type blocks dumpBlocks).Valid L) {fuel : ℕ}
    (enough : dumpBlocks.length * L.nodesPerBlock type < fuel) (inside : a.page ∈ dumpBlocks)
    (small : a.slot < L.nodesPerBlock type) :
    (if A.dumpPtr = some a then A.dumpNext (L.nodesPerBlock type) fuel else some A) =
      some { A with dumpPtr := cursorAfter L type (A.view type blocks dumpBlocks) a } := by
  unfold cursorAfter
  rw [view_allocators]
  by_cases here : A.dumpPtr = some a
  · obtain ⟨before, after, split⟩ := List.append_of_mem (Heap.mem_slotsOf.mpr ⟨inside, small⟩)
    have slots : (A.view type blocks dumpBlocks).slots L type = before ++ a :: after := by
      rw [Heap.slots, view_allocators, ← split]
    rw [if_pos here, if_pos here, lists.dumpNext valid enough split here,
      Heap.dumpNext_eq valid slots]
    rfl
  · rw [if_neg here, if_neg here]

theorem ring_erase {links : Links (Option ℕ)} {pages : List ℕ}
    (ring : links.Ring none (pages.map some)) (inside : page ∈ pages) :
    (links.listRemove (some page)).Ring none ((pages.erase page).map some) := by
  have nodup : pages.Nodup := (List.nodup_cons.mp ring.nodup).2.of_map some
  obtain ⟨front, rest, rfl⟩ := List.append_of_mem inside
  have out : page ∉ front := fun other =>
    (List.nodup_append.mp nodup).2.2 page other page List.mem_cons_self rfl
  rw [List.map_append, List.map_cons] at ring
  rw [List.erase_append_right _ out, List.erase_cons_head, List.map_append]
  exact ring.listRemove

/-- The page goes to the end of the list. -/
theorem ring_moveLast {links : Links (Option ℕ)} {pages : List ℕ}
    (ring : links.Ring none (pages.map some)) (inside : page ∈ pages) :
    ((links.listRemove (some page)).listAddEnd none (some page)).Ring none
      ((pages.erase page ++ [page]).map some) := by
  have nodup : pages.Nodup := (List.nodup_cons.mp ring.nodup).2.of_map some
  rw [List.map_append, List.map_singleton]
  refine (ring_erase ring inside).listAddEnd fun among => ?_
  rcases List.mem_cons.mp among with head | other
  · cases head
  · obtain ⟨q, left, ⟨⟩⟩ := List.mem_map.mp other
    exact (nodup.mem_erase_iff.mp left).1 rfl

theorem setId_view (cleared : A.id a = 0) :
    (A.view type blocks dumpBlocks).setId a 0 = A.view type blocks dumpBlocks := by
  have same : Function.update A.id a 0 = A.id := by
    rw [← cleared, Function.update_eq_self]
  exact congrArg (fun id => Heap.mk _ _ id _) same

/-- `node_allocator_free` with the plain lists, where `id` is zero already. -/
theorem freeSlot_view (typed : (A.block a.page).type = type) (cleared : A.id a = 0) :
    (A.view type blocks dumpBlocks).freeSlot L a =
      if (A.block a.page).used - 1 = 0 then
        (true, (A.view type blocks dumpBlocks).setAllocator type
          ⟨blocks.erase a.page, dumpBlocks.erase a.page,
            cursorAfter L type (A.view type blocks dumpBlocks) a⟩)
      else (false, ((A.view type blocks dumpBlocks).setAllocator type
        ⟨if (A.block a.page).freeNodes = [] then blocks.erase a.page ++ [a.page] else blocks,
          dumpBlocks, cursorAfter L type (A.view type blocks dumpBlocks) a⟩).setBlock a.page
            ⟨a.slot :: (A.block a.page).freeNodes, (A.block a.page).used - 1, type⟩) := by
  unfold Heap.freeSlot cursorAfter
  have same : (A.view type blocks dumpBlocks).block = A.block := rfl
  simp only [setId_view cleared, same, typed, view_allocators]
  by_cases here : A.dumpPtr = some a
  · simp only [if_pos here]
    by_cases full : (A.block a.page).freeNodes = []
    · simp only [if_pos full]
    · simp only [if_neg full]
  · simp only [if_neg here]
    by_cases full : (A.block a.page).freeNodes = []
    · simp only [if_pos full]
    · simp only [if_neg full]

section FreeSlot

variable {fuel : ℕ} (lists : A.Lists blocks dumpBlocks)
  (valid : (A.view type blocks dumpBlocks).Valid L)
  (allocated : (A.view type blocks dumpBlocks).Allocated L a)
  (typed : (A.block a.page).type = type)

include allocated typed

theorem mem_of_allocated : a.page ∈ blocks := by
  have owned := allocated.1
  unfold Heap.Owns at owned
  rw [show ((A.view type blocks dumpBlocks).block a.page).type = type from typed,
    view_allocators] at owned
  exact owned

include valid

theorem slot_of_allocated : a.page ∈ dumpBlocks ∧ a.slot < L.nodesPerBlock type := by
  have same := valid.same type
  rw [view_allocators] at same
  have small := allocated.2.1
  rw [show ((A.view type blocks dumpBlocks).block a.page).type = type from typed] at small
  exact ⟨same.mem_iff.mp (mem_of_allocated allocated typed), small⟩

variable (enough : dumpBlocks.length * L.nodesPerBlock type < fuel) (cleared : A.id a = 0)

include lists enough cleared

/-- The last slot in use of a page is freed: the page leaves both lists. -/
theorem freeSlot_last (last : (A.block a.page).used - 1 = 0) :
    ∃ A', A.freeSlot (L.nodesPerBlock type) fuel a = some (true, A') ∧
      A'.Lists (blocks.erase a.page) (dumpBlocks.erase a.page) ∧
      A'.view type (blocks.erase a.page) (dumpBlocks.erase a.page) =
        ((A.view type blocks dumpBlocks).freeSlot L a).2.setBlock a.page
          ⟨(A.block a.page).freeNodes, (A.block a.page).used - 1, type⟩ := by
  have inside := mem_of_allocated allocated typed
  obtain ⟨insideDump, small⟩ := slot_of_allocated valid allocated typed
  unfold LinkedAllocator.freeSlot
  rw [lists.moveCursor valid enough insideDump small, Option.map_some, releaseSlot]
  simp only [if_pos last]
  refine ⟨_, rfl, ⟨ring_erase lists.blocks inside, ring_erase lists.dumpBlocks insideDump⟩, ?_⟩
  rw [freeSlot_view typed cleared, if_pos last, setAllocator_view, view, typed]
  rfl

/-- A slot of a page is freed and others of it are in use. -/
theorem freeSlot_more (more : (A.block a.page).used - 1 ≠ 0) :
    ∃ blocks' A', A.freeSlot (L.nodesPerBlock type) fuel a = some (false, A') ∧
      A'.Lists blocks' dumpBlocks ∧
      A'.view type blocks' dumpBlocks = ((A.view type blocks dumpBlocks).freeSlot L a).2 := by
  have inside := mem_of_allocated allocated typed
  obtain ⟨insideDump, small⟩ := slot_of_allocated valid allocated typed
  unfold LinkedAllocator.freeSlot
  rw [lists.moveCursor valid enough insideDump small, Option.map_some, releaseSlot]
  simp only [if_neg more]
  refine ⟨if (A.block a.page).freeNodes = [] then blocks.erase a.page ++ [a.page] else blocks,
    _, rfl, ⟨?_, lists.dumpBlocks⟩, ?_⟩
  · by_cases full : (A.block a.page).freeNodes = []
    · rw [if_pos full, if_pos full]
      exact ring_moveLast lists.blocks inside
    · rw [if_neg full, if_neg full]
      exact lists.blocks
  · rw [freeSlot_view typed cleared, if_neg more, setAllocator_view, view, typed]
    rfl

end FreeSlot

end LinkedAllocator

end HybridDatabase.Allocator
