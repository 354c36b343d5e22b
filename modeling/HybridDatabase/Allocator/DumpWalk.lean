/-
# The walk of a dump among other calls

A dump walks through the slots of a type with the cursor `dump_ptr` of the allocator, while
other threads take and free slots.  Every critical section is a step, and so is each write of an
`id` outside of one: a critical section reads an `id` once, so that a write during it is one
before or after it.
-/

import HybridDatabase.Allocator.SlotRuns

namespace HybridDatabase.Allocator

open HybridDatabase.Base

/-- What the walking thread does: it reads the cursor, or it has locked the node there. -/
inductive Walker
  | reading
  | holding (node : Address)
  deriving DecidableEq

/-- An allocator, its slots and pages, and the walk. -/
structure DumpRun where
  linked : LinkedAllocator
  allocated : List Address
  held : List ℕ
  /-- The calls of `node_allocator_alloc` that need a page. -/
  waiting : ℕ
  /-- The nodes that `node_allocator_free` is to put back. -/
  freeing : List Address
  walker : Walker
  /-- The visits since `node_allocator_dump_init`. -/
  visits : List Address
  /-- The nodes that were visited and have not been freed since. -/
  visited : List Address
  /-- The nodes whose `id` has not been zero since. -/
  steady : Address → Bool
  /-- The pages at `node_allocator_dump_init` and those taken since. -/
  pages : ℕ

/-- A step of a thread. -/
inductive DumpStep
  | takeSlot
  | takePage (page : ℕ)
  | setId (node : Address) (id : ℕ)
  | beginFree (node : Address)
  | endFree (node : Address)
  | dumpInit
  | lock
  | dumpNext

namespace DumpRun

/-- `node_allocator_init` in any memory. -/
def start (memory : LinkedAllocator) : DumpRun :=
  ⟨memory.init, [], [], 0, [], .reading, [], [], fun _ => false, 0⟩

/-- Enough steps for a walk through the pages. -/
def fuel (size : NodeSize) (g : DumpRun) : ℕ := g.held.length * size.nodesPerBlock + 1

/-- One step.  No node is freed while the walking thread holds it. -/
def move (size : NodeSize) (type : ℕ) (g : DumpRun) : DumpStep → Option DumpRun
  | .takeSlot =>
      let ret := g.linked.allocSlot
      match ret.1 with
      | some node => some { g with linked := ret.2, allocated := node :: g.allocated }
      | none => some { g with linked := ret.2, waiting := g.waiting + 1 }
  | .takePage page =>
      if 0 < g.waiting ∧ pageSize ∣ page ∧ page ∉ g.held then
        let ret := g.linked.allocPage size.nodesPerBlock type page
        some { g with
          linked := ret.2
          allocated := ret.1 :: g.allocated
          held := page :: g.held
          waiting := g.waiting - 1
          pages := g.pages + 1 }
      else none
  | .setId node id =>
      if node ∈ g.allocated ∧ node ∉ g.freeing ∧ id ≠ 0 then
        some { g with linked := g.linked.setId node id }
      else none
  | .beginFree node =>
      if node ∈ g.allocated ∧ node ∉ g.freeing then
        some { g with linked := g.linked.setId node 0, freeing := node :: g.freeing }
      else none
  | .endFree node =>
      if node ∈ g.freeing ∧ g.walker ≠ .holding node then
        (g.linked.freeSlot size.nodesPerBlock (g.fuel size) node).map fun (freed, A) =>
          { g with
            linked := A
            allocated := g.allocated.erase node
            held := if freed then g.held.erase node.page else g.held
            freeing := g.freeing.erase node
            visited := g.visited.erase node }
      else none
  | .dumpInit =>
      if g.walker = .reading then
        (g.linked.dumpInit size.nodesPerBlock (g.fuel size)).map fun A =>
          { g with
            linked := A
            visits := []
            visited := []
            steady := fun node => decide (node ∈ g.allocated) && g.linked.id node != 0
            pages := g.held.length }
      else none
  | .lock =>
      if g.walker = .reading then g.linked.dumpPtr.map fun node => { g with walker := .holding node }
      else none
  | .dumpNext =>
      match g.walker with
      | .reading => none
      | .holding node =>
          (g.linked.dumpNext size.nodesPerBlock (g.fuel size)).map fun A =>
            { g with
              linked := A
              walker := .reading
              visits := node :: g.visits
              visited := node :: g.visited }

/-- A node whose `id` is zero is not steady any more. -/
def remember (g : DumpRun) : DumpRun :=
  { g with steady := fun node => g.steady node && g.linked.id node != 0 }

def step (size : NodeSize) (type : ℕ) (g : DumpRun) (label : DumpStep) : Option DumpRun :=
  (g.move size type label).map remember

/-! ## The rest of the walk -/

/-- Where the walk stands: `rest` are the slots from the cursor on. -/
structure Walk (size : NodeSize) (g : DumpRun) (rest : List Address) : Prop where
  cursor : rest.head? = g.linked.dumpPtr
  cursorAllocated : ∀ a, g.linked.dumpPtr = some a → a ∈ g.allocated
  steadyAllocated : ∀ a, g.steady a = true → a ∈ g.allocated
  steadyLeft : ∀ a, g.steady a = true → a ∈ g.visited ∨ a ∈ rest
  visitedBefore : ∀ a ∈ g.visited, a ∈ g.allocated ∧ a ∉ rest
  once : g.visited.Nodup
  counted : ∀ a, g.steady a = true → g.visits.count a = g.visited.count a
  bound : g.visits.length + rest.length ≤ g.pages * size.nodesPerBlock

/-- The allocator, the place of the walk in it and the nodes that are being freed. -/
structure Placed (size : NodeSize) (type : ℕ) (g : DumpRun) (blocks dumpBlocks : List ℕ)
    (before rest : List Address) : Prop where
  handed : LinkedAllocator.Handed size.layout type g.linked blocks dumpBlocks g.allocated g.held
  split : Heap.slotsOf size.nodesPerBlock dumpBlocks = before ++ rest
  walk : g.Walk size rest
  holds : ∀ a, g.walker = .holding a → g.linked.dumpPtr = some a
  freeing : g.freeing.Nodup ∧ ∀ a ∈ g.freeing, a ∈ g.allocated ∧ g.linked.id a = 0

/-- What every step keeps. -/
def Kept (size : NodeSize) (type : ℕ) (g : DumpRun) : Prop :=
  (∃ blocks dumpBlocks before rest, g.Placed size type blocks dumpBlocks before rest) ∧
    ∀ a, g.steady a = true → g.linked.id a ≠ 0

variable {size : NodeSize} {type : ℕ} {g : DumpRun} {blocks dumpBlocks : List ℕ}
  {before rest : List Address}

theorem kept_start (size : NodeSize) (type : ℕ) (memory : LinkedAllocator) :
    (start memory).Kept size type := by
  refine ⟨⟨[], [], [], [], LinkedAllocator.handed_init size.layout type memory, rfl, ?_,
    fun a holding => (nomatch holding), List.nodup_nil, fun a inside => (nomatch inside)⟩,
    fun a steady => (nomatch steady)⟩
  exact ⟨rfl, fun a there => (nomatch there), fun a steady => (nomatch steady),
    fun a steady => (nomatch steady), fun a inside => (nomatch inside), List.nodup_nil,
    fun a steady => (nomatch steady), Nat.zero_le _⟩

theorem Placed.remember (placed : g.Placed size type blocks dumpBlocks before rest) :
    g.remember.Kept size type := by
  have was {a : Address} (steady : g.remember.steady a = true) :
      g.steady a = true ∧ (g.linked.id a != 0) = true := Bool.and_eq_true_iff.mp steady
  have walk := placed.walk
  refine ⟨⟨blocks, dumpBlocks, before, rest, placed.handed, placed.split, ?_, placed.holds,
    placed.freeing⟩, fun a steady => bne_iff_ne.mp (was steady).2⟩
  exact ⟨walk.cursor, walk.cursorAllocated, fun a steady => walk.steadyAllocated a (was steady).1,
    fun a steady => walk.steadyLeft a (was steady).1, walk.visitedBefore, walk.once,
    fun a steady => walk.counted a (was steady).1, walk.bound⟩

/-! ## Taking slots -/

/-- A slot is taken that was not in use. -/
theorem Walk.take (walk : g.Walk size rest) {A : LinkedAllocator} {a : Address}
    (cursor : A.dumpPtr = g.linked.dumpPtr) :
    Walk size { g with linked := A, allocated := a :: g.allocated } rest where
  cursor := walk.cursor.trans cursor.symm
  cursorAllocated := fun b there =>
    List.mem_cons_of_mem a (walk.cursorAllocated b (cursor.symm.trans there))
  steadyAllocated := fun b steady => List.mem_cons_of_mem a (walk.steadyAllocated b steady)
  steadyLeft := walk.steadyLeft
  visitedBefore := fun b inside =>
    ⟨List.mem_cons_of_mem a (walk.visitedBefore b inside).1, (walk.visitedBefore b inside).2⟩
  once := walk.once
  counted := walk.counted
  bound := walk.bound

theorem Placed.takeSlot (placed : g.Placed size type blocks dumpBlocks before rest) {g' : DumpRun}
    (moved : g.move size type .takeSlot = some g') :
    ∃ blocks', g'.Placed size type blocks' dumpBlocks before rest := by
  obtain ⟨cursor, ids⟩ := LinkedAllocator.allocSlot_same g.linked
  obtain ⟨nodup, freeing⟩ := placed.freeing
  obtain ⟨blocks', ⟨a, done, -, handed⟩ | ⟨done, -, handed⟩⟩ := placed.handed.allocSlot
  · unfold move at moved
    simp only [done] at moved
    cases moved
    refine ⟨blocks', handed, placed.split, placed.walk.take cursor,
      fun b holding => cursor.trans (placed.holds b holding), nodup, fun b inside => ?_⟩
    rw [ids]
    exact ⟨List.mem_cons_of_mem a (freeing b inside).1, (freeing b inside).2⟩
  · unfold move at moved
    simp only [done] at moved
    cases moved
    have walk := placed.walk
    refine ⟨blocks', handed, placed.split, ⟨walk.cursor.trans cursor.symm,
      fun b there => walk.cursorAllocated b (cursor.symm.trans there), walk.steadyAllocated,
      walk.steadyLeft, walk.visitedBefore, walk.once, walk.counted, walk.bound⟩,
      fun b holding => cursor.trans (placed.holds b holding), nodup, fun b inside => ?_⟩
    rw [ids]
    exact freeing b inside

theorem Placed.takePage (placed : g.Placed size type blocks dumpBlocks before rest) {page : ℕ}
    {g' : DumpRun} (moved : g.move size type (.takePage page) = some g') :
    ∃ blocks' dumpBlocks' before' rest',
      g'.Placed size type blocks' dumpBlocks' before' rest' := by
  unfold move at moved
  obtain ⟨⟨-, -, fresh⟩, ⟨⟩⟩ := Option.ite_none_right_eq_some.mp moved
  obtain ⟨-, handed⟩ := placed.handed.allocPage fresh
  obtain ⟨nodup, freeing⟩ := placed.freeing
  have walk := placed.walk
  have split := placed.split
  set added := Heap.slotsOf size.nodesPerBlock [page] with hadded
  have slots : Heap.slotsOf size.nodesPerBlock (dumpBlocks ++ [page]) = before ++ rest ++ added := by
    rw [Heap.slotsOf_append, split]
  have length : added.length = size.nodesPerBlock := by
    rw [hadded, Heap.length_slotsOf, List.length_singleton, Nat.one_mul]
  have apart (a : Address) (used : a ∈ g.allocated) : a ∉ added := by
    intro inside
    have same := List.mem_singleton.mp (Heap.mem_slotsOf.mp inside).1
    exact fresh (same ▸ (placed.handed.inside used).2.1)
  have ids (a : Address) (id : g.linked.id a = 0) :
      (g.linked.allocPage size.nodesPerBlock type page).2.id a = 0 := by
    show (if a.page = page ∧ a.slot < size.nodesPerBlock then 0 else g.linked.id a) = 0
    rw [id, ite_self]
  have bound : g.visits.length + (rest.length + added.length) ≤
      (g.pages + 1) * size.nodesPerBlock := by
    have bound := walk.bound
    rw [length, Nat.succ_mul]
    omega
  -- a walk that is over does not come to the new page
  by_cases ended : rest = []
  · subst ended
    refine ⟨_, _, before ++ added, [], handed, by rw [slots, List.append_nil, List.append_nil],
      ?_, placed.holds, nodup, fun a inside =>
        ⟨List.mem_cons_of_mem _ (freeing a inside).1, ids a (freeing a inside).2⟩⟩
    have taken := walk.take (A := (g.linked.allocPage size.nodesPerBlock type page).2)
      (a := ⟨page, size.nodesPerBlock - 1⟩) rfl
    exact ⟨taken.cursor, taken.cursorAllocated, taken.steadyAllocated, taken.steadyLeft,
      taken.visitedBefore, taken.once, taken.counted, by
        show g.visits.length + 0 ≤ (g.pages + 1) * size.nodesPerBlock
        omega⟩
  · refine ⟨_, _, before, rest ++ added, handed, by rw [slots, List.append_assoc],
      ?_, placed.holds, nodup, fun a inside =>
        ⟨List.mem_cons_of_mem _ (freeing a inside).1, ids a (freeing a inside).2⟩⟩
    have taken := walk.take (A := (g.linked.allocPage size.nodesPerBlock type page).2)
      (a := ⟨page, size.nodesPerBlock - 1⟩) rfl
    refine ⟨?_, taken.cursorAllocated, taken.steadyAllocated, fun a steady => ?_, fun a inside => ?_,
      taken.once, taken.counted, ?_⟩
    · rw [List.head?_append_of_ne_nil _ ended]
      exact walk.cursor
    · exact (walk.steadyLeft a steady).imp_right (List.mem_append_left added)
    · refine ⟨(taken.visitedBefore a inside).1, fun later => ?_⟩
      obtain ⟨used, out⟩ := walk.visitedBefore a inside
      exact (List.mem_append.mp later).elim out (apart a used)
    · rw [List.length_append]
      exact bound

/-! ## Writing an `id` -/

theorem Placed.setId (placed : g.Placed size type blocks dumpBlocks before rest) {a : Address}
    {id : ℕ} {freeing : List Address} (among : a ∈ g.allocated)
    (kept : freeing.Nodup ∧ ∀ b ∈ freeing, b ∈ g.allocated ∧ (g.linked.setId a id).id b = 0) :
    Placed size type { g with linked := g.linked.setId a id, freeing := freeing } blocks dumpBlocks
      before rest := by
  have walk := placed.walk
  exact ⟨placed.handed.setId (.inl among), placed.split, ⟨walk.cursor, walk.cursorAllocated,
    walk.steadyAllocated, walk.steadyLeft, walk.visitedBefore, walk.once, walk.counted, walk.bound⟩,
    placed.holds, kept⟩

theorem Placed.assign (placed : g.Placed size type blocks dumpBlocks before rest) {a : Address}
    {id : ℕ} {g' : DumpRun} (moved : g.move size type (.setId a id) = some g') :
    g'.Placed size type blocks dumpBlocks before rest := by
  unfold move at moved
  obtain ⟨⟨among, out, -⟩, ⟨⟩⟩ := Option.ite_none_right_eq_some.mp moved
  obtain ⟨nodup, freeing⟩ := placed.freeing
  refine placed.setId among ⟨nodup, fun b inside => ⟨(freeing b inside).1, ?_⟩⟩
  have other : b ≠ a := fun same => out (same ▸ inside)
  exact (Function.update_of_ne other ..).trans (freeing b inside).2

theorem Placed.beginFree (placed : g.Placed size type blocks dumpBlocks before rest) {a : Address}
    {g' : DumpRun} (moved : g.move size type (.beginFree a) = some g') :
    g'.Placed size type blocks dumpBlocks before rest := by
  unfold move at moved
  obtain ⟨⟨among, out⟩, ⟨⟩⟩ := Option.ite_none_right_eq_some.mp moved
  obtain ⟨nodup, freeing⟩ := placed.freeing
  refine placed.setId among ⟨List.nodup_cons.mpr ⟨out, nodup⟩, fun b inside => ?_⟩
  rcases List.mem_cons.mp inside with rfl | inside
  · exact ⟨among, Function.update_self ..⟩
  · have other : b ≠ a := fun same => out (same ▸ inside)
    exact ⟨(freeing b inside).1, (Function.update_of_ne other ..).trans (freeing b inside).2⟩

/-! ## Moving the cursor -/

/-- The cursor goes on from `a` to a node whose `id` is not zero, or to the end. -/
theorem Placed.goOn (placed : g.Placed size type blocks dumpBlocks before rest) {a : Address}
    {after : List Address} (here : rest = a :: after) :
    ∃ skipped rest', after = skipped ++ rest' ∧
      rest'.head? = (after.filter fun node => g.linked.id node != 0).head? ∧
      (∀ b ∈ skipped, g.linked.id b = 0) ∧
      ∀ b, rest'.head? = some b → b ∈ g.allocated ∧ g.linked.id b ≠ 0 := by
  obtain ⟨skipped, rest', split, first, zero⟩ :=
    exists_skip (fun node => g.linked.id node != 0) after
  refine ⟨skipped, rest', split, first, fun b inside => by simpa using zero b inside,
    fun b found => ?_⟩
  rw [first] at found
  obtain ⟨inside, id⟩ := List.mem_filter.mp (List.mem_of_head? found)
  have slot : b ∈ Heap.slotsOf size.nodesPerBlock dumpBlocks := by
    rw [placed.split, here]
    exact List.mem_append_right _ (List.mem_cons_of_mem a inside)
  obtain ⟨page, small⟩ := Heap.mem_slotsOf.mp slot
  have id : g.linked.id b ≠ 0 := bne_iff_ne.mp id
  exact ⟨placed.handed.mem_of_id (placed.handed.dumpPages.mem_iff.mp page) small id, id⟩

/-- The rest of the walk where `a` is freed and the cursor leaves it. -/
theorem Placed.leave (placed : g.Placed size type blocks dumpBlocks before rest) {a : Address}
    (cleared : g.linked.id a = 0) :
    ∃ skipped rest', rest = skipped ++ rest' ∧
      rest'.head? = LinkedAllocator.cursorAfter size.layout type
        (g.linked.view type blocks dumpBlocks) a ∧
      (∀ b ∈ skipped, g.linked.id b = 0) ∧
      ∀ b, rest'.head? = some b → b ∈ g.allocated ∧ b ≠ a := by
  have cursor := placed.walk.cursor
  unfold LinkedAllocator.cursorAfter
  rw [LinkedAllocator.view_allocators]
  by_cases here : g.linked.dumpPtr = some a
  · obtain ⟨after, isRest⟩ : ∃ after, rest = a :: after := by
      rw [here] at cursor
      exact ⟨_, (List.cons_head?_tail cursor).symm⟩
    obtain ⟨skipped, rest', split, first, zero, next⟩ := placed.goOn isRest
    have slots : (g.linked.view type blocks dumpBlocks).slots size.layout type =
        before ++ a :: after := by
      rw [Heap.slots, LinkedAllocator.view_allocators, ← isRest]
      exact placed.split
    rw [if_pos here, Heap.dumpNext_eq placed.handed.valid slots]
    refine ⟨a :: skipped, rest', by rw [isRest, split, List.cons_append], first, ?_, ?_⟩
    · intro b inside
      rcases List.mem_cons.mp inside with rfl | inside
      · exact cleared
      · exact zero b inside
    · intro b found
      obtain ⟨used, id⟩ := next b found
      exact ⟨used, fun same => id (same ▸ cleared)⟩
  · rw [if_neg here]
    refine ⟨[], rest, rfl, cursor, fun b inside => absurd inside List.not_mem_nil,
      fun b found => ?_⟩
    rw [cursor] at found
    exact ⟨placed.walk.cursorAllocated b found, fun same => here (same ▸ found)⟩

theorem Placed.endFree (placed : g.Placed size type blocks dumpBlocks before rest)
    (steady : ∀ a, g.steady a = true → g.linked.id a ≠ 0) {a : Address} {g' : DumpRun}
    (moved : g.move size type (.endFree a) = some g') :
    ∃ blocks' dumpBlocks' before' rest',
      g'.Placed size type blocks' dumpBlocks' before' rest' := by
  unfold move at moved
  obtain ⟨⟨among, free⟩, moved⟩ := Option.ite_none_right_eq_some.mp moved
  obtain ⟨nodup, freeing⟩ := placed.freeing
  obtain ⟨used, cleared⟩ := freeing a among
  obtain ⟨freed, A', blocks', dumpBlocks', done, last, dump, handed, pointer, ids⟩ :=
    placed.handed.freeSlot used cleared (Nat.lt_succ_self _)
  have done : g.linked.freeSlot size.nodesPerBlock (g.fuel size) a = some (freed, A') := done
  rw [done] at moved
  cases moved
  obtain ⟨skipped, rest', split, cursor, zero, next⟩ := placed.leave cleared
  have walk := placed.walk
  -- the slots of the page are not there any more where it is freed
  set left : Address → Bool := fun b => !freed || b.page ≠ a.page with hleft
  have slots : Heap.slotsOf size.nodesPerBlock dumpBlocks' =
      (Heap.slotsOf size.nodesPerBlock dumpBlocks).filter left := by
    rw [dump, hleft]
    cases freed with
    | false => simp
    | true => simpa using Heap.slotsOf_erase placed.handed.lists.nodup_dumpBlocks
  have stays (b : Address) (other : b ∈ g.allocated) (different : b ≠ a) : left b = true := by
    rw [hleft]
    cases freed with
    | false => rfl
    | true => simpa using fun same => different (placed.handed.alone used other same (last.mp rfl))
  have different (b : Address) (isSteady : g.steady b = true) : b ≠ a :=
    fun same => steady b isSteady (same ▸ cleared)
  refine ⟨blocks', dumpBlocks', (before ++ skipped).filter left, rest'.filter left, handed, ?_,
    ⟨?_, fun b there => ?_, fun b isSteady => ?_, fun b isSteady => ?_, fun b inside => ?_,
      walk.once.erase a, fun b isSteady => ?_, ?_⟩, fun b holding => ?_, nodup.erase a,
    fun b inside => ?_⟩
  · rw [slots, placed.split, split, ← List.append_assoc, List.filter_append]
  · rw [pointer, ← cursor]
    cases rest' with
    | nil => rfl
    | cons b rest' =>
        obtain ⟨other, apart⟩ := next b rfl
        rw [List.filter_cons_of_pos (stays b other apart), List.head?_cons, List.head?_cons]
  · obtain ⟨other, apart⟩ := next b (cursor.trans (pointer.symm.trans there))
    exact (List.mem_erase_of_ne apart).mpr other
  · exact (List.mem_erase_of_ne (different b isSteady)).mpr (walk.steadyAllocated b isSteady)
  · rcases walk.steadyLeft b isSteady with inside | inside
    · exact .inl ((List.mem_erase_of_ne (different b isSteady)).mpr inside)
    · rw [split] at inside
      rcases List.mem_append.mp inside with inside | inside
      · exact absurd (zero b inside) (steady b isSteady)
      · exact .inr (List.mem_filter.mpr ⟨inside,
          stays b (walk.steadyAllocated b isSteady) (different b isSteady)⟩)
  · obtain ⟨apart, inside⟩ := walk.once.mem_erase_iff.mp inside
    obtain ⟨other, out⟩ := walk.visitedBefore b inside
    refine ⟨(List.mem_erase_of_ne apart).mpr other, fun later => out ?_⟩
    rw [split]
    exact List.mem_append_right skipped (List.mem_filter.mp later).1
  · rw [List.count_erase_of_ne (different b isSteady)]
    exact walk.counted b isSteady
  · have bound := walk.bound
    have fewer := List.length_filter_le left rest'
    rw [split, List.length_append] at bound
    show g.visits.length + (rest'.filter left).length ≤ g.pages * size.nodesPerBlock
    omega
  · have there := placed.holds b holding
    have other : b ≠ a := by
      rintro rfl
      exact free holding
    show A'.dumpPtr = some b
    rw [pointer, LinkedAllocator.cursorAfter, LinkedAllocator.view_allocators, there]
    exact if_neg fun same => other (Option.some.inj same)
  · obtain ⟨apart, inside⟩ := nodup.mem_erase_iff.mp inside
    refine ⟨(List.mem_erase_of_ne apart).mpr (freeing b inside).1, ?_⟩
    show A'.id b = 0
    rw [ids]
    exact (freeing b inside).2

/-! ## The steps of the walk -/

theorem Placed.enough (placed : g.Placed size type blocks dumpBlocks before rest) :
    dumpBlocks.length * size.layout.nodesPerBlock type < g.fuel size := by
  rw [placed.handed.dumpPages.length_eq]
  exact Nat.lt_succ_self _

theorem Placed.dumpInit (placed : g.Placed size type blocks dumpBlocks before rest)
    (reading : g.walker = .reading) :
    ∃ g' before' rest', g.move size type .dumpInit = some g' ∧
      g'.Placed size type blocks dumpBlocks before' rest' := by
  obtain ⟨before', rest', split, first, zero⟩ :=
    exists_skip (fun node => g.linked.id node != 0) (Heap.slotsOf size.nodesPerBlock dumpBlocks)
  have done : g.linked.dumpInit size.nodesPerBlock (g.fuel size) =
      some { g.linked with dumpPtr := rest'.head? } := by
    rw [first]
    exact placed.handed.lists.dumpInit placed.handed.valid placed.enough
  have slot (b : Address) (inside : b ∈ rest') :
      b.page ∈ dumpBlocks ∧ b.slot < size.nodesPerBlock := by
    apply Heap.mem_slotsOf.mp
    rw [split]
    exact List.mem_append_right before' inside
  have moved : g.move size type .dumpInit = some { g with
      linked := { g.linked with dumpPtr := rest'.head? }
      visits := []
      visited := []
      steady := fun node => decide (node ∈ g.allocated) && g.linked.id node != 0
      pages := g.held.length } := by
    unfold move
    rw [if_pos reading, done]
    rfl
  refine ⟨_, before', rest', moved, placed.handed.moveCursor _, split, ⟨rfl, fun b there => ?_, fun b isSteady => ?_,
      fun b isSteady => .inr ?_, fun b inside => (nomatch inside), List.nodup_nil, fun _ _ => rfl, ?_⟩,
    fun b holding => ?_, placed.freeing⟩
  · have there : rest'.head? = some b := there
    have inside := List.mem_of_head? there
    rw [first] at there
    obtain ⟨page, small⟩ := slot b inside
    have id := bne_iff_ne.mp (List.mem_filter.mp (List.mem_of_head? there)).2
    exact placed.handed.mem_of_id (placed.handed.dumpPages.mem_iff.mp page) small id
  · exact of_decide_eq_true (Bool.and_eq_true_iff.mp isSteady).1
  · obtain ⟨used, id⟩ := Bool.and_eq_true_iff.mp isSteady
    obtain ⟨-, page, small⟩ := placed.handed.inside (of_decide_eq_true used)
    have inside := Heap.mem_slotsOf.mpr ⟨placed.handed.dumpPages.mem_iff.mpr page, small⟩
    rw [show size.layout.nodesPerBlock type = size.nodesPerBlock from rfl, split] at inside
    refine (List.mem_append.mp inside).resolve_left fun skipped => ?_
    rw [zero b skipped] at id
    cases id
  · have length := congrArg List.length split
    rw [Heap.length_slotsOf, List.length_append, placed.handed.dumpPages.length_eq] at length
    show 0 + rest'.length ≤ g.held.length * size.nodesPerBlock
    omega
  · have holding : g.walker = .holding b := holding
    rw [reading] at holding
    cases holding

theorem Placed.lock (placed : g.Placed size type blocks dumpBlocks before rest) {g' : DumpRun}
    (moved : g.move size type .lock = some g') :
    g'.Placed size type blocks dumpBlocks before rest := by
  unfold move at moved
  obtain ⟨-, moved⟩ := Option.ite_none_right_eq_some.mp moved
  obtain ⟨a, there, rfl⟩ := Option.map_eq_some_iff.mp moved
  have walk := placed.walk
  refine ⟨placed.handed, placed.split, ⟨walk.cursor, walk.cursorAllocated, walk.steadyAllocated,
    walk.steadyLeft, walk.visitedBefore, walk.once, walk.counted, walk.bound⟩,
    fun b holding => ?_, placed.freeing⟩
  cases holding
  exact there

theorem Placed.dumpNext (placed : g.Placed size type blocks dumpBlocks before rest)
    (steady : ∀ a, g.steady a = true → g.linked.id a ≠ 0) {a : Address}
    (holding : g.walker = .holding a) :
    ∃ g' before' rest', g.move size type .dumpNext = some g' ∧
      g'.Placed size type blocks dumpBlocks before' rest' := by
  have there := placed.holds a holding
  have walk := placed.walk
  have cursor := walk.cursor
  obtain ⟨after, isRest⟩ : ∃ after, rest = a :: after := by
    rw [there] at cursor
    exact ⟨_, (List.cons_head?_tail cursor).symm⟩
  obtain ⟨skipped, rest', split, first, zero, next⟩ := placed.goOn isRest
  have slots := placed.split
  rw [isRest] at slots
  have done : g.linked.dumpNext size.nodesPerBlock (g.fuel size) =
      some { g.linked with dumpPtr := rest'.head? } := by
    rw [first]
    exact placed.handed.lists.dumpNext placed.handed.valid placed.enough slots there
  have nodup : (a :: after).Nodup := by
    have all := Heap.nodup_slotsOf (n := size.nodesPerBlock) placed.handed.lists.nodup_dumpBlocks
    rw [slots] at all
    exact (List.nodup_append.mp all).2.1
  have later {b : Address} (inside : b ∈ rest') : b ∈ rest ∧ b ≠ a := by
    have behind : b ∈ after := split ▸ List.mem_append_right skipped inside
    exact ⟨isRest ▸ List.mem_cons_of_mem a behind,
      fun same => (List.nodup_cons.mp nodup).1 (same ▸ behind)⟩
  have out : a ∉ g.visited := fun inside => (walk.visitedBefore a inside).2 (by simp [isRest])
  have moved : g.move size type .dumpNext = some { g with
      linked := { g.linked with dumpPtr := rest'.head? }
      walker := .reading
      visits := a :: g.visits
      visited := a :: g.visited } := by
    unfold move
    rw [holding]
    simp only [done, Option.map_some]
  refine ⟨_, before ++ a :: skipped, rest', moved, placed.handed.moveCursor _, ?_,
    ⟨rfl, fun b found => (next b found).1, walk.steadyAllocated, fun b isSteady => ?_,
      fun b inside => ?_, List.nodup_cons.mpr ⟨out, walk.once⟩, fun b isSteady => ?_, ?_⟩,
    fun b wrong => (nomatch wrong), placed.freeing⟩
  · rw [slots, split]
    simp
  · rcases walk.steadyLeft b isSteady with inside | inside
    · exact .inl (List.mem_cons_of_mem a inside)
    · rw [isRest, split] at inside
      rcases List.mem_cons.mp inside with rfl | inside
      · exact .inl List.mem_cons_self
      · refine .inr ((List.mem_append.mp inside).resolve_left fun among => ?_)
        exact steady b isSteady (zero b among)
  · rcases List.mem_cons.mp inside with rfl | inside
    · exact ⟨walk.cursorAllocated b there, fun again => (later again).2 rfl⟩
    · obtain ⟨used, outside⟩ := walk.visitedBefore b inside
      exact ⟨used, fun again => outside (later again).1⟩
  · show (a :: g.visits).count b = (a :: g.visited).count b
    rw [List.count_cons, List.count_cons, walk.counted b isSteady]
  · have bound := walk.bound
    rw [isRest, split, List.length_cons, List.length_append] at bound
    show (a :: g.visits).length + rest'.length ≤ g.pages * size.nodesPerBlock
    rw [List.length_cons]
    omega

/-! ## Runs -/

theorem Kept.step (kept : g.Kept size type) {label : DumpStep} {g' : DumpRun}
    (moved : g.step size type label = some g') : g'.Kept size type := by
  obtain ⟨⟨blocks, dumpBlocks, before, rest, placed⟩, steady⟩ := kept
  obtain ⟨g₁, done, rfl⟩ := Option.map_eq_some_iff.mp moved
  cases label with
  | takeSlot =>
      obtain ⟨_, placed'⟩ := placed.takeSlot done
      exact placed'.remember
  | takePage page =>
      obtain ⟨_, _, _, _, placed'⟩ := placed.takePage done
      exact placed'.remember
  | setId a id => exact (placed.assign done).remember
  | beginFree a => exact (placed.beginFree done).remember
  | endFree a =>
      obtain ⟨_, _, _, _, placed'⟩ := placed.endFree steady done
      exact placed'.remember
  | dumpInit =>
      have reading : g.walker = .reading := by
        unfold move at done
        exact (Option.ite_none_right_eq_some.mp done).1
      obtain ⟨_, _, _, moved, placed'⟩ := placed.dumpInit reading
      obtain rfl := Option.some.inj (moved.symm.trans done)
      exact placed'.remember
  | lock => exact (placed.lock done).remember
  | dumpNext =>
      cases holding : g.walker with
      | reading =>
          unfold move at done
          rw [holding] at done
          cases done
      | holding a =>
          obtain ⟨_, _, _, moved, placed'⟩ := placed.dumpNext steady holding
          obtain rfl := Option.some.inj (moved.symm.trans done)
          exact placed'.remember

/-- In every state that is reached the cursor is null or at a slot in use on a page of
`dump_blocks`; a node that was visited is not visited again before it is freed; a walk that is
over has visited every steady node once; and the walk is over after as many visits as there were
slots, while no step of it is stuck, nor a `node_allocator_free` that moves the cursor. -/
theorem walk_complete (size : NodeSize) (type : ℕ) (memory : LinkedAllocator) (g : DumpRun)
    (reaches : Reaches (step size type) anyStep (start memory) g) :
    (∀ a, g.linked.dumpPtr = some a → a ∈ g.allocated ∧ ∃ dumpBlocks : List ℕ,
      g.linked.dumpBlocks.Ring none (dumpBlocks.map some) ∧ a.page ∈ dumpBlocks) ∧
    g.visited.Nodup ∧
    (g.linked.dumpPtr = none → ∀ a, g.steady a = true → g.visits.count a = 1) ∧
    (g.pages * size.nodesPerBlock ≤ g.visits.length → g.linked.dumpPtr = none) ∧
    (g.walker = .reading → (g.step size type .dumpInit).isSome = true) ∧
    (∀ a, g.walker = .reading → g.linked.dumpPtr = some a →
      (g.step size type .lock).isSome = true) ∧
    (∀ a, g.walker = .holding a → (g.step size type .dumpNext).isSome = true) ∧
    (∀ a ∈ g.freeing, g.walker ≠ .holding a →
      (g.step size type (.endFree a)).isSome = true) := by
  have kept : g.Kept size type := by
    induction reaches with
    | start => exact kept_start size type memory
    | step before _ moved ih => exact ih.step moved
  obtain ⟨⟨blocks, dumpBlocks, before, rest, placed⟩, steady⟩ := kept
  have walk := placed.walk
  refine ⟨fun a there => ?_, walk.once, fun ended a isSteady => ?_, fun many => ?_, fun reading => ?_,
    fun a reading there => ?_, fun a holding => ?_, fun a inside free => ?_⟩
  · have used := walk.cursorAllocated a there
    exact ⟨used, dumpBlocks, placed.handed.lists.dumpBlocks,
      placed.handed.dumpPages.mem_iff.mpr (placed.handed.inside used).2.1⟩
  · have none : rest = [] := List.head?_eq_none_iff.mp (walk.cursor.trans ended)
    have visited := (walk.steadyLeft a isSteady).resolve_right (by simp [none])
    rw [walk.counted a isSteady]
    exact List.count_eq_one_of_mem walk.once visited
  · have bound := walk.bound
    have none : rest = [] := List.eq_nil_of_length_eq_zero (by omega)
    rw [← walk.cursor, none]
    rfl
  · obtain ⟨g', -, -, moved, -⟩ := placed.dumpInit reading
    rw [DumpRun.step, moved]
    rfl
  · rw [DumpRun.step, move, if_pos reading, there]
    rfl
  · obtain ⟨g', -, -, moved, -⟩ := placed.dumpNext steady holding
    rw [DumpRun.step, moved]
    rfl
  · obtain ⟨used, cleared⟩ := placed.freeing.2 a inside
    obtain ⟨freed, A', -, -, done, -⟩ := placed.handed.freeSlot used cleared (Nat.lt_succ_self _)
    have done : g.linked.freeSlot size.nodesPerBlock (g.fuel size) a = some (freed, A') := done
    rw [DumpRun.step, move, if_pos ⟨inside, free⟩, done]
    rfl

/-- Two nodes on a page; the one under the cursor is freed, and the walk visits the other. -/
theorem walk_complete_freed : ∃ g : DumpRun,
    runSteps (step ⟨2000, by decide, by decide⟩ 0)
      (start ⟨⟨id, id⟩, ⟨id, id⟩, none, fun _ => ⟨[], 0, 0⟩, fun _ => 7, fun _ => 0⟩)
      [.takeSlot, .takePage 4096, .setId ⟨4096, 1⟩ 1, .takeSlot, .setId ⟨4096, 0⟩ 2, .dumpInit,
        .beginFree ⟨4096, 0⟩, .endFree ⟨4096, 0⟩, .lock, .dumpNext] = some g ∧
    g.visits.count ⟨4096, 1⟩ = 1 := by
  have ran : (runSteps (step ⟨2000, by decide, by decide⟩ 0)
      (start ⟨⟨id, id⟩, ⟨id, id⟩, none, fun _ => ⟨[], 0, 0⟩, fun _ => 7, fun _ => 0⟩)
      [.takeSlot, .takePage 4096, .setId ⟨4096, 1⟩ 1, .takeSlot, .setId ⟨4096, 0⟩ 2, .dumpInit,
        .beginFree ⟨4096, 0⟩, .endFree ⟨4096, 0⟩, .lock, .dumpNext]).any (fun g =>
          g.linked.dumpPtr.isNone && g.steady ⟨4096, 1⟩) = true := by decide +kernel
  obtain ⟨g, done, ended⟩ := (Option.any_eq_true _ _).mp ran
  obtain ⟨ended, steady⟩ := Bool.and_eq_true_iff.mp ended
  have reaches := reaches_of_runSteps .start (fun _ _ _ => trivial) done
  exact ⟨g, done, (walk_complete _ 0 _ g reaches).2.2.1 (Option.isNone_iff_eq_none.mp ended) _ steady⟩

end DumpRun

end HybridDatabase.Allocator
