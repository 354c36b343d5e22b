/-
# The stored nodes

There are two views of the nodes of a database that has been loaded: the dictionary
`IdToNode`, and the pages of the node allocators, through which `node_for_each` walks.
The calls that a load has made are run on the node allocators, and the two views are
compared.

A record that names an id which is in the dictionary already takes a slot, and
`read_node_prepare` writes the id into it before it looks into the dictionary.  The slot
is not given back, so the walk comes to a node on which `type->init` has not run.
-/

import HybridDatabase.Allocator.ForEach
import HybridDatabase.Database.Recorded
import HybridDatabase.Database.Reopen

namespace HybridDatabase.Database

open HybridDatabase.Base HybridDatabase.Storage HybridDatabase.Allocator

open NodeCall

/-! ## The store -/

/-- The memory of the nodes while a database is loaded: the node allocators, the pages
they have freed and the pages taken from the page allocator, the nodes on which
`type->init` has run, the dictionary `IdToNode`, and `node` of `read_node_prepare`. -/
structure Store where
  heap : Heap
  pages : VPageAllocator
  held : List ℕ
  initialised : Address → Bool
  dictionary : ℕ → Option Address
  node : Option Address

/-- What `page_alloc` answers after some calls: a page that is not in use. -/
structure PageSource where
  next : List NodeCall → List ℕ → ℕ
  fresh : ∀ calls held, next calls held ∉ held

/-- `get_time` while there are no handles. -/
def noHandles : ℕ := 2 ^ 64 - 1

/-- `DB_VPAGE_ALLOCATOR_CACHE`. -/
def vpageAllocatorCache : ℕ := 128

namespace Store

/-- The store of a database that `database_alloc` has made. -/
def init : Store where
  heap := Heap.init
  pages := VPageAllocator.init vpageAllocatorCache
  held := []
  initialised := fun _ => false
  dictionary := fun _ => none
  node := none

/-- `vpage_allocator_alloc`. -/
def takePage (pageAlloc : List ℕ → ℕ) (S : Store) : ℕ × Store :=
  let (page, pages) := S.pages.alloc (pageAlloc S.held)
  (page, { S with
    pages := pages
    held := if S.pages.freePages = [] then page :: S.held else S.held })

/-- `vpage_allocator_free` at the time zero. -/
def freePage (page : ℕ) (S : Store) : Store :=
  let (pages, freed) := S.pages.free page 0 noHandles
  { S with pages := pages, held := S.held.filter fun page => page ∉ freed }

/-- `node_allocator_alloc`. -/
def alloc (L : Layout) (pageAlloc : List ℕ → ℕ) (type : ℕ) (S : Store) : Address × Store :=
  match S.heap.allocSlot type with
  | (some node, heap) => (node, { S with heap := heap })
  | (none, heap) =>
      let (page, S) := takePage pageAlloc { S with heap := heap }
      let (node, heap) := S.heap.allocPage L type page
      (node, { S with heap := heap })

/-- One call of a load. -/
def step (L : Layout) (pageAlloc : List ℕ → ℕ) (S : Store) : NodeCall → Store
  | .alloc type =>
      let (node, S) := S.alloc L pageAlloc type
      { S with node := some node, initialised := Function.update S.initialised node false }
  | .setId id =>
      match S.node with
      | none => S
      | some node => { S with heap := S.heap.setId node id }
  | .insert =>
      match S.node with
      | none => S
      | some node =>
          { S with
            dictionary := Function.update S.dictionary (S.heap.id node) (some node)
            initialised := Function.update S.initialised node true }
  | .free id =>
      match S.dictionary id with
      | none => S
      | some node =>
          let (last, heap) := (S.heap.setId node 0).freeSlot L node
          let S := { S with
            heap := heap
            dictionary := Function.update S.dictionary id none
            initialised := Function.update S.initialised node false }
          if last then S.freePage node.page else S

/-- The store after the calls of a load. -/
def run (L : Layout) (P : PageSource) : List NodeCall → Store
  | [] => init
  | call :: calls => (run L P calls).step L (P.next calls) call

/-- The nodes that `node_for_each` enumerates, type after type. -/
def stored (L : Layout) (types : ℕ) (S : Store) : List Address :=
  (List.range types).flatMap fun type => S.heap.nodeForEach L type

/-- The walk and the dictionary show the same nodes: each id once, and each node
initialised; and no id is above the counter. -/
structure Exact (L : Layout) (types counter : ℕ) (S : Store) : Prop where
  same : ∀ node, node ∈ S.stored L types ↔ ∃ id, S.dictionary id = some node
  once : ((S.stored L types).map S.heap.id).Nodup
  initialised : ∀ node ∈ S.stored L types, S.initialised node = true
  bounded : ∀ id, (S.dictionary id).isSome = true → id ≤ counter

/-! ## What holds of the pages -/

/-- Pages that are in use, and pages that were freed, come from the page allocator, and
no page is both. -/
structure Paged (heap : Heap) (pages : VPageAllocator) (held : List ℕ) : Prop where
  owned : ∀ page, heap.Owns page → page ∈ held
  freed : ∀ item ∈ pages.freePages, item.page ∈ held
  idle : ∀ item ∈ pages.freePages, ¬ heap.Owns item.page
  nodup : (pages.freePages.map FreePage.page).Nodup

theorem Paged.of_owns {heap heap' : Heap} {pages : VPageAllocator} {held : List ℕ}
    (paged : Paged heap pages held) (owns : ∀ page, heap'.Owns page → heap.Owns page) :
    Paged heap' pages held where
  owned := fun page owned => paged.owned page (owns page owned)
  freed := paged.freed
  idle := fun item inside owned => paged.idle item inside (owns item.page owned)
  nodup := paged.nodup

variable {L : Layout} {S : Store} {pageAlloc : List ℕ → ℕ}

/-- A page that is taken is not in use. -/
theorem paged_takePage (paged : Paged S.heap S.pages S.held)
    (fresh : ∀ held, pageAlloc held ∉ held) (type : ℕ) :
    ¬ S.heap.Owns (S.takePage pageAlloc).1 ∧ (S.takePage pageAlloc).2.heap = S.heap ∧
      Paged (S.heap.allocPage L type (S.takePage pageAlloc).1).2 (S.takePage pageAlloc).2.pages
        (S.takePage pageAlloc).2.held := by
  rcases S.pages.alloc_cases (pageAlloc S.held) with ⟨none, alloc⟩ | ⟨item, rest, some, page, left⟩
  · have taken : S.takePage pageAlloc =
        (pageAlloc S.held, { S with held := pageAlloc S.held :: S.held }) := by
      simp only [takePage, alloc, none, if_true]
    rw [taken]
    refine ⟨fun owned => fresh _ (paged.owned _ owned), rfl, fun page owned => ?_,
      fun item inside => ?_, fun item inside => ?_, paged.nodup⟩
    · rcases Heap.owns_allocPage page |>.mp owned with rfl | owned
      · exact List.mem_cons_self
      · exact List.mem_cons_of_mem _ (paged.owned page owned)
    · exact List.mem_cons_of_mem _ (paged.freed item inside)
    · rw [none] at inside
      cases inside
  · have taken : S.takePage pageAlloc =
        (item.page, { S with pages := (S.pages.alloc (pageAlloc S.held)).2 }) := by
      have nonempty : S.pages.freePages ≠ [] := by
        rw [some]
        exact List.cons_ne_nil _ _
      simp only [takePage, page, nonempty, if_false]
    have first : item ∈ S.pages.freePages := some ▸ List.mem_cons_self
    have nodup := paged.nodup
    rw [some, List.map_cons] at nodup
    obtain ⟨apart, nodup⟩ := List.nodup_cons.mp nodup
    rw [taken]
    refine ⟨paged.idle item first, rfl, fun page owned => ?_, fun other inside => ?_,
      fun other inside => ?_, ?_⟩
    · rcases Heap.owns_allocPage page |>.mp owned with rfl | owned
      · exact paged.freed item first
      · exact paged.owned page owned
    · have inside : other ∈ rest := left ▸ inside
      exact paged.freed other (some ▸ List.mem_cons_of_mem _ inside)
    · have inside : other ∈ rest := left ▸ inside
      intro owned
      rcases Heap.owns_allocPage other.page |>.mp owned with same | owned
      · have same : other.page = item.page := same
        exact apart (same ▸ List.mem_map_of_mem inside)
      · exact paged.idle other (some ▸ List.mem_cons_of_mem _ inside) owned
    · show ((S.pages.alloc (pageAlloc S.held)).2.freePages.map FreePage.page).Nodup
      rw [left]
      exact nodup

/-- A page that is not used any more is freed. -/
theorem paged_freePage {heap : Heap} {page : ℕ} (paged : Paged S.heap S.pages S.held)
    (used : S.heap.Owns page) (owns : ∀ other, heap.Owns other ↔ other ≠ page ∧ S.heap.Owns other) :
    Paged heap (freePage page S).pages (freePage page S).held := by
  have all := S.pages.free_perm page 0 noHandles
  have apart : page ∉ S.pages.freePages.map FreePage.page := by
    intro listed
    obtain ⟨item, inside, rfl⟩ := List.mem_map.mp listed
    exact paged.idle item inside used
  have nodup := all.symm.nodup (List.nodup_cons.mpr ⟨apart, paged.nodup⟩)
  obtain ⟨nodupLeft, -, disjoint⟩ := List.nodup_append.mp nodup
  have before (other : ℕ) (inside : other ∈ (S.pages.free page 0 noHandles).1.freePages.map
      FreePage.page ++ (S.pages.free page 0 noHandles).2) :
      other = page ∨ ∃ item ∈ S.pages.freePages, item.page = other := by
    rcases List.mem_cons.mp (all.mem_iff.mp inside) with same | inside
    · exact .inl same
    · exact .inr (List.mem_map.mp inside)
  refine ⟨fun other owned => ?_, fun item inside => ?_, fun item inside => ?_, nodupLeft⟩
  · obtain ⟨different, owned⟩ := (owns other).mp owned
    refine List.mem_filter.mpr ⟨paged.owned other owned, decide_eq_true fun freed => ?_⟩
    rcases before other (List.mem_append_right _ freed) with same | ⟨item, inside, rfl⟩
    · exact different same
    · exact paged.idle item inside owned
  · have there := List.mem_map_of_mem (f := FreePage.page) inside
    refine List.mem_filter.mpr ⟨?_, decide_eq_true fun freed => disjoint _ there _ freed rfl⟩
    rcases before item.page (List.mem_append_left _ there) with same | ⟨other, inside, same⟩
    · rw [same]
      exact paged.owned page used
    · rw [← same]
      exact paged.freed other inside
  · have there := List.mem_map_of_mem (f := FreePage.page) inside
    intro owned
    obtain ⟨different, owned⟩ := (owns item.page).mp owned
    rcases before item.page (List.mem_append_left _ there) with same | ⟨other, inside, same⟩
    · exact different same
    · exact paged.idle other inside (same ▸ owned)

/-! ## What the calls do -/

/-- A slot in use whose node is not the one of the dictionary with its id. -/
def Stray (L : Layout) (S : Store) (node : Address) : Prop :=
  S.heap.Allocated L node ∧ S.heap.id node ≠ 0 ∧ S.dictionary (S.heap.id node) ≠ some node

/-- The store is one that these calls leave. -/
structure Follows (L : Layout) (types : ℕ) (calls : List NodeCall) (S : Store) : Prop where
  valid : S.heap.Valid L
  paged : Paged S.heap S.pages S.held
  typed : ∀ node, S.heap.Allocated L node → (S.heap.block node.page).type < types
  alive : ∀ id, (S.dictionary id).isSome = true ↔ Alive calls id
  entry : ∀ id node, S.dictionary id = some node →
    S.heap.Allocated L node ∧ S.heap.id node = id ∧ S.initialised node = true
  strays : (∃ node, S.Stray L node) ↔ Renames calls

/-- The store has a new node, which is not in the dictionary. -/
structure HasNew (L : Layout) (S : Store) (node : Address) : Prop where
  current : S.node = some node
  allocated : S.heap.Allocated L node
  id : S.heap.id node = 0
  unknown : ∀ id, S.dictionary id ≠ some node

variable {types : ℕ} {calls : List NodeCall}

theorem follows_init (L : Layout) (types : ℕ) : init.Follows L types [] where
  valid := Heap.valid_init L
  paged := ⟨fun _ owned => absurd owned List.not_mem_nil, fun _ inside => absurd inside
    List.not_mem_nil, fun _ inside => absurd inside List.not_mem_nil, List.nodup_nil⟩
  typed := fun node allocated => absurd allocated (Heap.not_allocated_init L node)
  alive := fun _ => by simp [init, Alive]
  entry := fun _ _ found => by cases found
  strays := by
    refine iff_of_false ?_ id
    rintro ⟨node, allocated, -⟩
    exact Heap.not_allocated_init L node allocated

/-- `node_allocator_alloc` takes a slot. -/
theorem takes_alloc (valid : S.heap.Valid L) (paged : Paged S.heap S.pages S.held)
    (fresh : ∀ held, pageAlloc held ∉ held) (type : ℕ) :
    Heap.Takes L type S.heap (S.alloc L pageAlloc type).2.heap (S.alloc L pageAlloc type).1 ∧
      Paged (S.alloc L pageAlloc type).2.heap (S.alloc L pageAlloc type).2.pages
        (S.alloc L pageAlloc type).2.held ∧
      (S.alloc L pageAlloc type).2.dictionary = S.dictionary ∧
      (S.alloc L pageAlloc type).2.initialised = S.initialised := by
  rcases Heap.allocSlot_cases valid type with ⟨node, heap, slot, takes, owns⟩ |
    ⟨heap, slot, reordered⟩
  · have alloc : S.alloc L pageAlloc type = (node, { S with heap := heap }) := by
      simp only [alloc, slot]
    rw [alloc]
    exact ⟨takes, paged.of_owns fun page owned => (owns page).mp owned, rfl, rfl⟩
  · set S₁ : Store := { S with heap := heap } with hS₁
    have paged₁ : Paged S₁.heap S₁.pages S₁.held :=
      paged.of_owns fun page owned => (reordered.owns page).mp owned
    obtain ⟨new, same, paged₂⟩ := paged_takePage paged₁ fresh type
    set page := (S₁.takePage pageAlloc).1 with hpage
    have alloc : S.alloc L pageAlloc type = ((heap.allocPage L type page).1,
        { (S₁.takePage pageAlloc).2 with heap := (heap.allocPage L type page).2 }) := by
      simp only [alloc, slot]
      rw [show (takePage pageAlloc S₁).2.heap = heap from same]
    rw [alloc]
    have takes : Heap.Takes L type heap (heap.allocPage L type page).2
        (heap.allocPage L type page).1 := Heap.takes_allocPage reordered.valid new
    have kept : (S₁.takePage pageAlloc).2.dictionary = S.dictionary ∧
        (S₁.takePage pageAlloc).2.initialised = S.initialised := ⟨rfl, rfl⟩
    exact ⟨reordered.takes takes, paged₂, kept⟩

theorem follows_alloc (follows : S.Follows L types calls) (fresh : ∀ held, pageAlloc held ∉ held)
    {type : ℕ} (known : type < types) :
    (S.step L pageAlloc (.alloc type)).Follows L types (.alloc type :: calls) ∧
      ∃ node, (S.step L pageAlloc (.alloc type)).HasNew L node := by
  obtain ⟨takes, paged, dictionary, initialised⟩ :=
    takes_alloc follows.valid follows.paged fresh type
  set node := (S.alloc L pageAlloc type).1 with hnode
  set S₁ := (S.alloc L pageAlloc type).2 with hS₁
  have stepped : S.step L pageAlloc (.alloc type) =
      { S₁ with node := some node, initialised := Function.update S₁.initialised node false } := rfl
  have unknown (id : ℕ) : S.dictionary id ≠ some node :=
    fun found => takes.unused (follows.entry id node found).1
  rw [stepped]
  refine ⟨⟨takes.valid, paged, fun other allocated => ?_, fun id => ?_, fun id other found => ?_, ?_⟩,
    node, rfl, (takes.allocated node).mpr (.inl rfl), takes.id, fun id => ?_⟩
  · rcases (takes.allocated other).mp allocated with same | allocated
    · show (S₁.heap.block other.page).type < types
      rw [same, takes.type]
      exact known
    · show (S₁.heap.block other.page).type < types
      rw [takes.types other allocated]
      exact follows.typed other allocated
  · show (S₁.dictionary id).isSome = true ↔ _
    rw [dictionary]
    exact follows.alive id
  · have found : S.dictionary id = some other := dictionary ▸ found
    obtain ⟨allocated, same, ran⟩ := follows.entry id other found
    have different : other ≠ node := fun h => unknown id (h ▸ found)
    refine ⟨(takes.allocated other).mpr (.inr allocated), (takes.ids other allocated).trans same, ?_⟩
    show Function.update S₁.initialised node false other = true
    rw [Function.update_of_ne different, initialised, ran]
  · have same (other : Address) : (S₁.heap.Allocated L other ∧ S₁.heap.id other ≠ 0 ∧
        S₁.dictionary (S₁.heap.id other) ≠ some other) ↔ S.Stray L other := by
      rw [takes.allocated, dictionary]
      constructor
      · rintro ⟨rfl | allocated, used, lost⟩
        · exact absurd takes.id used
        · rw [takes.ids other allocated] at used lost
          exact ⟨allocated, used, lost⟩
      · rintro ⟨allocated, used, lost⟩
        rw [takes.ids other allocated]
        exact ⟨.inr allocated, used, lost⟩
    exact (exists_congr same).trans follows.strays
  · show S₁.dictionary id ≠ some node
    rw [dictionary]
    exact unknown id

/-- The id of a node that is in use changes. -/
theorem valid_setId {H : Heap} {node : Address} (valid : H.Valid L)
    (allocated : H.Allocated L node) (id : ℕ) : (H.setId node id).Valid L := by
  refine ⟨valid.same, valid.nodup, valid.typed, valid.filled, fun type page inside slot free => ?_⟩
  have different : (⟨page, slot⟩ : Address) ≠ node := by
    rintro rfl
    exact allocated.2.2 free
  show Function.update H.id node id ⟨page, slot⟩ = 0
  rw [Function.update_of_ne different]
  exact valid.idle type page inside slot free

/-- The new node gets an id. -/
theorem step_setId {node : Address} (new : S.HasNew L node) (id : ℕ) :
    S.step L pageAlloc (.setId id) = { S with heap := S.heap.setId node id } := by
  simp only [step, new.current]

theorem entry_setId (follows : S.Follows L types calls) {node : Address} (new : S.HasNew L node)
    (id other : ℕ) (there : Address) (found : S.dictionary other = some there) :
    S.heap.Allocated L there ∧ (S.heap.setId node id).id there = other ∧
      S.initialised there = true := by
  obtain ⟨allocated, same, ran⟩ := follows.entry other there found
  have different : there ≠ node := fun h => new.unknown other (h ▸ found)
  refine ⟨allocated, ?_, ran⟩
  show Function.update S.heap.id node id there = other
  rw [Function.update_of_ne different, same]

/-- The id of the new node is there already. -/
theorem follows_taken (follows : S.Follows L types calls) {node : Address}
    (new : S.HasNew L node) {id : ℕ} (alive : Alive calls id) :
    (S.step L pageAlloc (.setId id)).Follows L types (.setId id :: calls) := by
  rw [step_setId new]
  refine ⟨valid_setId follows.valid new.allocated id, follows.paged.of_owns fun _ owned => owned,
    follows.typed, follows.alive,
    entry_setId follows new id, ?_⟩
  have stray (other : Address) (different : other ≠ node) :
      Stray L { S with heap := S.heap.setId node id } other ↔ S.Stray L other := by
    have same : (S.heap.setId node id).id other = S.heap.id other :=
      Function.update_of_ne different ..
    show S.heap.Allocated L other ∧ (S.heap.setId node id).id other ≠ 0 ∧
      S.dictionary ((S.heap.setId node id).id other) ≠ some other ↔ _
    rw [same]
    exact Iff.rfl
  have itself : (S.heap.setId node id).id node = id := Function.update_self ..
  constructor
  · rintro ⟨other, is⟩
    by_cases here : other = node
    · subst here
      obtain ⟨-, used, -⟩ := is
      have used : (S.heap.setId other id).id other ≠ 0 := used
      rw [itself] at used
      exact .inl ⟨used, alive⟩
    · exact .inr (follows.strays.mp ⟨other, (stray other here).mp is⟩)
  · rintro (⟨used, -⟩ | before)
    · refine ⟨node, new.allocated, ?_, ?_⟩
      · show (S.heap.setId node id).id node ≠ 0
        rwa [itself]
      · show S.dictionary ((S.heap.setId node id).id node) ≠ some node
        rw [itself]
        exact new.unknown id
    · obtain ⟨other, is⟩ := follows.strays.mpr before
      have different : other ≠ node := by
        rintro rfl
        exact is.2.1 new.id
      exact ⟨other, (stray other different).mpr is⟩

/-- The new node is put into the dictionary. -/
theorem follows_created (follows : S.Follows L types calls) {node : Address}
    (new : S.HasNew L node) {id : ℕ} (absent : ¬ Alive calls id) {pageAlloc' : List ℕ → ℕ} :
    ((S.step L pageAlloc (.setId id)).step L pageAlloc' .insert).Follows L types
      (.insert :: .setId id :: calls) := by
  have itself : (S.heap.setId node id).id node = id := Function.update_self ..
  have inserted : (S.step L pageAlloc (.setId id)).step L pageAlloc' .insert =
      { S with
        heap := S.heap.setId node id
        dictionary := Function.update S.dictionary id (some node)
        initialised := Function.update S.initialised node true } := by
    rw [step_setId new]
    simp only [step, new.current, itself]
  have free : S.dictionary id = none := by
    by_contra present
    exact absent ((follows.alive id).mp (Option.isSome_iff_ne_none.mpr present))
  rw [inserted]
  refine ⟨valid_setId follows.valid new.allocated id, follows.paged.of_owns fun _ owned => owned,
    follows.typed, fun other => ?_, fun other there found => ?_, ?_⟩
  · show (Function.update S.dictionary id (some node) other).isSome = true ↔
      other = id ∨ Alive calls other
    by_cases here : other = id
    · subst here
      simp
    · rw [Function.update_of_ne here, follows.alive]
      simp [here]
  · have found : Function.update S.dictionary id (some node) other = some there := found
    by_cases here : other = id
    · subst here
      rw [Function.update_self] at found
      cases found
      exact ⟨new.allocated, itself, Function.update_self ..⟩
    · rw [Function.update_of_ne here] at found
      obtain ⟨allocated, same, ran⟩ := entry_setId follows new id other there found
      refine ⟨allocated, same, ?_⟩
      have different : there ≠ node := fun h => new.unknown other (h ▸ found)
      show Function.update S.initialised node true there = true
      rw [Function.update_of_ne different, ran]
  · have none : ¬ (id ≠ 0 ∧ Alive calls id) := fun h => absent h.2
    show _ ↔ id ≠ 0 ∧ Alive calls id ∨ Renames calls
    rw [or_iff_right none, ← follows.strays]
    refine exists_congr fun other => ?_
    show S.heap.Allocated L other ∧ (S.heap.setId node id).id other ≠ 0 ∧
      Function.update S.dictionary id (some node) ((S.heap.setId node id).id other) ≠ some other ↔ _
    by_cases here : other = node
    · subst here
      rw [itself, Function.update_self]
      exact iff_of_false (fun h => h.2.2 rfl) fun h => h.2.1 new.id
    · have same : (S.heap.setId node id).id other = S.heap.id other :=
        Function.update_of_ne here ..
      rw [same]
      by_cases taken : S.heap.id other = id
      · rw [taken, Function.update_self]
        unfold Stray
        rw [taken, free]
        simp [Ne.symm here]
      · rw [Function.update_of_ne taken]
        exact Iff.rfl

/-- A node of the dictionary is freed. -/
theorem follows_freed (follows : S.Follows L types calls) {id : ℕ} (alive : Alive calls id) :
    (S.step L pageAlloc (.free id)).Follows L types (.free id :: calls) := by
  obtain ⟨node, found⟩ := Option.isSome_iff_exists.mp ((follows.alive id).mpr alive)
  obtain ⟨allocated, itself, -⟩ := follows.entry id node found
  have cleared := valid_setId follows.valid allocated 0
  obtain ⟨frees, owns⟩ := Heap.frees_freeSlot cleared (a := node) allocated
  set heap := ((S.heap.setId node 0).freeSlot L node).2 with hheap
  set last := ((S.heap.setId node 0).freeSlot L node).1 with hlast
  set S₁ : Store := { S with
    heap := heap
    dictionary := Function.update S.dictionary id none
    initialised := Function.update S.initialised node false } with hS₁
  have stepped : S.step L pageAlloc (.free id) = if last then S₁.freePage node.page else S₁ := by
    simp only [step, found]
    rfl
  have ids : heap.id = Function.update S.heap.id node 0 := by
    rw [frees.id]
    show Function.update (Function.update S.heap.id node 0) node 0 = _
    rw [Function.update_idem]
  have inUse (other : Address) : heap.Allocated L other ↔ other ≠ node ∧ S.heap.Allocated L other :=
    frees.allocated other
  have paged : Paged (S.step L pageAlloc (.free id)).heap (S.step L pageAlloc (.free id)).pages
      (S.step L pageAlloc (.free id)).held := by
    rw [stepped]
    by_cases gone : last = true
    · rw [if_pos gone]
      have left : Paged heap (S.freePage node.page).pages (S.freePage node.page).held :=
        paged_freePage follows.paged allocated.1 fun page =>
          (owns page).trans (and_congr_left fun _ => imp_iff_right gone)
      exact left
    · rw [if_neg gone]
      exact follows.paged.of_owns fun page owned => ((owns page).mp owned).2
  have heapSame : (S.step L pageAlloc (.free id)).heap = heap := by
    rw [stepped]
    split <;> rfl
  have dictionarySame : (S.step L pageAlloc (.free id)).dictionary =
      Function.update S.dictionary id none := by
    rw [stepped]
    split <;> rfl
  have initialisedSame : (S.step L pageAlloc (.free id)).initialised =
      Function.update S.initialised node false := by
    rw [stepped]
    split <;> rfl
  refine ⟨heapSame ▸ frees.valid, paged, fun other inside => ?_, fun other => ?_,
    fun other there known => ?_, ?_⟩
  · rw [heapSame] at inside ⊢
    rw [frees.types]
    exact follows.typed other ((inUse other).mp inside).2
  · rw [dictionarySame]
    show _ ↔ other ≠ id ∧ Alive calls other
    by_cases here : other = id
    · subst here
      simp
    · rw [Function.update_of_ne here, follows.alive]
      simp [here]
  · rw [dictionarySame] at known
    by_cases here : other = id
    · subst here
      rw [Function.update_self] at known
      cases known
    · rw [Function.update_of_ne here] at known
      obtain ⟨inside, same, ran⟩ := follows.entry other there known
      have different : there ≠ node := by
        rintro rfl
        exact here (same.symm.trans itself)
      rw [heapSame, initialisedSame, inUse, ids, Function.update_of_ne different,
        Function.update_of_ne different]
      exact ⟨⟨different, inside⟩, same, ran⟩
  · show _ ↔ Renames calls
    rw [← follows.strays]
    refine exists_congr fun other => ?_
    unfold Stray
    rw [heapSame, dictionarySame, inUse, ids]
    by_cases here : other = node
    · subst here
      refine iff_of_false (fun h => h.1.1 rfl) fun h => h.2.2 ?_
      rw [itself, found]
    · rw [Function.update_of_ne here]
      by_cases taken : S.heap.id other = id
      · rw [taken, Function.update_self, found]
        simp [here, Ne.symm here]
      · rw [Function.update_of_ne taken]
        simp [here]

end Store

end HybridDatabase.Database
