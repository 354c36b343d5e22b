/-
# The slots of the node allocator

Every page that an allocator holds has a list of its free slots, which are all
different, and as many slots in use as are not in that list.  Taking and freeing slots
keeps this and does to the set of slots in use what it should.
-/

import HybridDatabase.Allocator.Nodes
import Mathlib.Data.List.Perm.Subperm
import Mathlib.Data.Finset.Card

namespace HybridDatabase.Allocator

open HybridDatabase.Base

/-! ## Well-formed pages -/

/-- The free slots of a page with `n` slots are all different, and the others are in
use. -/
structure Block.Filled (n : ℕ) (block : Block) : Prop where
  nodup : block.freeNodes.Nodup
  inside : ∀ slot ∈ block.freeNodes, slot < n
  count : block.used + block.freeNodes.length = n
  positive : 0 < block.used

namespace Heap

variable {L : Layout} {H : Heap} {a b : Address} {type page : ℕ}

/-- The page belongs to an allocator. -/
def Owns (H : Heap) (page : ℕ) : Prop := page ∈ (H.allocators (H.block page).type).blocks

/-- The slot is in use. -/
def Allocated (L : Layout) (H : Heap) (a : Address) : Prop :=
  H.Owns a.page ∧ a.slot < L.nodesPerBlock (H.block a.page).type ∧
    a.slot ∉ (H.block a.page).freeNodes

/-- What holds of the heap between calls. -/
structure Valid (L : Layout) (H : Heap) : Prop where
  same : ∀ type, (H.allocators type).blocks.Perm (H.allocators type).dumpBlocks
  nodup : ∀ type, (H.allocators type).blocks.Nodup
  typed : ∀ type, ∀ page ∈ (H.allocators type).blocks, (H.block page).type = type
  filled : ∀ type, ∀ page ∈ (H.allocators type).blocks,
    (H.block page).Filled (L.nodesPerBlock type)
  idle : ∀ type, ∀ page ∈ (H.allocators type).blocks, ∀ slot ∈ (H.block page).freeNodes,
    H.id ⟨page, slot⟩ = 0

theorem valid_init (L : Layout) : init.Valid L where
  same := fun _ => List.Perm.refl _
  nodup := fun _ => List.nodup_nil
  typed := fun _ _ inside => absurd inside List.not_mem_nil
  filled := fun _ _ inside => absurd inside List.not_mem_nil
  idle := fun _ _ inside => absurd inside List.not_mem_nil

theorem not_allocated_init (L : Layout) (a : Address) : ¬ init.Allocated L a :=
  fun ⟨owned, _⟩ => absurd owned List.not_mem_nil

theorem Valid.owns (valid : H.Valid L) (inside : page ∈ (H.allocators type).blocks) :
    H.Owns page := by
  have typed := valid.typed type page inside
  unfold Owns
  rwa [typed]

theorem Valid.filled_of_owns (valid : H.Valid L) (owned : H.Owns page) :
    (H.block page).Filled (L.nodesPerBlock (H.block page).type) := valid.filled _ page owned

theorem allocators_setAllocator_self (H : Heap) (type : ℕ) (A : NodeAllocator) :
    (H.setAllocator type A).allocators type = A := Function.update_self ..

theorem allocators_setAllocator_of_ne {other : ℕ} (there : other ≠ type) (A : NodeAllocator) :
    (H.setAllocator type A).allocators other = H.allocators other :=
  Function.update_of_ne there ..

/-! ## Changes of the lists of pages -/

/-- The pages of a type are put into another order. -/
theorem Valid.reorder (valid : H.Valid L) {A : NodeAllocator}
    (blocks : A.blocks.Perm (H.allocators type).blocks)
    (dumpBlocks : A.dumpBlocks.Perm (H.allocators type).dumpBlocks) :
    (H.setAllocator type A).Valid L := by
  have inside (other page : ℕ) (h : page ∈ ((H.setAllocator type A).allocators other).blocks) :
      page ∈ (H.allocators other).blocks := by
    by_cases here : other = type
    · subst here
      rw [allocators_setAllocator_self] at h
      exact blocks.mem_iff.mp h
    · rwa [allocators_setAllocator_of_ne here] at h
  refine ⟨fun other => ?_, fun other => ?_, fun other page h => valid.typed other page (inside _ _ h),
    fun other page h => valid.filled other page (inside _ _ h),
    fun other page h => valid.idle other page (inside _ _ h)⟩
  · by_cases here : other = type
    · subst here
      rw [allocators_setAllocator_self]
      exact blocks.trans ((valid.same other).trans dumpBlocks.symm)
    · rw [allocators_setAllocator_of_ne here]
      exact valid.same other
  · by_cases here : other = type
    · subst here
      rw [allocators_setAllocator_self]
      exact blocks.nodup_iff.mpr (valid.nodup other)
    · rw [allocators_setAllocator_of_ne here]
      exact valid.nodup other

theorem owns_reorder {A : NodeAllocator} (blocks : A.blocks.Perm (H.allocators type).blocks)
    (page : ℕ) : (H.setAllocator type A).Owns page ↔ H.Owns page := by
  show page ∈ ((H.setAllocator type A).allocators (H.block page).type).blocks ↔ _
  by_cases here : (H.block page).type = type
  · subst here
    rw [allocators_setAllocator_self]
    exact blocks.mem_iff
  · rw [allocators_setAllocator_of_ne here]
    exact Iff.rfl

theorem allocated_reorder {A : NodeAllocator} (blocks : A.blocks.Perm (H.allocators type).blocks)
    (a : Address) : (H.setAllocator type A).Allocated L a ↔ H.Allocated L a :=
  and_congr (owns_reorder blocks a.page) Iff.rfl

/-! ## Changes of one page -/

theorem block_setBlock_self (H : Heap) (page : ℕ) (block : Block) :
    (H.setBlock page block).block page = block := Function.update_self ..

theorem block_setBlock_of_ne {other : ℕ} (there : other ≠ page) (block : Block) :
    (H.setBlock page block).block other = H.block other := Function.update_of_ne there ..

/-- The header of a page changes. -/
theorem Valid.setBlock (valid : H.Valid L) {block : Block}
    (same : block.type = (H.block page).type)
    (filled : block.Filled (L.nodesPerBlock block.type))
    (idle : ∀ slot ∈ block.freeNodes, H.id ⟨page, slot⟩ = 0) : (H.setBlock page block).Valid L := by
  refine ⟨valid.same, valid.nodup, fun type other h => ?_, fun type other h => ?_,
    fun type other h => ?_⟩
  · have typed := valid.typed type other h
    by_cases here : other = page
    · subst here
      rw [block_setBlock_self, same, typed]
    · rwa [block_setBlock_of_ne here]
  · have typed := valid.typed type other h
    by_cases here : other = page
    · subst here
      rw [block_setBlock_self, ← typed, ← same]
      exact filled
    · rw [block_setBlock_of_ne here]
      exact valid.filled type other h
  · by_cases here : other = page
    · subst here
      rw [block_setBlock_self]
      exact idle
    · rw [block_setBlock_of_ne here]
      exact valid.idle type other h

theorem owns_setBlock {block : Block} (same : block.type = (H.block page).type) (other : ℕ) :
    (H.setBlock page block).Owns other ↔ H.Owns other := by
  unfold Owns
  by_cases here : other = page
  · subst here
    rw [block_setBlock_self, same]
    exact Iff.rfl
  · rw [block_setBlock_of_ne here]
    exact Iff.rfl

/-- The slots in use, where the free slots of a page change. -/
theorem allocated_setBlock {block : Block} (same : block.type = (H.block page).type)
    (a : Address) : (H.setBlock page block).Allocated L a ↔
      if a.page = page then
        H.Owns page ∧ a.slot < L.nodesPerBlock (H.block page).type ∧ a.slot ∉ block.freeNodes
      else H.Allocated L a := by
  have owned := owns_setBlock same a.page
  unfold Allocated
  by_cases here : a.page = page
  · rw [if_pos here, owned, here, block_setBlock_self, same]
  · rw [if_neg here, owned, block_setBlock_of_ne here]

/-- The header of a page that no allocator holds changes. -/
theorem Valid.setBlock_of_not_owns (valid : H.Valid L) {block : Block}
    (same : block.type = (H.block page).type) (out : ¬H.Owns page) :
    (H.setBlock page block).Valid L ∧
      ∀ a, (H.setBlock page block).Allocated L a ↔ H.Allocated L a := by
  have there {type other : ℕ} (h : other ∈ (H.allocators type).blocks) :
      (H.setBlock page block).block other = H.block other :=
    block_setBlock_of_ne (fun here : other = page => out (here ▸ valid.owns h)) block
  refine ⟨⟨valid.same, valid.nodup, fun type other h => ?_, fun type other h => ?_,
    fun type other h => ?_⟩, fun a => ?_⟩
  · rw [there h]
    exact valid.typed type other h
  · rw [there h]
    exact valid.filled type other h
  · rw [there h]
    exact valid.idle type other h
  · rw [allocated_setBlock same]
    by_cases here : a.page = page
    · rw [if_pos here]
      exact ⟨fun h => absurd h.1 out, fun h => absurd (here ▸ h.1) out⟩
    · rw [if_neg here]

/-! ## Taking a slot -/

/-- A slot of this type that was not in use is now, and nothing else has changed. -/
structure Takes (L : Layout) (type : ℕ) (H H' : Heap) (a : Address) : Prop where
  valid : H'.Valid L
  unused : ¬ H.Allocated L a
  allocated : ∀ b, H'.Allocated L b ↔ b = a ∨ H.Allocated L b
  id : H'.id a = 0
  type : (H'.block a.page).type = type
  ids : ∀ b, H.Allocated L b → H'.id b = H.id b
  types : ∀ b, H.Allocated L b → (H'.block b.page).type = (H.block b.page).type

theorem perm_moveFirst {pages : List ℕ} (inside : page ∈ pages) :
    (page :: pages.erase page).Perm pages := (List.perm_cons_erase inside).symm

theorem perm_moveLast {pages : List ℕ} (inside : page ∈ pages) :
    (pages.erase page ++ [page]).Perm pages :=
  (List.perm_append_singleton _ _).trans (perm_moveFirst inside)

/-- A free slot of a page is taken. -/
theorem takes_setBlock (valid : H.Valid L) (inside : page ∈ (H.allocators type).blocks)
    {slot : ℕ} {rest : List ℕ} (free : (H.block page).freeNodes = slot :: rest) :
    Takes L type H
      (H.setBlock page ⟨rest, (H.block page).used + 1, (H.block page).type⟩) ⟨page, slot⟩ := by
  have owned := valid.owns inside
  have typed := valid.typed type page inside
  obtain ⟨nodup, small, count, positive⟩ := valid.filled type page inside
  rw [free] at nodup small count
  set block : Block := ⟨rest, (H.block page).used + 1, (H.block page).type⟩ with hblock
  have same : block.type = (H.block page).type := rfl
  obtain ⟨apart, nodupRest⟩ := List.nodup_cons.mp nodup
  rw [List.length_cons] at count
  have idle : ∀ other ∈ slot :: rest, H.id ⟨page, other⟩ = 0 := by
    rw [← free]
    exact valid.idle type page inside
  refine ⟨valid.setBlock same ?_ fun other h => idle other (List.mem_cons_of_mem _ h), ?_,
    fun b => ?_, idle slot List.mem_cons_self, ?_, fun _ _ => rfl, fun b _ => ?_⟩
  · rw [same, typed]
    have counted : (H.block page).used + 1 + rest.length = L.nodesPerBlock type := by omega
    exact ⟨nodupRest, fun other h => small other (List.mem_cons_of_mem _ h), counted,
      Nat.succ_pos _⟩
  · rintro ⟨-, -, taken⟩
    exact taken (free ▸ List.mem_cons_self)
  · rw [allocated_setBlock same]
    by_cases here : b.page = page
    · rw [if_pos here]
      obtain ⟨other, place⟩ := b
      obtain rfl : other = page := here
      simp only [Allocated, free, List.mem_cons, not_or, Address.mk.injEq, true_and]
      have bound := small slot List.mem_cons_self
      rw [← typed] at bound
      by_cases same : place = slot
      · subst same
        simp only [true_or, iff_true]
        exact ⟨owned, bound, apart⟩
      · simp [same, hblock]
    · rw [if_neg here]
      have other : b ≠ ⟨page, slot⟩ := fun same => here (congrArg Address.page same)
      simp [other]
  · rw [block_setBlock_self]
    exact typed
  · by_cases here : b.page = page
    · rw [here, block_setBlock_self]
    · rw [block_setBlock_of_ne here]

theorem Takes.reorder {H' : Heap} (takes : Takes L type H H' a) {other : ℕ} {A : NodeAllocator}
    (blocks : A.blocks.Perm (H'.allocators other).blocks)
    (dumpBlocks : A.dumpBlocks.Perm (H'.allocators other).dumpBlocks) :
    Takes L type H (H'.setAllocator other A) a where
  valid := takes.valid.reorder blocks dumpBlocks
  unused := takes.unused
  allocated := fun b => (allocated_reorder blocks b).trans (takes.allocated b)
  id := takes.id
  type := takes.type
  ids := takes.ids
  types := takes.types

theorem allocSlot_none (last : (H.allocators type).blocks.getLast? = none) :
    H.allocSlot type = (none, H) := by
  rw [allocSlot]
  simp only [last]

theorem allocSlot_full (last : (H.allocators type).blocks.getLast? = some page)
    (free : (H.block page).freeNodes = []) :
    H.allocSlot type = (none, H.setAllocator type { H.allocators type with
      blocks := page :: (H.allocators type).blocks.erase page }) := by
  rw [allocSlot]
  simp only [last, free]

theorem allocSlot_free {slot : ℕ} {rest : List ℕ}
    (last : (H.allocators type).blocks.getLast? = some page)
    (free : (H.block page).freeNodes = slot :: rest) :
    H.allocSlot type = (some ⟨page, slot⟩,
      if rest = [] then
        (H.setBlock page ⟨rest, (H.block page).used + 1, (H.block page).type⟩).setAllocator type
          { H.allocators type with blocks := page :: (H.allocators type).blocks.erase page }
      else H.setBlock page ⟨rest, (H.block page).used + 1, (H.block page).type⟩) := by
  rw [allocSlot]
  simp only [last, free]

/-- Only the order of the pages has changed. -/
structure Reordered (L : Layout) (H H' : Heap) : Prop where
  valid : H'.Valid L
  block : H'.block = H.block
  id : H'.id = H.id
  lock : H'.lock = H.lock
  owns : ∀ page, H'.Owns page ↔ H.Owns page

theorem Reordered.allocated {H' : Heap} (reordered : Reordered L H H') (a : Address) :
    H'.Allocated L a ↔ H.Allocated L a := by
  unfold Allocated
  rw [reordered.owns, reordered.block]

theorem Reordered.takes {H₁ H' : Heap} (reordered : Reordered L H H₁)
    (takes : Takes L type H₁ H' a) : Takes L type H H' a where
  valid := takes.valid
  unused := fun allocated => takes.unused ((reordered.allocated a).mpr allocated)
  allocated := fun b => by rw [takes.allocated b, reordered.allocated b]
  id := takes.id
  type := takes.type
  ids := fun b allocated => by
    rw [takes.ids b ((reordered.allocated b).mpr allocated), reordered.id]
  types := fun b allocated => by
    rw [takes.types b ((reordered.allocated b).mpr allocated), reordered.block]

/-- A slot of the last page is taken, or the pages are put into another order. -/
theorem allocSlot_cases (valid : H.Valid L) (type : ℕ) :
    (∃ a H', H.allocSlot type = (some a, H') ∧ Takes L type H H' a ∧
      ∀ page, H'.Owns page ↔ H.Owns page) ∨
    (∃ H', H.allocSlot type = (none, H') ∧ Reordered L H H') := by
  cases last : (H.allocators type).blocks.getLast? with
  | none => exact .inr ⟨H, allocSlot_none last, valid, rfl, rfl, rfl, fun _ => Iff.rfl⟩
  | some page =>
      have inside := List.mem_of_getLast? last
      have moved := perm_moveFirst inside
      cases free : (H.block page).freeNodes with
      | nil =>
          exact .inr ⟨_, allocSlot_full last free, valid.reorder moved (List.Perm.refl _), rfl, rfl,
            rfl, owns_reorder moved⟩
      | cons slot rest =>
          have takes := takes_setBlock valid inside free
          set block : Block := ⟨rest, (H.block page).used + 1, (H.block page).type⟩ with hblock
          have owned : ∀ other, (H.setBlock page block).Owns other ↔ H.Owns other :=
            owns_setBlock rfl
          refine .inl ⟨_, _, allocSlot_free last free, ?_⟩
          by_cases full : rest = []
          · rw [if_pos full]
            exact ⟨takes.reorder moved (List.Perm.refl _), fun other =>
              (owns_reorder moved other).trans (owned other)⟩
          · rw [if_neg full]
            exact ⟨takes, owned⟩

theorem block_allocPage_self (L : Layout) (type page : ℕ) (H : Heap) :
    (H.allocPage L type page).2.block page =
      ⟨(List.range (L.nodesPerBlock type - 1)).reverse, 1, type⟩ := Function.update_self ..

theorem block_allocPage_of_ne {other : ℕ} (there : other ≠ page) :
    (H.allocPage L type page).2.block other = H.block other := Function.update_of_ne there ..

theorem allocators_allocPage (L : Layout) (type page : ℕ) (H : Heap) :
    (H.allocPage L type page).2.allocators = Function.update H.allocators type
      ⟨(H.allocators type).blocks ++ [page], (H.allocators type).dumpBlocks ++ [page],
        (H.allocators type).dumpPtr⟩ := rfl

theorem blocks_allocPage (L : Layout) (type page : ℕ) (H : Heap) (other : ℕ) :
    ((H.allocPage L type page).2.allocators other).blocks =
      (H.allocators other).blocks ++ if other = type then [page] else [] := by
  rw [allocators_allocPage]
  by_cases here : other = type
  · subst here
    rw [if_pos rfl, Function.update_self]
  · rw [if_neg here, List.append_nil, Function.update_of_ne here]

theorem dumpBlocks_allocPage (L : Layout) (type page : ℕ) (H : Heap) (other : ℕ) :
    ((H.allocPage L type page).2.allocators other).dumpBlocks =
      (H.allocators other).dumpBlocks ++ if other = type then [page] else [] := by
  rw [allocators_allocPage]
  by_cases here : other = type
  · subst here
    rw [if_pos rfl, Function.update_self]
  · rw [if_neg here, List.append_nil, Function.update_of_ne here]

/-- A new page belongs to its allocator. -/
theorem owns_allocPage (other : ℕ) :
    (H.allocPage L type page).2.Owns other ↔ other = page ∨ H.Owns other := by
  unfold Owns
  rw [blocks_allocPage]
  by_cases here : other = page
  · subst here
    simp [block_allocPage_self]
  · rw [block_allocPage_of_ne here, List.mem_append]
    split <;> simp [here]

theorem valid_allocPage (valid : H.Valid L) (fresh : ¬ H.Owns page) :
    (H.allocPage L type page).2.Valid L := by
  have absent (other : ℕ) : page ∉ (H.allocators other).blocks :=
    fun inside => fresh (valid.owns inside)
  have split (other place : ℕ) (h : place ∈ ((H.allocPage L type page).2.allocators other).blocks) :
      place ∈ (H.allocators other).blocks ∧ place ≠ page ∨ place = page ∧ other = type := by
    rw [blocks_allocPage, List.mem_append] at h
    rcases h with old | new
    · exact .inl ⟨old, fun same => absent other (same ▸ old)⟩
    · by_cases here : other = type
      · rw [if_pos here] at new
        exact .inr ⟨List.mem_singleton.mp new, here⟩
      · rw [if_neg here] at new
        cases new
  refine ⟨fun other => ?_, fun other => ?_, fun other place h => ?_, fun other place h => ?_,
    fun other place h slot inside => ?_⟩
  · rw [blocks_allocPage, dumpBlocks_allocPage]
    exact (valid.same other).append_right _
  · rw [blocks_allocPage]
    split
    · exact List.Nodup.append (valid.nodup other) (List.nodup_singleton page)
        (List.disjoint_singleton.mpr (absent other))
    · rw [List.append_nil]
      exact valid.nodup other
  · rcases split other place h with ⟨old, there⟩ | ⟨rfl, rfl⟩
    · rw [block_allocPage_of_ne there]
      exact valid.typed other place old
    · rw [block_allocPage_self]
  · rcases split other place h with ⟨old, there⟩ | ⟨rfl, rfl⟩
    · rw [block_allocPage_of_ne there]
      exact valid.filled other place old
    · rw [block_allocPage_self]
      have room := L.positive other
      refine ⟨List.nodup_reverse.mpr List.nodup_range, fun slot inside => ?_, ?_, Nat.one_pos⟩
      · have small := List.mem_range.mp (List.mem_reverse.mp inside)
        omega
      · rw [List.length_reverse, List.length_range]
        show 1 + (L.nodesPerBlock other - 1) = L.nodesPerBlock other
        omega
  · show (if place = page ∧ slot < L.nodesPerBlock type then 0 else H.id ⟨place, slot⟩) = 0
    rcases split other place h with ⟨old, there⟩ | ⟨rfl, rfl⟩
    · rw [block_allocPage_of_ne there] at inside
      rw [if_neg fun h => there h.1]
      exact valid.idle other place old slot inside
    · rw [block_allocPage_self] at inside
      have small := List.mem_range.mp (List.mem_reverse.mp inside)
      rw [if_pos ⟨rfl, by omega⟩]

/-- The last slot of a new page is taken. -/
theorem takes_allocPage (valid : H.Valid L) (fresh : ¬ H.Owns page) :
    Takes L type H (H.allocPage L type page).2 (H.allocPage L type page).1 := by
  have room := L.positive type
  have there (b : Address) (h : H.Allocated L b) : b.page ≠ page :=
    fun same => fresh (same ▸ h.1)
  refine ⟨valid_allocPage valid fresh, fun h => there _ h rfl, fun b => ?_, ?_, ?_,
    fun b h => ?_, fun b h => ?_⟩
  · unfold Allocated
    rw [owns_allocPage]
    by_cases here : b.page = page
    · obtain ⟨place, slot⟩ := b
      obtain rfl : place = page := here
      rw [block_allocPage_self]
      simp only [true_and, List.mem_reverse, List.mem_range, allocPage,
        Address.mk.injEq, fresh, false_and, or_false]
      omega
    · have other : b ≠ (H.allocPage L type page).1 := fun same => here (congrArg Address.page same)
      rw [block_allocPage_of_ne here]
      simp [here, other]
  · exact if_pos ⟨rfl, by show L.nodesPerBlock type - 1 < _; omega⟩
  · show ((H.allocPage L type page).2.block page).type = type
    rw [block_allocPage_self]
  · exact if_neg fun same => there b h same.1
  · rw [block_allocPage_of_ne (there b h)]

/-! ## Freeing a slot -/

/-- A slot is not in use any more, and nothing else has changed. -/
structure Frees (L : Layout) (H H' : Heap) (a : Address) : Prop where
  valid : H'.Valid L
  allocated : ∀ b, H'.Allocated L b ↔ b ≠ a ∧ H.Allocated L b
  id : H'.id = Function.update H.id a 0
  lock : H'.lock = H.lock
  types : ∀ page, (H'.block page).type = (H.block page).type

theorem Valid.setId (valid : H.Valid L) (a : Address) : (H.setId a 0).Valid L := by
  refine ⟨valid.same, valid.nodup, valid.typed, valid.filled, fun type page h slot free => ?_⟩
  show Function.update H.id a 0 ⟨page, slot⟩ = 0
  by_cases here : (⟨page, slot⟩ : Address) = a
  · rw [here, Function.update_self]
  · rw [Function.update_of_ne here]
    exact valid.idle type page h slot free

/-- A page with one slot in use has no other one. -/
theorem eq_of_last (valid : H.Valid L) (allocated : H.Allocated L a)
    (last : (H.block a.page).used - 1 = 0) (other : H.Allocated L b) (same : b.page = a.page) :
    b = a := by
  obtain ⟨owned, small, taken⟩ := allocated
  obtain ⟨-, small', taken'⟩ := other
  rw [same] at small' taken'
  obtain ⟨nodup, inside, count, positive⟩ := valid.filled_of_owns owned
  by_contra different
  have apart : b.slot ≠ a.slot := by
    intro slots
    cases a
    cases b
    exact different (Address.mk.injEq .. ▸ ⟨same, slots⟩)
  have all : (b.slot :: a.slot :: (H.block a.page).freeNodes).Nodup := by
    simp [nodup, taken, taken', apart]
  have below : (b.slot :: a.slot :: (H.block a.page).freeNodes).toFinset ⊆
      Finset.range (L.nodesPerBlock (H.block a.page).type) := by
    intro slot member
    rw [Finset.mem_range]
    rcases List.mem_cons.mp (List.mem_toFinset.mp member) with rfl | member
    · exact small'
    · rcases List.mem_cons.mp member with rfl | member
      · exact small
      · exact inside slot member
  have bound := Finset.card_le_card below
  rw [List.toFinset_card_of_nodup all, Finset.card_range, List.length_cons, List.length_cons]
    at bound
  omega

/-- The last slot in use of a page is freed, and with it the page. -/
theorem frees_page (valid : H.Valid L) (allocated : H.Allocated L a)
    (last : (H.block a.page).used - 1 = 0) {A : NodeAllocator}
    (blocks : A.blocks = (H.allocators (H.block a.page).type).blocks.erase a.page)
    (dumpBlocks : A.dumpBlocks = (H.allocators (H.block a.page).type).dumpBlocks.erase a.page) :
    Frees L H ((H.setId a 0).setAllocator (H.block a.page).type A) a ∧
      ∀ page, ((H.setId a 0).setAllocator (H.block a.page).type A).Owns page ↔
        page ≠ a.page ∧ H.Owns page := by
  set type := (H.block a.page).type with htype
  have cleared := valid.setId a
  have inside (other page : ℕ)
      (h : page ∈ (((H.setId a 0).setAllocator type A).allocators other).blocks) :
      page ∈ ((H.setId a 0).allocators other).blocks := by
    by_cases here : other = type
    · subst here
      rw [allocators_setAllocator_self, blocks] at h
      exact List.mem_of_mem_erase h
    · rwa [allocators_setAllocator_of_ne here] at h
  have owns (page : ℕ) : ((H.setId a 0).setAllocator type A).Owns page ↔
      page ≠ a.page ∧ H.Owns page := by
    show page ∈ (((H.setId a 0).setAllocator type A).allocators (H.block page).type).blocks ↔
      page ≠ a.page ∧ page ∈ (H.allocators (H.block page).type).blocks
    by_cases here : (H.block page).type = type
    · rw [here, allocators_setAllocator_self, blocks, (valid.nodup type).mem_erase_iff]
    · rw [allocators_setAllocator_of_ne here]
      have there : page ≠ a.page := fun same => here (by rw [same])
      exact (and_iff_right there).symm
  refine ⟨⟨⟨fun other => ?_, fun other => ?_,
    fun other page h => cleared.typed other page (inside _ _ h),
    fun other page h => cleared.filled other page (inside _ _ h),
    fun other page h => cleared.idle other page (inside _ _ h)⟩, fun b => ?_, rfl, rfl,
    fun _ => rfl⟩, owns⟩
  · by_cases here : other = type
    · subst here
      rw [allocators_setAllocator_self, blocks, dumpBlocks]
      exact (valid.same type).erase a.page
    · rw [allocators_setAllocator_of_ne here]
      exact valid.same other
  · by_cases here : other = type
    · subst here
      rw [allocators_setAllocator_self, blocks]
      exact (valid.nodup type).erase a.page
    · rw [allocators_setAllocator_of_ne here]
      exact valid.nodup other
  · have unfolded : ((H.setId a 0).setAllocator type A).Allocated L b ↔
        b.page ≠ a.page ∧ H.Allocated L b := by
      unfold Allocated
      rw [owns, and_assoc]
      exact Iff.rfl
    rw [unfolded]
    refine ⟨fun h => ⟨fun same => h.1 (congrArg Address.page same), h.2⟩, fun h => ⟨?_, h.2⟩⟩
    exact fun same => h.1 (eq_of_last valid allocated last h.2 same)

/-- A slot is put on the list of free slots of its page. -/
theorem frees_setBlock (valid : H.Valid L) (allocated : H.Allocated L a)
    (more : (H.block a.page).used - 1 ≠ 0) :
    Frees L H ((H.setId a 0).setBlock a.page
      ⟨a.slot :: (H.block a.page).freeNodes, (H.block a.page).used - 1,
        (H.block a.page).type⟩) a := by
  obtain ⟨owned, small, taken⟩ := allocated
  obtain ⟨nodup, inside, count, positive⟩ := valid.filled_of_owns owned
  set block : Block := ⟨a.slot :: (H.block a.page).freeNodes, (H.block a.page).used - 1,
    (H.block a.page).type⟩ with hblock
  have same : block.type = ((H.setId a 0).block a.page).type := rfl
  refine ⟨(valid.setId a).setBlock same ⟨?_, fun slot member => ?_, ?_, ?_⟩
    fun slot member => ?_, fun b => ?_, rfl, rfl, fun page => ?_⟩
  · exact List.nodup_cons.mpr ⟨taken, nodup⟩
  · rcases List.mem_cons.mp member with rfl | member
    · exact small
    · exact inside slot member
  · show (H.block a.page).used - 1 + (a.slot :: (H.block a.page).freeNodes).length =
      L.nodesPerBlock (H.block a.page).type
    rw [List.length_cons]
    omega
  · exact Nat.pos_of_ne_zero more
  · show Function.update H.id a 0 ⟨a.page, slot⟩ = 0
    rcases List.mem_cons.mp member with rfl | member
    · exact Function.update_self ..
    · rw [Function.update_of_ne fun h => taken (by rw [← h]; exact member)]
      exact valid.idle _ _ owned slot member
  · rw [allocated_setBlock same]
    by_cases here : b.page = a.page
    · rw [if_pos here]
      obtain ⟨page, slot⟩ := b
      obtain rfl : page = a.page := here
      have split : (⟨a.page, slot⟩ : Address) ≠ a ↔ slot ≠ a.slot := by
        cases a
        simp
      rw [split, hblock, List.mem_cons, not_or]
      exact ⟨fun ⟨owned, small, apart, out⟩ => ⟨apart, owned, small, out⟩,
        fun ⟨apart, owned, small, out⟩ => ⟨owned, small, apart, out⟩⟩
    · rw [if_neg here]
      exact ⟨fun h => ⟨fun other => here (congrArg Address.page other), h⟩, fun h => h.2⟩
  · by_cases here : page = a.page
    · subst here
      rw [block_setBlock_self]
    · rw [block_setBlock_of_ne here]
      rfl

theorem Frees.reorder {H' : Heap} (frees : Frees L H H' a) {other : ℕ} {A : NodeAllocator}
    (blocks : A.blocks.Perm (H'.allocators other).blocks)
    (dumpBlocks : A.dumpBlocks.Perm (H'.allocators other).dumpBlocks) :
    Frees L H (H'.setAllocator other A) a where
  valid := frees.valid.reorder blocks dumpBlocks
  allocated := fun b => (allocated_reorder blocks b).trans (frees.allocated b)
  id := frees.id
  lock := frees.lock
  types := frees.types

/-- Freeing a slot in use; its page goes if no other slot of it is in use. -/
theorem frees_freeSlot (valid : H.Valid L) (allocated : H.Allocated L a) :
    Frees L H (H.freeSlot L a).2 a ∧
      ∀ page, (H.freeSlot L a).2.Owns page ↔
        ((H.freeSlot L a).1 = true → page ≠ a.page) ∧ H.Owns page := by
  have owned := allocated.1
  unfold freeSlot
  simp only
  set A : NodeAllocator := if ((H.setId a 0).allocators (H.block a.page).type).dumpPtr = some a
    then { (H.setId a 0).allocators (H.block a.page).type with
      dumpPtr := (H.setId a 0).dumpNext L (H.block a.page).type a }
    else (H.setId a 0).allocators (H.block a.page).type with hA
  have blocks : A.blocks = (H.allocators (H.block a.page).type).blocks := by
    rw [hA]
    split <;> rfl
  have dumpBlocks : A.dumpBlocks = (H.allocators (H.block a.page).type).dumpBlocks := by
    rw [hA]
    split <;> rfl
  by_cases last : (H.block a.page).used - 1 = 0
  · rw [if_pos last]
    set B : NodeAllocator := { A with
      blocks := A.blocks.erase a.page, dumpBlocks := A.dumpBlocks.erase a.page } with hB
    have erased : B.blocks = (H.allocators (H.block a.page).type).blocks.erase a.page := by
      rw [hB, ← blocks]
    have erasedDump :
        B.dumpBlocks = (H.allocators (H.block a.page).type).dumpBlocks.erase a.page := by
      rw [hB, ← dumpBlocks]
    obtain ⟨frees, owns⟩ := frees_page valid allocated last erased erasedDump
    exact ⟨frees, fun page => (owns page).trans (and_congr_left fun _ => by simp)⟩
  · rw [if_neg last]
    have frees := frees_setBlock valid allocated last
    set block : Block := ⟨a.slot :: (H.block a.page).freeNodes, (H.block a.page).used - 1,
      (H.block a.page).type⟩ with hblock
    set B : NodeAllocator := if (H.block a.page).freeNodes = [] then
      { A with blocks := A.blocks.erase a.page ++ [a.page] } else A with hB
    have moved : B.blocks.Perm (H.allocators (H.block a.page).type).blocks := by
      rw [hB, ← blocks]
      split
      · rw [blocks]
        exact perm_moveLast owned
      · exact List.Perm.refl _
    have kept : B.dumpBlocks = (H.allocators (H.block a.page).type).dumpBlocks := by
      rw [hB, ← dumpBlocks]
      split <;> rfl
    have sameBlock : block.type = ((H.setId a 0).block a.page).type := rfl
    refine ⟨frees.reorder moved (kept ▸ List.Perm.refl _), fun page => ?_⟩
    simp only [Bool.false_eq_true, false_implies, true_and]
    have moved' : B.blocks.Perm
        (((H.setId a 0).setBlock a.page block).allocators (H.block a.page).type).blocks := moved
    exact (owns_reorder moved' page).trans (owns_setBlock sameBlock page)

end Heap

end HybridDatabase.Allocator
