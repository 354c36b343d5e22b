/-
# The order of the pages

The allocator looks at the last page of its list only: the full pages stand before all the
others, so that there is no free slot where the last page is full.
-/

import HybridDatabase.Allocator.Slots

namespace HybridDatabase.Allocator

open HybridDatabase.Base

namespace Heap

variable {L : Layout} {H : Heap} {a : Address} {type page : ℕ}

/-- The page has no free slot. -/
def Full (H : Heap) (page : ℕ) : Prop := (H.block page).freeNodes = []

/-- A page that stands before a full one is full. -/
def Ordered (type : ℕ) (H : Heap) : Prop :=
  (H.allocators type).blocks.Pairwise fun p q => H.Full q → H.Full p

theorem pairwise_congr {H' : Heap} {pages : List ℕ}
    (ordered : pages.Pairwise fun p q => H.Full q → H.Full p)
    (same : ∀ p ∈ pages, H'.block p = H.block p) :
    pages.Pairwise fun p q => H'.Full q → H'.Full p := by
  refine ordered.imp_of_mem fun first second order => ?_
  unfold Full
  rwa [same _ first, same _ second]

theorem erase_last {front : List ℕ} (nodup : (front ++ [page]).Nodup) :
    (front ++ [page]).erase page = front := by
  have out : page ∉ front := fun inside =>
    (List.nodup_append.mp nodup).2.2 page inside page (List.mem_singleton_self page) rfl
  rw [List.erase_append_right _ out, List.erase_cons_head, List.append_nil]

/-- A slot is taken, or every page is full. -/
theorem ordered_allocSlot (valid : H.Valid L) (ordered : H.Ordered type) :
    (H.allocSlot type).2.Ordered type ∧
      ((H.allocSlot type).1 = none → ∀ p ∈ (H.allocators type).blocks, H.Full p) := by
  obtain empty | ⟨front, page, split⟩ := List.eq_nil_or_concat' (H.allocators type).blocks
  · rw [allocSlot_none (by rw [empty]; rfl)]
    refine ⟨ordered, fun _ p inside => ?_⟩
    rw [empty] at inside
    cases inside
  · have last : (H.allocators type).blocks.getLast? = some page := by
      rw [split, List.getLast?_concat]
    have nodup := valid.nodup type
    rw [split] at nodup
    have erased : (H.allocators type).blocks.erase page = front := by
      rw [split]
      exact erase_last nodup
    have apart : ∀ p ∈ front, p ≠ page := fun p inside =>
      (List.nodup_append.mp nodup).2.2 p inside page (List.mem_singleton_self page)
    unfold Ordered at ordered
    rw [split, List.pairwise_append] at ordered
    obtain ⟨first, -, order⟩ := ordered
    cases free : (H.block page).freeNodes with
    | nil =>
        rw [allocSlot_full last free]
        refine ⟨?_, fun _ p inside => ?_⟩
        · unfold Ordered
          rw [allocators_setAllocator_self, erased]
          exact List.pairwise_cons.mpr ⟨fun _ _ _ => free, first⟩
        · rw [split] at inside
          rcases List.mem_append.mp inside with inside | inside
          · exact order p inside page (List.mem_singleton_self page) free
          · rw [List.mem_singleton.mp inside]
            exact free
    | cons slot rest =>
        rw [allocSlot_free last free]
        refine ⟨?_, fun wrong => (nomatch wrong)⟩
        set block : Block := ⟨rest, (H.block page).used + 1, (H.block page).type⟩ with hblock
        have others : front.Pairwise fun p q =>
            (H.setBlock page block).Full q → (H.setBlock page block).Full p :=
          pairwise_congr first fun p inside => block_setBlock_of_ne (apart p inside) block
        have here : (H.setBlock page block).Full page ↔ rest = [] := by
          unfold Full
          rw [block_setBlock_self]
        by_cases full : rest = []
        · rw [if_pos full]
          unfold Ordered
          rw [allocators_setAllocator_self, erased]
          exact List.pairwise_cons.mpr ⟨fun _ _ _ => here.mpr full, others⟩
        · rw [if_neg full]
          show (H.allocators type).blocks.Pairwise fun p q =>
            (H.setBlock page block).Full q → (H.setBlock page block).Full p
          rw [split]
          refine List.pairwise_append.mpr ⟨others, List.pairwise_singleton _ _, ?_⟩
          intro p _ q last fullLast
          rw [List.mem_singleton.mp last] at fullLast
          exact absurd (here.mp fullLast) full

/-- A new page has free slots, or the pages have one slot and are all full. -/
theorem ordered_allocPage (valid : H.Valid L) (ordered : H.Ordered type)
    (fresh : page ∉ (H.allocators type).blocks) : (H.allocPage L type page).2.Ordered type := by
  have there (p : ℕ) (inside : p ∈ (H.allocators type).blocks) :
      (H.allocPage L type page).2.block p = H.block p :=
    block_allocPage_of_ne fun same => fresh (same ▸ inside)
  unfold Ordered
  rw [blocks_allocPage, if_pos rfl]
  refine List.pairwise_append.mpr ⟨pairwise_congr ordered there, List.pairwise_singleton _ _, ?_⟩
  intro p inside q last full
  rw [List.mem_singleton.mp last] at full
  unfold Full at full ⊢
  rw [block_allocPage_self] at full
  have slots := congrArg List.length full
  rw [List.length_reverse, List.length_range, List.length_nil] at slots
  have filled := valid.filled type p inside
  have count := filled.count
  have positive := filled.positive
  rw [there p inside]
  exact List.eq_nil_of_length_eq_zero (by omega)

/-- The header of a page that is not in the list changes. -/
theorem ordered_setBlock {block : Block} (ordered : H.Ordered type)
    (out : page ∉ (H.allocators type).blocks) : (H.setBlock page block).Ordered type :=
  pairwise_congr ordered fun p inside =>
    block_setBlock_of_ne (fun same : p = page => out (same ▸ inside)) block

/-- A page that becomes free in part goes to the end, or was not full. -/
theorem ordered_freeSlot (valid : H.Valid L) (ordered : H.Ordered (H.block a.page).type) :
    (H.freeSlot L a).2.Ordered (H.block a.page).type := by
  unfold freeSlot
  simp only
  set type := (H.block a.page).type with htype
  set A : NodeAllocator := if ((H.setId a 0).allocators type).dumpPtr = some a
    then { (H.setId a 0).allocators type with dumpPtr := (H.setId a 0).dumpNext L type a }
    else (H.setId a 0).allocators type with hA
  have blocks : A.blocks = (H.allocators type).blocks := by
    rw [hA]
    split <;> rfl
  by_cases last : (H.block a.page).used - 1 = 0
  · rw [if_pos last]
    unfold Ordered
    rw [allocators_setAllocator_self]
    show (A.blocks.erase a.page).Pairwise fun p q => H.Full q → H.Full p
    rw [blocks]
    exact ordered.sublist List.erase_sublist
  · rw [if_neg last]
    set block : Block := ⟨a.slot :: (H.block a.page).freeNodes, (H.block a.page).used - 1, type⟩
      with hblock
    have here : ¬(H.setBlock a.page block).Full a.page := by
      unfold Full
      rw [block_setBlock_self]
      exact List.cons_ne_nil _ _
    have there (p : ℕ) (other : p ≠ a.page) : (H.setBlock a.page block).block p = H.block p :=
      block_setBlock_of_ne other block
    by_cases full : (H.block a.page).freeNodes = []
    · rw [if_pos full]
      show (List.Pairwise _ ((Function.update (H.allocators) type _) type).blocks)
      rw [Function.update_self]
      show (A.blocks.erase a.page ++ [a.page]).Pairwise fun p q =>
        (H.setBlock a.page block).Full q → (H.setBlock a.page block).Full p
      rw [blocks]
      refine List.pairwise_append.mpr ⟨?_, List.pairwise_singleton _ _, ?_⟩
      · refine pairwise_congr (ordered.sublist List.erase_sublist) fun p inside => ?_
        exact there p ((valid.nodup type).mem_erase_iff.mp inside).1
      · intro p _ q last fullLast
        rw [List.mem_singleton.mp last] at fullLast
        exact absurd fullLast here
    · rw [if_neg full]
      show (List.Pairwise _ ((Function.update (H.allocators) type _) type).blocks)
      rw [Function.update_self]
      show A.blocks.Pairwise fun p q =>
        (H.setBlock a.page block).Full q → (H.setBlock a.page block).Full p
      rw [blocks]
      refine ordered.imp fun {p q} order fullLast => ?_
      have other : q ≠ a.page := fun same => here (same ▸ fullLast)
      have fullFirst : H.Full p := order (by unfold Full; rwa [← there q other])
      have first : p ≠ a.page := fun same => full (same ▸ fullFirst)
      unfold Full
      rw [there p first]
      exact fullFirst

end Heap

end HybridDatabase.Allocator
