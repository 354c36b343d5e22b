/-
# What an allocator has handed out

The slots that are handed out and the pages that are held, beside the allocator with its linked
lists.  Each operation changes them as it should.
-/

import HybridDatabase.Allocator.Linked

namespace HybridDatabase.Allocator.LinkedAllocator

open HybridDatabase.Base
open HybridDatabase.Utils

/-- The slots in use are `allocated`, and the pages of both lists are `held`. -/
structure Handed (L : Layout) (type : ℕ) (A : LinkedAllocator) (blocks dumpBlocks : List ℕ)
    (allocated : List Address) (held : List ℕ) : Prop where
  lists : A.Lists blocks dumpBlocks
  valid : (A.view type blocks dumpBlocks).Valid L
  pages : blocks.Perm held
  nodup : allocated.Nodup
  ordered : (A.view type blocks dumpBlocks).Ordered type
  slots : ∀ a, a ∈ allocated ↔ (A.view type blocks dumpBlocks).Allocated L a

variable {L : Layout} {type page : ℕ} {A : LinkedAllocator} {blocks dumpBlocks held : List ℕ}
  {allocated : List Address} {a : Address}

theorem handed_init (L : Layout) (type : ℕ) (A : LinkedAllocator) :
    Handed L type A.init [] [] [] [] := by
  have none (other : ℕ) : (A.init.view type [] []).allocators other = ⟨[], [], none⟩ := by
    by_cases here : other = type
    · subst here
      exact view_allocators ..
    · exact Function.update_of_ne here ..
  have empty (other page : ℕ) : page ∉ ((A.init.view type [] []).allocators other).blocks := by
    rw [none]
    exact List.not_mem_nil
  refine ⟨lists_init A, ⟨fun other => ?_, fun other => ?_, fun other page inside => ?_,
    fun other page inside => ?_, fun other page inside => ?_⟩, List.Perm.refl _, List.nodup_nil,
    ?_, fun a => ⟨fun inside => (nomatch inside), fun used => ?_⟩⟩
  · rw [none]
  · rw [none]
    exact List.nodup_nil
  · exact absurd inside (empty other page)
  · exact absurd inside (empty other page)
  · exact absurd inside (empty other page)
  · unfold Heap.Ordered
    rw [none]
    exact List.Pairwise.nil
  · exact absurd used.1 (empty _ _)

namespace Handed

variable (handed : Handed L type A blocks dumpBlocks allocated held)

include handed

theorem dumpPages : dumpBlocks.Perm held := by
  have same := handed.valid.same type
  rw [view_allocators] at same
  exact same.symm.trans handed.pages

theorem nodup_held : held.Nodup := handed.pages.nodup_iff.mp handed.lists.nodup

/-- A page that is owned is a page of this type. -/
theorem typed_of_owns (owned : (A.view type blocks dumpBlocks).Owns page) :
    (A.block page).type = type ∧ page ∈ held := by
  unfold Heap.Owns at owned
  by_cases here : (A.block page).type = type
  · rw [show ((A.view type blocks dumpBlocks).block page).type = type from here,
      view_allocators] at owned
    exact ⟨here, handed.pages.mem_iff.mp owned⟩
  · have none : (A.view type blocks dumpBlocks).allocators (A.block page).type =
        ⟨[], [], none⟩ := Function.update_of_ne here ..
    rw [show ((A.view type blocks dumpBlocks).block page).type = (A.block page).type from rfl,
      none] at owned
    cases owned

/-- A slot that is handed out is a slot of a held page. -/
theorem inside (among : a ∈ allocated) :
    (A.block a.page).type = type ∧ a.page ∈ held ∧ a.slot < L.nodesPerBlock type := by
  have used := (handed.slots a).mp among
  obtain ⟨typed, inside⟩ := handed.typed_of_owns used.1
  have small := used.2.1
  rw [show ((A.view type blocks dumpBlocks).block a.page).type = type from typed] at small
  exact ⟨typed, inside, small⟩

theorem mem_blocks (inside : page ∈ held) :
    page ∈ ((A.view type blocks dumpBlocks).allocators type).blocks := by
  rw [view_allocators]
  exact handed.pages.mem_iff.mpr inside

theorem filled (inside : page ∈ held) :
    (A.block page).type = type ∧ (A.block page).Filled (L.nodesPerBlock type) := by
  have among := handed.mem_blocks inside
  exact ⟨handed.valid.typed type page among, handed.valid.filled type page among⟩

/-- The slots of a held page that are not handed out are the free ones. -/
theorem mem_freeNodes (inside : page ∈ held) (slot : ℕ) :
    slot ∈ (A.block page).freeNodes ↔
      slot < L.nodesPerBlock type ∧ (⟨page, slot⟩ : Address) ∉ allocated := by
  obtain ⟨typed, filled⟩ := handed.filled inside
  rw [handed.slots]
  have owned := handed.valid.owns (handed.mem_blocks inside)
  have bound : ((A.view type blocks dumpBlocks).block page).type = type := typed
  constructor
  · exact fun free => ⟨filled.inside slot free, fun used => used.2.2 free⟩
  · rintro ⟨small, unused⟩
    by_contra taken
    exact unused ⟨owned, by rw [bound]; exact small, taken⟩

/-- A node whose `id` is not zero is handed out. -/
theorem mem_of_id (insidePage : a.page ∈ held) (small : a.slot < L.nodesPerBlock type)
    (id : A.id a ≠ 0) : a ∈ allocated := by
  by_contra unused
  have free := (handed.mem_freeNodes insidePage a.slot).mpr ⟨small, unused⟩
  exact id (handed.valid.idle type a.page (handed.mem_blocks insidePage) a.slot free)

/-- The slots of a held page that are handed out are counted. -/
theorem used_eq (inside : page ∈ held) :
    (A.block page).used = (allocated.filter fun a => a.page = page).length := by
  obtain ⟨-, filled⟩ := handed.filled inside
  have slots : (((allocated.filter fun a => a.page = page).map Address.slot) ++
      (A.block page).freeNodes).Perm (List.range (L.nodesPerBlock type)) := by
    refine (List.perm_ext_iff_of_nodup ?_ List.nodup_range).mpr fun slot => ?_
    · refine List.Nodup.append ?_ filled.nodup fun slot taken free => ?_
      · apply (List.nodup_map_iff_inj_on (handed.nodup.filter _)).mpr
        rintro ⟨p, i⟩ first ⟨q, j⟩ second rfl
        have left := of_decide_eq_true (List.mem_filter.mp first).2
        have right := of_decide_eq_true (List.mem_filter.mp second).2
        exact congrArg₂ Address.mk (left.trans right.symm) rfl
      · obtain ⟨⟨p, i⟩, among, rfl⟩ := List.mem_map.mp taken
        obtain ⟨used, same⟩ := List.mem_filter.mp among
        obtain rfl : p = page := of_decide_eq_true same
        exact ((handed.mem_freeNodes inside i).mp free).2 used
    · rw [List.mem_append, handed.mem_freeNodes inside, List.mem_range]
      constructor
      · rintro (taken | free)
        · obtain ⟨⟨p, i⟩, among, rfl⟩ := List.mem_map.mp taken
          exact (handed.inside (List.mem_filter.mp among).1).2.2
        · exact free.1
      · intro small
        by_cases used : (⟨page, slot⟩ : Address) ∈ allocated
        · refine .inl (List.mem_map.mpr ⟨⟨page, slot⟩, List.mem_filter.mpr ⟨used, ?_⟩, rfl⟩)
          exact decide_eq_true rfl
        · exact .inr ⟨small, used⟩
  have lengths := slots.length_eq
  rw [List.length_append, List.length_map, List.length_range] at lengths
  have count := filled.count
  omega

/-- A page with one slot in use has no other one. -/
theorem alone {b : Address} (among : a ∈ allocated) (other : b ∈ allocated)
    (same : b.page = a.page) (last : (A.block a.page).used = 1) : b = a := by
  have first : (A.block a.page).used - 1 = 0 := by omega
  exact Heap.eq_of_last handed.valid ((handed.slots a).mp among) first ((handed.slots b).mp other)
    same

/-! ## The operations -/

theorem setId {id : ℕ} (among : a ∈ allocated ∨ id = 0) :
    Handed L type (A.setId a id) blocks dumpBlocks allocated held := by
  refine ⟨⟨handed.lists.blocks, handed.lists.dumpBlocks⟩, ⟨handed.valid.same, handed.valid.nodup, handed.valid.typed,
    handed.valid.filled, fun other page inside slot free => ?_⟩, handed.pages, handed.nodup,
    handed.ordered, handed.slots⟩
  have idle := handed.valid.idle other page inside slot free
  by_cases here : (⟨page, slot⟩ : Address) = a
  · subst here
    cases among with
    | inl used =>
        have used := (handed.slots _).mp used
        exact absurd free used.2.2
    | inr zero =>
        rw [zero]
        exact Function.update_self ..
  · exact (Function.update_of_ne here ..).trans idle

/-- The cursor moves. -/
theorem moveCursor (pointer : Option Address) :
    Handed L type { A with dumpPtr := pointer } blocks dumpBlocks allocated held := by
  have view : ({ A with dumpPtr := pointer } : LinkedAllocator).view type blocks dumpBlocks =
      (A.view type blocks dumpBlocks).setAllocator type ⟨blocks, dumpBlocks, pointer⟩ := by
    rw [setAllocator_view]
    rfl
  have samePages : (⟨blocks, dumpBlocks, pointer⟩ : NodeAllocator).blocks.Perm
      ((A.view type blocks dumpBlocks).allocators type).blocks := by
    rw [view_allocators]
  have sameDump : (⟨blocks, dumpBlocks, pointer⟩ : NodeAllocator).dumpBlocks.Perm
      ((A.view type blocks dumpBlocks).allocators type).dumpBlocks := by
    rw [view_allocators]
  refine ⟨⟨handed.lists.blocks, handed.lists.dumpBlocks⟩, ?_, handed.pages, handed.nodup, ?_,
    fun b => ?_⟩
  · rw [view]
    exact handed.valid.reorder samePages sameDump
  · have ordered := handed.ordered
    unfold Heap.Ordered at ordered ⊢
    rw [view_allocators] at ordered ⊢
    exact ordered
  · rw [view, Heap.allocated_reorder samePages]
    exact handed.slots b

/-- The pages of another state whose pages to walk through are the same. -/
theorem perm_of_valid {B : LinkedAllocator} {blocks' : List ℕ}
    (valid : (B.view type blocks' dumpBlocks).Valid L) : blocks'.Perm held := by
  have perm := valid.same type
  rw [view_allocators] at perm
  exact perm.trans handed.dumpPages

/-- A slot of the last page is handed out, or all pages are full. -/
theorem allocSlot : ∃ blocks',
    (∃ a, A.allocSlot.1 = some a ∧ a ∉ allocated ∧
      Handed L type A.allocSlot.2 blocks' dumpBlocks (a :: allocated) held) ∨
    (A.allocSlot.1 = none ∧ (∀ p ∈ held, (A.block p).freeNodes = []) ∧
      Handed L type A.allocSlot.2 blocks' dumpBlocks allocated held) := by
  obtain ⟨blocks', same, lists, view⟩ := @Lists.allocSlot A blocks dumpBlocks type handed.lists
  obtain ⟨ordered, full⟩ := Heap.ordered_allocSlot handed.valid handed.ordered
  rw [← view] at ordered
  refine ⟨blocks', ?_⟩
  rcases Heap.allocSlot_cases handed.valid type with ⟨a, H', done, takes, -⟩ | ⟨H', done, moved⟩
  · rw [done] at same view
    obtain rfl : A.allocSlot.2.view type blocks' dumpBlocks = H' := view
    have unused : a ∉ allocated := fun among => takes.unused ((handed.slots a).mp among)
    refine .inl ⟨a, same, unused, lists, takes.valid, handed.perm_of_valid takes.valid,
      List.nodup_cons.mpr ⟨unused, handed.nodup⟩, ordered, fun b => ?_⟩
    rw [List.mem_cons, handed.slots, takes.allocated]
  · rw [done] at same view full
    obtain rfl : A.allocSlot.2.view type blocks' dumpBlocks = H' := view
    refine .inr ⟨same, fun p inside => full rfl p (handed.mem_blocks inside), lists, moved.valid,
      handed.perm_of_valid moved.valid, handed.nodup, ordered, fun b => ?_⟩
    rw [handed.slots, moved.allocated]

/-- The last slot of a new page is handed out. -/
theorem allocPage (fresh : page ∉ held) :
    (⟨page, L.nodesPerBlock type - 1⟩ : Address) ∉ allocated ∧
      Handed L type (A.allocPage (L.nodesPerBlock type) type page).2 (blocks ++ [page])
        (dumpBlocks ++ [page]) (⟨page, L.nodesPerBlock type - 1⟩ :: allocated) (page :: held) := by
  have out : page ∉ blocks := fun inside => fresh (handed.pages.mem_iff.mp inside)
  have outDump : page ∉ dumpBlocks := fun inside => fresh (handed.dumpPages.mem_iff.mp inside)
  have notOwned : ¬(A.view type blocks dumpBlocks).Owns page := fun owned =>
    fresh (handed.typed_of_owns owned).2
  have outView : page ∉ ((A.view type blocks dumpBlocks).allocators type).blocks := by
    rwa [view_allocators]
  obtain ⟨lists, view⟩ := @Lists.allocPage L A blocks dumpBlocks type handed.lists page out outDump
  have takes := @Heap.takes_allocPage L _ type page handed.valid notOwned
  have ordered := Heap.ordered_allocPage handed.valid handed.ordered outView
  rw [← view] at takes ordered
  have unused : (⟨page, L.nodesPerBlock type - 1⟩ : Address) ∉ allocated :=
    fun among => takes.unused ((handed.slots _).mp among)
  refine ⟨unused, lists, takes.valid, ?_, List.nodup_cons.mpr ⟨unused, handed.nodup⟩, ordered,
    fun b => ?_⟩
  · exact (List.perm_append_singleton page blocks).trans (handed.pages.cons page)
  · rw [List.mem_cons, handed.slots, takes.allocated]
    exact Iff.rfl

/-- A slot is given back, whose `id` is zero already; its page goes with the last one. -/
theorem freeSlot {fuel : ℕ} (among : a ∈ allocated) (cleared : A.id a = 0)
    (enough : held.length * L.nodesPerBlock type < fuel) :
    ∃ freed A' blocks' dumpBlocks', A.freeSlot (L.nodesPerBlock type) fuel a = some (freed, A') ∧
      (freed = true ↔ (A.block a.page).used = 1) ∧
      dumpBlocks' = (if freed then dumpBlocks.erase a.page else dumpBlocks) ∧
      Handed L type A' blocks' dumpBlocks' (allocated.erase a)
        (if freed then held.erase a.page else held) ∧
      A'.dumpPtr = cursorAfter L type (A.view type blocks dumpBlocks) a ∧ A'.id = A.id := by
  have used := (handed.slots a).mp among
  obtain ⟨typed, inside, -⟩ := handed.inside among
  have positive := (handed.filled inside).2.positive
  obtain ⟨frees, owns⟩ := Heap.frees_freeSlot handed.valid used
  have order : (A.view type blocks dumpBlocks).Ordered
      ((A.view type blocks dumpBlocks).block a.page).type := by
    rw [show ((A.view type blocks dumpBlocks).block a.page).type = type from typed]
    exact handed.ordered
  have ordered := @Heap.ordered_freeSlot L _ a handed.valid order
  rw [show ((A.view type blocks dumpBlocks).block a.page).type = type from typed] at ordered
  have slots (b : Address) : b ∈ allocated.erase a ↔ b ≠ a ∧ b ∈ allocated :=
    handed.nodup.mem_erase_iff
  have plain := @freeSlot_view L A blocks dumpBlocks type a typed cleared
  rw [← handed.dumpPages.length_eq] at enough
  by_cases last : (A.block a.page).used - 1 = 0
  · obtain ⟨A', done, lists, view⟩ :=
      freeSlot_last handed.lists handed.valid used typed enough cleared last
    rw [if_pos last] at plain
    rw [plain] at frees owns ordered view
    have out := fun owned => ((owns a.page).mp owned).1 rfl rfl
    set gone : NodeAllocator := ⟨blocks.erase a.page, dumpBlocks.erase a.page,
      cursorAfter L type (A.view type blocks dumpBlocks) a⟩ with hgone
    set header : Block := ⟨(A.block a.page).freeNodes, (A.block a.page).used - 1, type⟩ with hheader
    have sameType : header.type =
        (((A.view type blocks dumpBlocks).setAllocator type gone).block a.page).type := typed.symm
    obtain ⟨valid, same⟩ := frees.valid.setBlock_of_not_owns sameType out
    have left : a.page ∉ (((A.view type blocks dumpBlocks).setAllocator type gone).allocators
        type).blocks := by
      rw [Heap.allocators_setAllocator_self]
      exact fun among => (handed.lists.nodup.mem_erase_iff.mp among).1 rfl
    have ordered := @Heap.ordered_setBlock _ type a.page header ordered left
    have pointer := congrArg (fun H => (Heap.allocators H type).dumpPtr) view
    have ids := congrArg Heap.id view
    rw [← view] at valid same ordered
    refine ⟨true, A', _, _, done, ⟨fun _ => by omega, fun _ => rfl⟩, rfl,
      ⟨lists, valid, handed.pages.erase a.page, handed.nodup.erase a, ordered, fun b => ?_⟩, ?_, ids⟩
    · refine (slots b).trans (Iff.trans ?_ (same b).symm)
      rw [frees.allocated, handed.slots]
    · have self := Heap.allocators_setAllocator_self (A.view type blocks dumpBlocks) type gone
      simp only [view_allocators] at pointer
      exact pointer.trans (congrArg NodeAllocator.dumpPtr self)
  · obtain ⟨blocks', A', done, lists, view⟩ :=
      freeSlot_more handed.lists handed.valid used typed enough cleared last
    rw [if_neg last] at plain
    rw [plain] at frees ordered view
    have pointer := congrArg (fun H => (Heap.allocators H type).dumpPtr) view
    have ids := congrArg Heap.id view
    have valid := frees.valid
    have freed := frees.allocated
    rw [← view] at valid freed ordered
    have wrong : ¬(A.block a.page).used = 1 := by omega
    refine ⟨false, A', blocks', _, done, ⟨fun h => (nomatch h), fun h => absurd h wrong⟩, rfl,
      ⟨lists, valid, handed.perm_of_valid valid, handed.nodup.erase a, ordered, fun b => ?_⟩, ?_, ids⟩
    · refine (slots b).trans (Iff.trans ?_ (freed b).symm)
      rw [handed.slots]
    · simp only [view_allocators] at pointer
      have self := Heap.allocators_setAllocator_self (A.view type blocks dumpBlocks) type
      exact pointer.trans (congrArg NodeAllocator.dumpPtr (self _))

end Handed

end HybridDatabase.Allocator.LinkedAllocator
