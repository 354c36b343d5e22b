/-
# Walking through the nodes

The walk along `dump_blocks` comes to every slot of every page of a type once, so
`node_for_each` visits exactly the slots in use whose `id` is not zero.
-/

import HybridDatabase.Allocator.Slots

namespace HybridDatabase.Allocator.Heap

open HybridDatabase.Base

variable {L : Layout} {H : Heap} {a : Address} {type : ℕ}

/-- The slots of pages, in the order of the walk. -/
def slotsOf (n : ℕ) (pages : List ℕ) : List Address :=
  pages.flatMap fun page => (List.range' 0 n).map (Address.mk page)

/-- The slots of a type. -/
def slots (L : Layout) (type : ℕ) (H : Heap) : List Address :=
  slotsOf (L.nodesPerBlock type) (H.allocators type).dumpBlocks

theorem slotsOf_cons (n page : ℕ) (pages : List ℕ) :
    slotsOf n (page :: pages) = (List.range' 0 n).map (Address.mk page) ++ slotsOf n pages :=
  List.flatMap_cons

theorem mem_slotsOf {n : ℕ} {pages : List ℕ} :
    a ∈ slotsOf n pages ↔ a.page ∈ pages ∧ a.slot < n := by
  simp only [slotsOf, List.mem_flatMap, List.mem_map, List.mem_range'_1, Nat.zero_add]
  constructor
  · rintro ⟨page, inside, slot, ⟨-, small⟩, rfl⟩
    exact ⟨inside, small⟩
  · rintro ⟨inside, small⟩
    exact ⟨a.page, inside, a.slot, ⟨Nat.zero_le _, small⟩, rfl⟩

theorem length_slotsOf (n : ℕ) (pages : List ℕ) :
    (slotsOf n pages).length = pages.length * n := by
  simp [slotsOf, List.length_flatMap]

theorem nodup_slotsOf {n : ℕ} {pages : List ℕ} (nodup : pages.Nodup) : (slotsOf n pages).Nodup := by
  induction pages with
  | nil => exact List.nodup_nil
  | cons page pages ih =>
      obtain ⟨apart, rest⟩ := List.nodup_cons.mp nodup
      rw [slotsOf_cons]
      refine List.Nodup.append (List.Nodup.map (fun _ _ same => (Address.mk.inj same).2)
        List.nodup_range') (ih rest) fun b first other => ?_
      obtain ⟨slot, -, rfl⟩ := List.mem_map.mp first
      exact apart (mem_slotsOf.mp other).1

theorem slotsOf_append (n : ℕ) (pages others : List ℕ) :
    slotsOf n (pages ++ others) = slotsOf n pages ++ slotsOf n others := List.flatMap_append

/-- The slots of the pages but one. -/
theorem slotsOf_erase {n page : ℕ} {pages : List ℕ} (nodup : pages.Nodup) :
    slotsOf n (pages.erase page) = (slotsOf n pages).filter fun a => a.page ≠ page := by
  rw [nodup.erase_eq_filter]
  induction pages with
  | nil => rfl
  | cons q pages ih =>
      have rest := ih (List.nodup_cons.mp nodup).2
      have pageOf {a : Address} (inside : a ∈ (List.range' 0 n).map (Address.mk q)) : a.page = q := by
        obtain ⟨slot, -, rfl⟩ := List.mem_map.mp inside
        rfl
      rw [slotsOf_cons, List.filter_append, ← rest]
      by_cases here : q = page
      · have none : ((List.range' 0 n).map (Address.mk q)).filter (fun a => a.page ≠ page) = [] :=
          List.filter_eq_nil_iff.mpr fun a inside => by simp [pageOf inside, here]
        rw [List.filter_cons_of_neg (by simp [here]), none, List.nil_append]
      · have all : ((List.range' 0 n).map (Address.mk q)).filter (fun a => a.page ≠ page) =
            (List.range' 0 n).map (Address.mk q) :=
          List.filter_eq_self.mpr fun a inside => by simp [pageOf inside, here]
        rw [List.filter_cons_of_pos (by simp [here]), slotsOf_cons, all]

theorem behind_eq {pages front rest : List ℕ} {page : ℕ} (nodup : pages.Nodup)
    (split : pages = front ++ page :: rest) : behind pages page = rest.head? := by
  subst split
  induction front with
  | nil => exact if_pos rfl
  | cons other front ih =>
      obtain ⟨apart, nodup⟩ := List.nodup_cons.mp nodup
      have there : other ≠ page := fun same => apart (by simp [same])
      rw [List.cons_append, behind, if_neg there]
      exact ih nodup

/-- The first place of some pages. -/
theorem head_slotsOf {n : ℕ} (positive : 0 < n) (pages : List ℕ) :
    (slotsOf n pages).head? = pages.head?.map fun page => ⟨page, 0⟩ := by
  cases pages with
  | nil => rfl
  | cons page pages =>
      obtain ⟨n, rfl⟩ : ∃ k, n = k + 1 := ⟨n - 1, by omega⟩
      rfl

/-- The walk goes through the slots of a page and then to the next page. -/
theorem walks_page {pages front rest : List ℕ} {page : ℕ}
    (dumpBlocks : (H.allocators type).dumpBlocks = pages) (nodup : pages.Nodup)
    (split : pages = front ++ page :: rest)
    (others : Walks (H.getNextStep L type) (slotsOf (L.nodesPerBlock type) rest)) (k first : ℕ)
    (last : first + k = L.nodesPerBlock type) :
    Walks (H.getNextStep L type) ((List.range' first k).map (Address.mk page) ++
      slotsOf (L.nodesPerBlock type) rest) := by
  induction k generalizing first with
  | zero => exact others
  | succ k ih =>
      have later := ih (first + 1) (by omega)
      rw [List.range'_succ, List.map_cons, List.cons_append]
      refine ⟨?_, later⟩
      unfold getNextStep
      cases k with
      | zero =>
          rw [if_neg (by show ¬ first + 1 < _; omega), dumpBlocks, behind_eq nodup split]
          exact (head_slotsOf (L.positive type) rest).symm
      | succ k =>
          rw [if_pos (by show first + 1 < _; omega)]
          rfl

theorem walks_slots (valid : H.Valid L) (type : ℕ) :
    Walks (H.getNextStep L type) (H.slots L type) := by
  have nodup := (valid.same type).nodup_iff.mp (valid.nodup type)
  have all (front rest : List ℕ) (split : (H.allocators type).dumpBlocks = front ++ rest) :
      Walks (H.getNextStep L type) (slotsOf (L.nodesPerBlock type) rest) := by
    induction rest generalizing front with
    | nil => trivial
    | cons page rest ih =>
        have others := ih (front ++ [page]) (by rw [split, List.append_assoc, List.singleton_append])
        rw [slotsOf_cons]
        exact walks_page rfl nodup split others _ 0 (Nat.zero_add _)
  exact all [] _ rfl

/-- The walk goes on to the first slot behind `a` whose `id` is not zero. -/
theorem dumpNext_eq (valid : H.Valid L) {before after : List Address}
    (split : H.slots L type = before ++ a :: after) :
    H.dumpNext L type a = (after.filter fun node => H.id node != 0).head? := by
  have walks := walks_slots valid type
  have enough : (H.slots L type).length < H.steps L type := by
    rw [slots, length_slotsOf, steps]
    omega
  rw [split] at walks enough
  have later := walks.of_append
  rw [List.length_append, List.length_cons] at enough
  rw [dumpNext, skipFree, later.1]
  exact search_head later.2 (by omega)

/-- `node_for_each` visits the slots whose `id` is not zero, page after page. -/
theorem nodeForEach_eq (valid : H.Valid L) (type : ℕ) :
    H.nodeForEach L type = (H.slots L type).filter fun node => H.id node != 0 := by
  have walks := walks_slots valid type
  have enough : (H.slots L type).length < H.steps L type := by
    rw [slots, length_slotsOf, steps]
    omega
  have first : H.firstStep type = (H.slots L type).head? :=
    (head_slotsOf (L.positive type) _).symm
  unfold nodeForEach dumpInit
  rw [first]
  exact visits_filter walks enough enough

/-- The nodes that `node_for_each` visits. -/
theorem mem_nodeForEach (valid : H.Valid L) :
    a ∈ H.nodeForEach L type ↔
      (H.block a.page).type = type ∧ H.Allocated L a ∧ H.id a ≠ 0 := by
  rw [nodeForEach_eq valid, List.mem_filter, slots, mem_slotsOf, ← (valid.same type).mem_iff]
  simp only [bne_iff_ne, ne_eq]
  constructor
  · rintro ⟨⟨inside, small⟩, used⟩
    have typed := valid.typed type a.page inside
    refine ⟨typed, ⟨valid.owns inside, typed ▸ small, fun free => used ?_⟩, used⟩
    exact valid.idle type a.page inside a.slot free
  · rintro ⟨rfl, ⟨owned, small, -⟩, used⟩
    exact ⟨⟨owned, small⟩, used⟩

theorem nodup_nodeForEach (valid : H.Valid L) (type : ℕ) : (H.nodeForEach L type).Nodup := by
  rw [nodeForEach_eq valid]
  exact (nodup_slotsOf ((valid.same type).nodup_iff.mp (valid.nodup type))).filter _

end HybridDatabase.Allocator.Heap
