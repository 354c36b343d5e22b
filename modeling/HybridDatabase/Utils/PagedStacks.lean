/-
# Paged stacks in memory

`FastStack` keeps its items in pages on a circular list, and three pointers into the last of
them.  The pointers of a stack that was never used stand relative to its own header, or to
that of the stack it was swapped with.

Here are any number of stacks in one memory, with the pages that are allocated for them.
`page_free` of anything else is not enabled.
-/

import Mathlib.Data.List.Perm.Basic
import HybridDatabase.Base.Runs
import HybridDatabase.Utils.Ring

namespace HybridDatabase.Utils

open HybridDatabase.Base

/-- A `struct List`: `blocks` in the header of a stack, or the head of a page. -/
inductive Block (ι : Type)
  | head (stack : ι)
  | page (number : ℕ)
  deriving DecidableEq, Repr

/-- The address of `data[index]`, where the block of memory begins with this list. -/
structure Place (ι : Type) where
  block : Block ι
  index : ℕ
  deriving DecidableEq, Repr

/-- `FastStack` without `blocks`. -/
structure StackHeader (ι : Type) where
  blockCount : ℕ
  begin : Place ι
  ptr : Place ι
  end_ : Place ι
  deriving DecidableEq, Repr

/-- The memory of the stacks, and the pages allocated for them. -/
structure PagedStacks (ι α : Type) where
  links : Links (Block ι)
  stack : ι → StackHeader ι
  data : Place ι → α
  pages : List ℕ

namespace PagedStacks

variable {ι α : Type}

/-! ## The source -/

section Operations

variable [DecidableEq ι]

/-- `fstack_init`.  `N` is `fstack_block_size`. -/
def fstackInit (N : ℕ) (b : ι) (m : PagedStacks ι α) : PagedStacks ι α :=
  { m with
    links := m.links.listInitHead (.head b)
    stack := Function.update m.stack b ⟨0, ⟨.head b, 0⟩, ⟨.head b, N⟩, ⟨.head b, N⟩⟩ }

/-- `fstack_empty`. -/
def fstackEmpty (b : ι) (m : PagedStacks ι α) : Bool := (m.stack b).blockCount = 0

/-- `fstack_size`, in the arithmetic of `size_t`. -/
def fstackSize (N : ℕ) (b : ι) (m : PagedStacks ι α) : UInt64 :=
  (UInt64.ofNat (m.stack b).blockCount - 1) * UInt64.ofNat N +
    (UInt64.ofNat (m.stack b).ptr.index - UInt64.ofNat (m.stack b).begin.index)

/-- `_fstack_expand`, where `page_alloc` would give `page`. -/
def fstackExpand (N page : ℕ) (b : ι) (m : PagedStacks ι α) : PagedStacks ι α :=
  let blockCount := (m.stack b).blockCount + 1
  let m := if blockCount ≠ 1 ∨ m.links.next (.head b) = .head b then
    { m with links := m.links.listAddEnd (.head b) (.page page), pages := page :: m.pages }
    else m
  let last := m.links.prev (.head b)
  { m with stack := Function.update m.stack b ⟨blockCount, ⟨last, 0⟩, ⟨last, 0⟩, ⟨last, N⟩⟩ }

/-- `page_free`. -/
def pageFree (block : Block ι) (m : PagedStacks ι α) : Option (PagedStacks ι α) :=
  match block with
  | .page number =>
      if number ∈ m.pages then some { m with pages := m.pages.erase number } else none
  | .head _ => none

/-- `_fstack_shrink`. -/
def fstackShrink (N : ℕ) (b : ι) (m : PagedStacks ι α) : Option (PagedStacks ι α) := do
  let blockCount := (m.stack b).blockCount - 1
  let m ← if blockCount ≠ 0 then
      let last := m.links.prev (.head b)
      pageFree last { m with links := m.links.listRemove last }
    else some m
  let last := m.links.prev (.head b)
  return { m with stack := Function.update m.stack b ⟨blockCount, ⟨last, 0⟩, ⟨last, N⟩, ⟨last, N⟩⟩ }

/-- `*ptr++ = item`. -/
def store (b : ι) (item : α) (m : PagedStacks ι α) : PagedStacks ι α :=
  let S := m.stack b
  { m with
    data := Function.update m.data S.ptr item
    stack := Function.update m.stack b { S with ptr := ⟨S.ptr.block, S.ptr.index + 1⟩ } }

/-- `fstack_push`. -/
def fstackPush (N page : ℕ) (b : ι) (item : α) (m : PagedStacks ι α) : PagedStacks ι α :=
  (if (m.stack b).ptr = (m.stack b).end_ then m.fstackExpand N page b else m).store b item

/-- `&fstack_top`. -/
def topPlace (b : ι) (m : PagedStacks ι α) : Place ι :=
  ⟨(m.stack b).ptr.block, (m.stack b).ptr.index - 1⟩

/-- `fstack_top`. -/
def fstackTop (b : ι) (m : PagedStacks ι α) : α := m.data (m.topPlace b)

/-- `fstack_pop`. -/
def fstackPop (N : ℕ) (b : ι) (m : PagedStacks ι α) : Option (PagedStacks ι α) :=
  let S := { m.stack b with ptr := m.topPlace b }
  let m := { m with stack := Function.update m.stack b S }
  if S.ptr = S.begin then m.fstackShrink N b else some m

/-- The loop of `fstack_erase`. -/
def eraseLoop (N : ℕ) (b : ι) : ℕ → PagedStacks ι α → Option (PagedStacks ι α)
  | 0, m => if (m.stack b).blockCount = 0 then some m else none
  | fuel + 1, m =>
      if (m.stack b).blockCount = 0 then some m
      else (m.fstackShrink N b).bind (eraseLoop N b fuel)

/-- `fstack_erase`. -/
def fstackErase (N : ℕ) (b : ι) (m : PagedStacks ι α) : Option (PagedStacks ι α) :=
  eraseLoop N b (m.stack b).blockCount m

/-- `fstack_swap`; `blocks` is swapped as in `list_swap`. -/
def fstackSwap (b c : ι) (m : PagedStacks ι α) : PagedStacks ι α :=
  { m with
    links := m.links.listSwap (.head b) (.head c)
    stack := Function.update (Function.update m.stack b (m.stack c)) c (m.stack b) }

/-- The loops of `fstack_for_each` from a block on: the items with their addresses. -/
def forEachLoop (N : ℕ) (b : ι) (m : PagedStacks ι α) : ℕ → Block ι → Option (List (Place ι × α))
  | 0, _ => none
  | fuel + 1, block =>
      if block = .head b then some []
      else
        let last := if m.links.next block = .head b then (m.stack b).ptr else ⟨block, N⟩
        let items := (List.range last.index).map fun k => (⟨block, k⟩, m.data ⟨block, k⟩)
        if last.block = block then (forEachLoop N b m fuel (m.links.next block)).map (items ++ ·)
        else none

/-- `fstack_for_each`. -/
def fstackForEach (N fuel : ℕ) (b : ι) (m : PagedStacks ι α) : Option (List (Place ι × α)) :=
  if (m.stack b).blockCount = 0 then some []
  else forEachLoop N b m fuel (m.links.next (.head b))

end Operations

/-! ## What a stack keeps -/

/-- The places of full blocks. -/
def fill (N : ℕ) (blocks : List ℕ) : List (Place ι) :=
  blocks.flatMap fun number => (List.range N).map (Place.mk (.page number))

/-- The first places of a block. -/
def part (number used : ℕ) : List (Place ι) := (List.range used).map (Place.mk (.page number))

/-- The pointers of a stack with these pages and items at these places.  An empty stack has
kept one page or none. -/
inductive Pointers (N : ℕ) (S : StackHeader ι) : List ℕ → List (Place ι) → Prop
  | empty (block : Block ι) (blocks : List ℕ) (few : blocks.length ≤ 1)
      (header : S = ⟨0, ⟨block, 0⟩, ⟨block, N⟩, ⟨block, N⟩⟩) : Pointers N S blocks []
  | some (front : List ℕ) (last used : ℕ) (positive : 0 < used) (le : used ≤ N)
      (header : S = ⟨front.length + 1, ⟨.page last, 0⟩, ⟨.page last, used⟩, ⟨.page last, N⟩⟩) :
      Pointers N S (front ++ [last]) (fill N front ++ part last used)

/-- The stack `b` keeps the items in these pages, each at its address. -/
structure Keeps (N : ℕ) (m : PagedStacks ι α) (b : ι) (blocks : List ℕ)
    (entries : List (Place ι × α)) : Prop where
  ring : m.links.Ring (.head b) (blocks.map .page)
  pointers : Pointers N (m.stack b) blocks (entries.map Prod.fst)
  data : ∀ e ∈ entries, m.data e.1 = e.2

/-- What a change of the stack `b`, with these pages, leaves as it was. -/
structure Frame (m m' : PagedStacks ι α) (b : ι) (own : List ℕ) : Prop where
  stack : ∀ c, c ≠ b → m'.stack c = m.stack c
  links : ∀ block, block ≠ .head b → (∀ number ∈ own, block ≠ .page number) →
    m'.links.next block = m.links.next block ∧ m'.links.prev block = m.links.prev block
  data : ∀ a : Place ι, (∀ number ∈ own, a.block ≠ .page number) → m'.data a = m.data a

variable {N page : ℕ} {m m' : PagedStacks ι α} {b c : ι} {blocks own : List ℕ}
  {entries : List (Place ι × α)}

theorem page_ne_head (number : ℕ) (b : ι) : (.page number : Block ι) ≠ .head b := by simp

theorem mem_fill {a : Place ι} :
    a ∈ fill N blocks ↔ ∃ n ∈ blocks, a.block = .page n ∧ a.index < N := by
  simp only [fill, List.mem_flatMap, List.mem_map, List.mem_range]
  constructor
  · rintro ⟨n, inside, k, low, rfl⟩
    exact ⟨n, inside, rfl, low⟩
  · rintro ⟨n, inside, block, low⟩
    exact ⟨n, inside, a.index, low, by rw [← block]⟩

theorem mem_part {a : Place ι} {number used : ℕ} :
    a ∈ part number used ↔ a.block = .page number ∧ a.index < used := by
  simp only [part, List.mem_map, List.mem_range]
  constructor
  · rintro ⟨k, low, rfl⟩
    exact ⟨rfl, low⟩
  · rintro ⟨block, low⟩
    exact ⟨a.index, low, by rw [← block]⟩

theorem length_part (ι : Type) (number used : ℕ) :
    (part number used : List (Place ι)).length = used := by
  rw [part, List.length_map, List.length_range]

theorem length_fill (ι : Type) (N : ℕ) (blocks : List ℕ) :
    (fill N blocks : List (Place ι)).length = blocks.length * N := by
  induction blocks with
  | nil => exact (Nat.zero_mul N).symm
  | cons number blocks ih =>
      have both : (fill N (number :: blocks) : List (Place ι)) =
          part number N ++ fill N blocks := rfl
      rw [both, List.length_append, length_part, ih, List.length_cons, Nat.succ_mul, Nat.add_comm]

theorem fill_append_singleton (N : ℕ) (front : List ℕ) (last : ℕ) :
    (fill N (front ++ [last]) : List (Place ι)) = fill N front ++ part last N := by
  rw [fill, List.flatMap_append, List.flatMap_singleton]
  rfl

theorem part_succ (number used : ℕ) :
    (part number (used + 1) : List (Place ι)) = part number used ++ [⟨.page number, used⟩] := by
  rw [part, List.range_succ, List.map_append]
  rfl

theorem nodup_part (number used : ℕ) : (part number used : List (Place ι)).Nodup :=
  List.nodup_range.map fun _ _ same => (Place.mk.inj same).2

theorem nodup_fill (nodup : blocks.Nodup) : (fill N blocks : List (Place ι)).Nodup := by
  induction blocks with
  | nil => exact List.nodup_nil
  | cons n blocks ih =>
      obtain ⟨outside, nodup⟩ := List.nodup_cons.mp nodup
      refine (nodup_part n N).append (ih nodup) fun a first second => ?_
      obtain ⟨n', inside, block, -⟩ := mem_fill.mp second
      obtain ⟨block', -⟩ := mem_part.mp first
      rw [block', Block.page.injEq] at block
      exact outside (block ▸ inside)

/-- Every place is in one of the pages. -/
theorem Pointers.mem {S : StackHeader ι} {places : List (Place ι)} (pointers : Pointers N S blocks places)
    {a : Place ι} (inside : a ∈ places) : ∃ n ∈ blocks, a.block = .page n := by
  cases pointers with
  | empty => cases inside
  | some front last used =>
      obtain inside | inside := List.mem_append.mp inside
      · obtain ⟨n, among, block, -⟩ := mem_fill.mp inside
        exact ⟨n, List.mem_append_left _ among, block⟩
      · exact ⟨last, List.mem_append_right _ (List.mem_singleton_self last),
          (mem_part.mp inside).1⟩

theorem Pointers.nodup {S : StackHeader ι} {places : List (Place ι)}
    (pointers : Pointers N S blocks places) (nodup : blocks.Nodup) : places.Nodup := by
  cases pointers with
  | empty => exact List.nodup_nil
  | some front last used =>
      refine (nodup_fill (nodup.sublist (List.sublist_append_left _ _))).append
        (nodup_part last used) fun a first second => ?_
      obtain ⟨n, among, block, -⟩ := mem_fill.mp first
      rw [(mem_part.mp second).1, Block.page.injEq] at block
      exact (List.nodup_append.mp nodup).2.2 n among last (List.mem_singleton_self last) block.symm

theorem Frame.refl : Frame m m b own := ⟨fun _ _ => rfl, fun _ _ _ => ⟨rfl, rfl⟩, fun _ _ => rfl⟩

theorem Frame.trans {m'' : PagedStacks ι α} (first : Frame m m' b own)
    (second : Frame m' m'' b own) : Frame m m'' b own where
  stack c other := (second.stack c other).trans (first.stack c other)
  links block other outside :=
    ⟨(second.links block other outside).1.trans (first.links block other outside).1,
      (second.links block other outside).2.trans (first.links block other outside).2⟩
  data a outside := (second.data a outside).trans (first.data a outside)

theorem Frame.mono {own' : List ℕ} (frame : Frame m m' b own) (more : ∀ n ∈ own, n ∈ own') :
    Frame m m' b own' where
  stack := frame.stack
  links block other outside :=
    frame.links block other fun n inside => outside n (more n inside)
  data a outside := frame.data a fun n inside => outside n (more n inside)

/-- The pages of a stack are distinct. -/
theorem Keeps.nodup (keeps : Keeps N m b blocks entries) : blocks.Nodup :=
  List.Nodup.of_map _ (List.nodup_cons.mp keeps.ring.nodup).2

/-- A stack is empty, or its last page has an item. -/
theorem Keeps.cases (keeps : Keeps N m b blocks entries) :
    (entries = [] ∧ blocks.length ≤ 1 ∧
      ∃ block, m.stack b = ⟨0, ⟨block, 0⟩, ⟨block, N⟩, ⟨block, N⟩⟩) ∨
    ∃ front last used, blocks = front ++ [last] ∧ 0 < used ∧ used ≤ N ∧
      m.stack b = ⟨front.length + 1, ⟨.page last, 0⟩, ⟨.page last, used⟩, ⟨.page last, N⟩⟩ ∧
      entries.map Prod.fst = fill N front ++ part last used := by
  have pointers := keeps.pointers
  generalize places : entries.map Prod.fst = list at pointers
  cases pointers with
  | empty block blocks few header =>
      exact .inl ⟨List.map_eq_nil_iff.mp places, few, block, header⟩
  | some front last used positive le header =>
      exact .inr ⟨front, last, used, rfl, positive, le, header, rfl⟩

/-- Changes of another stack do not concern the stack. -/
theorem Keeps.frame (keeps : Keeps N m c blocks entries) (frame : Frame m m' b own)
    (other : c ≠ b) (apart : ∀ n ∈ blocks, n ∉ own) : Keeps N m' c blocks entries := by
  have away : ∀ n ∈ blocks, ∀ number ∈ own, (.page n : Block ι) ≠ .page number := by
    rintro n inside number owned ⟨⟩
    exact apart n inside owned
  refine ⟨keeps.ring.congr fun block inside => ?_, ?_, fun e inside => ?_⟩
  · obtain rfl | inside := List.mem_cons.mp inside
    · exact frame.links _ (fun same => other (Block.head.inj same)) fun _ _ => nofun
    · obtain ⟨n, among, rfl⟩ := List.mem_map.mp inside
      exact frame.links _ nofun (away n among)
  · rw [frame.stack c other]
    exact keeps.pointers
  · rw [← keeps.data e inside]
    obtain ⟨n, among, block⟩ := keeps.pointers.mem (List.mem_map_of_mem inside)
    apply frame.data _
    rw [block]
    exact away n among

end PagedStacks

end HybridDatabase.Utils
