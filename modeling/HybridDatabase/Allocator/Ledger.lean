/-
# Where the freed pages are

A `VPageAllocator` is used by one call after another.  `Ledger` keeps the pages that were
freed to it, those that it has handed out again and those that it has passed to
`page_free`.

The loop of a collection counts a page down when it takes it off the list.  The first page
that is too young goes back on the list, but it is not counted again.  So the count is
right as long as no collection meets a page that is too young, and it is wrong after the
first one that does.
-/

import HybridDatabase.Allocator.Pages
import HybridDatabase.Base.Runs
import Mathlib.Order.Interval.Finset.Nat

namespace HybridDatabase.Allocator

open HybridDatabase.Base

namespace VPageAllocator

/-! ## Collections -/

/-- `vpage_allocator_collect_garbage`, where `get_time` answers `now`. -/
def collectGarbage (now : ℕ) (A : VPageAllocator) : VPageAllocator × List ℕ := A.gc now

/-- `vpage_allocator_destroy`. -/
def destroy (A : VPageAllocator) : VPageAllocator × List ℕ :=
  gc (2 ^ 64 - 1) { A with gcThreshold := 0 }

/-- A collection at `now` of the pages `before`: it passes `gone` to `page_free` and keeps
`kept`. -/
structure Collects (now : ℕ) (before kept : List FreePage) (gone : List ℕ) : Prop where
  gone : gone.Perm ((before.filter fun item => item.timestamp ≤ now).map FreePage.page)
  kept : kept.Perm (before.filter fun item => now < item.timestamp)

/-- The pages that stay are counted, less the first page that was too young. -/
def countAfter (now : ℕ) (pages : List FreePage) : ℕ :=
  (pages.filter fun item => now < item.timestamp).length - 1

theorem atomicDec_succ {n : ℕ} (small : n + 1 < 2 ^ 64) : atomicDec (n + 1) = n := by
  unfold atomicDec
  omega

theorem atomicDec_iterate {n k : ℕ} (small : n + k < 2 ^ 64) : atomicDec^[k] (n + k) = n := by
  induction k with
  | zero => rfl
  | succ k ih =>
      rw [Function.iterate_succ_apply, ← Nat.add_assoc, atomicDec_succ (by omega)]
      exact ih (by omega)

/-- The pages are the old ones and the young ones. -/
theorem length_split (now : ℕ) (pages : List FreePage) :
    (pages.filter fun item => now < item.timestamp).length +
      (pages.filter fun item => item.timestamp ≤ now).length = pages.length := by
  induction pages with
  | nil => rfl
  | cons item rest ih =>
      by_cases old : item.timestamp ≤ now
      · have young : ¬now < item.timestamp := by omega
        simp only [List.filter_cons, old, young, decide_true, decide_false, if_true,
          List.length_cons, Bool.false_eq_true, if_false]
        omega
      · have young : now < item.timestamp := by omega
        simp only [List.filter_cons, old, young, decide_true, decide_false, if_true,
          List.length_cons, Bool.false_eq_true, if_false]
        omega

/-- A collection that starts with the right count sorts the pages by their time. -/
theorem gcLoop_collects (now : ℕ) (pages : List FreePage) (small : pages.length < 2 ^ 64) :
    Collects now pages (gcLoop now pages pages.length).1.1
        (gcLoop now pages pages.length).2 ∧
      (gcLoop now pages pages.length).1.2 = countAfter now pages := by
  induction pages with
  | nil => exact ⟨⟨List.Perm.refl _, List.Perm.refl _⟩, rfl⟩
  | cons item rest ih =>
      have counted : atomicDec (item :: rest).length = rest.length := atomicDec_succ small
      have some : (item :: rest).length ≠ 0 := Nat.succ_ne_zero _
      rw [gcLoop, if_neg some, counted]
      by_cases old : item.timestamp ≤ now
      · have young : ¬now < item.timestamp := by omega
        obtain ⟨⟨gone, kept⟩, count⟩ := ih (by simp only [List.length_cons] at small; omega)
        rw [if_pos old]
        refine ⟨⟨?_, ?_⟩, ?_⟩
        · rw [List.filter_cons, if_pos (decide_eq_true old)]
          exact gone.cons item.page
        · rw [List.filter_cons, if_neg (by simpa using old)]
          exact kept
        · rw [countAfter, List.filter_cons, if_neg (by simpa using old)]
          exact count
      · have young : now < item.timestamp := by omega
        rw [if_neg old]
        have split := length_split now rest
        refine ⟨⟨?_, ?_⟩, ?_⟩
        · rw [List.filter_cons, if_neg (by simpa using young)]
        · rw [List.filter_cons, if_pos (decide_eq_true young)]
          exact (List.perm_append_singleton _ _).trans ((List.reverse_perm _).cons _)
        · rw [countAfter, List.filter_cons, if_pos (decide_eq_true young)]
          simp only [List.length_cons] at small
          have counted : atomicDec^[(rest.filter fun item => item.timestamp ≤ now).length]
              rest.length = (rest.filter fun item => now < item.timestamp).length := by
            rw [← split]
            exact atomicDec_iterate (by omega)
          exact counted

end VPageAllocator

open VPageAllocator

/-! ## The calls -/

/-- The allocator, the pages `freed` to it, those `taken` from its list again and those
`released`, which were passed to `page_free`. -/
structure Ledger where
  allocator : VPageAllocator
  freed : List ℕ
  taken : List ℕ
  released : List ℕ

/-- A call; `now` is what `get_time` answers and `page_alloc` would give `page`. -/
inductive PageCall
  | free (page time now : ℕ)
  | alloc (page : ℕ)
  | collect (now : ℕ)

namespace Ledger

/-- The pages on the list. -/
def pages (s : Ledger) : List ℕ := s.allocator.freePages.map FreePage.page

/-- After `vpage_allocator_init`. -/
def start (gcThreshold : ℕ) : Ledger := ⟨VPageAllocator.init gcThreshold, [], [], []⟩

/-- A caller frees a page that is not on the list.  A page is no null pointer, and the time
is a word. -/
def MayFree (s : Ledger) (page time : ℕ) : Prop :=
  page ∉ s.pages ∧ 0 < page ∧ page < 2 ^ 64 ∧ time < 2 ^ 64

instance (s : Ledger) (page time : ℕ) : Decidable (s.MayFree page time) := by
  unfold MayFree
  infer_instance

/-- One call. -/
def step (s : Ledger) : PageCall → Option Ledger
  | .free page time now =>
      if s.MayFree page time then
        let (A, gone) := s.allocator.free page time now
        some ⟨A, page :: s.freed, s.taken, gone ++ s.released⟩
      else none
  | .alloc page =>
      let (got, A) := s.allocator.alloc page
      some ⟨A, s.freed, if s.pages = [] then s.taken else got :: s.taken, s.released⟩
  | .collect now =>
      let (A, gone) := s.allocator.collectGarbage now
      some ⟨A, s.freed, s.taken, gone ++ s.released⟩

/-- The collection that a call runs: the time it reads and the pages it meets. -/
def collection (s : Ledger) : PageCall → Option (ℕ × List FreePage)
  | .free page time now =>
      if s.allocator.gcThreshold < atomicInc s.allocator.freePagesCount then
        some (now, ⟨page, time⟩ :: s.allocator.freePages)
      else none
  | .alloc _ => none
  | .collect now => some (now, s.allocator.freePages)

/-- The collection, if the call runs one, meets no page that is too young. -/
def AllOld (s : Ledger) (call : PageCall) : Prop :=
  ∀ ran ∈ s.collection call, ∀ item ∈ ran.2, item.timestamp ≤ ran.1

instance (s : Ledger) (call : PageCall) : Decidable (s.AllOld call) := by
  unfold AllOld
  infer_instance

/-- The call has passed to `page_free` the old pages, if it ran a collection, and no page
otherwise. -/
structure Released (s s' : Ledger) (call : PageCall) : Prop where
  ran : ∀ now before, s.collection call = some (now, before) →
    ∃ gone, s'.released = gone ++ s.released ∧
      Collects now before s'.allocator.freePages gone
  idle : s.collection call = none → s'.released = s.released

/-- The list is counted, every page is accounted for, and a collection or the end of the
allocator would treat the pages as it should. -/
structure Right (s : Ledger) : Prop where
  count : s.allocator.freePagesCount = s.allocator.freePages.length
  accounted : (s.pages ++ s.taken ++ s.released).Perm s.freed
  collected : ∀ now, Collects now s.allocator.freePages
    (s.allocator.collectGarbage now).1.freePages (s.allocator.collectGarbage now).2
  destroyed : s.allocator.destroy.1.freePages = [] ∧ s.allocator.destroy.2.Perm s.pages

end Ledger

/-- The pages on a list are different addresses, and their times are words. -/
structure Listed (items : List FreePage) : Prop where
  different : (items.map FreePage.page).Nodup
  addresses : ∀ item ∈ items, 0 < item.page ∧ item.page < 2 ^ 64
  times : ∀ item ∈ items, item.timestamp < 2 ^ 64

namespace Listed

variable {items kept : List FreePage}

/-- There are fewer pages than addresses. -/
theorem small (listed : Listed items) : items.length < 2 ^ 64 := by
  have inside : (items.map FreePage.page).toFinset ⊆ Finset.Ico 1 (2 ^ 64) := by
    intro page on
    obtain ⟨item, among, rfl⟩ := List.mem_map.mp (List.mem_toFinset.mp on)
    obtain ⟨positive, below⟩ := listed.addresses item among
    exact Finset.mem_Ico.mpr ⟨positive, below⟩
  have card := Finset.card_le_card inside
  rw [List.toFinset_card_of_nodup listed.different, Nat.card_Ico, List.length_map] at card
  omega

/-- Some of the pages, in any order. -/
theorem keep {p : FreePage → Bool} (listed : Listed items)
    (some : kept.Perm (items.filter p)) : Listed kept := by
  have inside : ∀ item ∈ kept, item ∈ items := fun item on =>
    List.mem_of_mem_filter (some.mem_iff.mp on)
  refine ⟨?_, fun item on => listed.addresses item (inside item on),
    fun item on => listed.times item (inside item on)⟩
  apply (some.map FreePage.page).nodup_iff.mpr
  exact listed.different.sublist (List.filter_sublist.map FreePage.page)

theorem tail {item : FreePage} (listed : Listed (item :: items)) : Listed items :=
  ⟨(List.nodup_cons.mp listed.different).2,
    fun item on => listed.addresses item (List.mem_cons_of_mem _ on),
    fun item on => listed.times item (List.mem_cons_of_mem _ on)⟩

end Listed

namespace Ledger

variable {s s' : Ledger}

/-! ## What a call keeps -/

/-- What every call keeps when the count is right. -/
structure Kept (s : Ledger) : Prop where
  listed : Listed s.allocator.freePages
  count : s.allocator.freePagesCount = s.allocator.freePages.length
  accounted : (s.pages ++ s.taken ++ s.released).Perm s.freed

/-- A page is freed, before the count is looked at. -/
def push (page time : ℕ) (s : Ledger) : Ledger :=
  { s with
    allocator := ⟨s.allocator.gcThreshold, atomicInc s.allocator.freePagesCount,
      ⟨page, time⟩ :: s.allocator.freePages⟩
    freed := page :: s.freed }

/-- A collection runs. -/
def gc (now : ℕ) (s : Ledger) : Ledger :=
  { s with
    allocator := (s.allocator.gc now).1
    released := (s.allocator.gc now).2 ++ s.released }

theorem step_free {page time now : ℕ} (moved : s.step (.free page time now) = some s') :
    s.MayFree page time ∧
      s' = if s.allocator.gcThreshold < atomicInc s.allocator.freePagesCount then
          (s.push page time).gc now
        else s.push page time := by
  rw [step] at moved
  split at moved
  · rename_i may
    refine ⟨may, ?_⟩
    have moved : (⟨(s.allocator.free page time now).1, page :: s.freed, s.taken,
        (s.allocator.free page time now).2 ++ s.released⟩ : Ledger) = s' :=
      Option.some.inj moved
    rw [← moved]
    unfold VPageAllocator.free
    dsimp only
    split
    · rfl
    · rfl
  · cases moved

/-- A collection with the right count of the pages on the list. -/
theorem gc_collects {A : VPageAllocator} (listed : Listed A.freePages)
    (count : A.freePagesCount = A.freePages.length) (now : ℕ) :
    Collects now A.freePages (A.gc now).1.freePages (A.gc now).2 ∧
      (A.gc now).1.freePagesCount = countAfter now A.freePages := by
  have sorted := gcLoop_collects now A.freePages listed.small
  rw [← count] at sorted
  exact sorted

theorem listed_push {page time : ℕ} (listed : Listed s.allocator.freePages)
    (may : s.MayFree page time) : Listed (s.push page time).allocator.freePages := by
  obtain ⟨absent, positive, below, word⟩ := may
  refine ⟨List.nodup_cons.mpr ⟨absent, listed.different⟩, ?_, ?_⟩
  · intro item on
    obtain rfl | on := List.mem_cons.mp on
    · exact ⟨positive, below⟩
    · exact listed.addresses item on
  · intro item on
    obtain rfl | on := List.mem_cons.mp on
    · exact word
    · exact listed.times item on

/-- When the count is right, so is the rest. -/
theorem Kept.right (kept : s.Kept) : s.Right := by
  refine ⟨kept.count, kept.accounted, fun now => (gc_collects kept.listed kept.count now).1, ?_⟩
  have sorted : Collects (2 ^ 64 - 1) s.allocator.freePages s.allocator.destroy.1.freePages
      s.allocator.destroy.2 :=
    (gc_collects (A := { s.allocator with gcThreshold := 0 }) kept.listed kept.count _).1
  have old : ∀ item ∈ s.allocator.freePages, item.timestamp ≤ 2 ^ 64 - 1 := fun item on =>
    Nat.le_sub_one_of_lt (kept.listed.times item on)
  constructor
  · have young : (s.allocator.freePages.filter fun item => 2 ^ 64 - 1 < item.timestamp) = [] :=
      List.filter_eq_nil_iff.mpr fun item on => by
        rw [decide_eq_true_eq, not_lt]
        exact old item on
    have nothing := sorted.kept
    rw [young] at nothing
    exact List.perm_nil.mp nothing
  · have all : (s.allocator.freePages.filter fun item => item.timestamp ≤ 2 ^ 64 - 1) =
        s.allocator.freePages :=
      List.filter_eq_self.mpr fun item on => decide_eq_true (old item on)
    have everything := sorted.gone
    rw [all] at everything
    exact everything

theorem Kept.push {page time : ℕ} (kept : s.Kept) (may : s.MayFree page time) :
    (s.push page time).Kept := by
  have listed := listed_push kept.listed may
  refine ⟨listed, ?_, kept.accounted.cons page⟩
  have small := listed.small
  have count : atomicInc s.allocator.freePagesCount = s.allocator.freePages.length + 1 := by
    rw [kept.count]
    exact Nat.mod_eq_of_lt small
  exact count

/-- The pages that a collection sorts stay accounted for. -/
theorem Kept.accounted_gc (kept : s.Kept) (now : ℕ) :
    ((s.gc now).pages ++ (s.gc now).taken ++ (s.gc now).released).Perm (s.gc now).freed := by
  have sorted := gcLoop_perm now s.allocator.freePages s.allocator.freePagesCount
  refine List.Perm.trans ?_ kept.accounted
  have swap : ((s.gc now).pages ++ s.taken ++ ((s.allocator.gc now).2 ++ s.released)).Perm
      ((s.gc now).pages ++ (s.allocator.gc now).2 ++ s.taken ++ s.released) := by
    rw [← List.append_assoc]
    apply List.Perm.append_right _
    rw [List.append_assoc, List.append_assoc]
    exact List.perm_append_comm.append_left _
  exact swap.trans ((sorted.append_right _).append_right _)

/-- A collection that meets only old pages keeps what there is to keep. -/
theorem Kept.gc {now : ℕ} (kept : s.Kept)
    (old : ∀ item ∈ s.allocator.freePages, item.timestamp ≤ now) : (s.gc now).Kept := by
  obtain ⟨sorted, count⟩ := gc_collects kept.listed kept.count now
  have young : (s.allocator.freePages.filter fun item => now < item.timestamp) = [] :=
    List.filter_eq_nil_iff.mpr fun item on => by
      rw [decide_eq_true_eq, not_lt]
      exact old item on
  refine ⟨kept.listed.keep sorted.kept, ?_, kept.accounted_gc now⟩
  have length := sorted.kept.length_eq
  rw [countAfter, young] at count
  rw [young] at length
  exact count.trans length.symm

/-- After any other collection the count is one too low. -/
theorem Kept.gc_count {now : ℕ} (kept : s.Kept)
    (young : ∃ item ∈ s.allocator.freePages, now < item.timestamp) :
    (s.gc now).allocator.freePagesCount + 1 = (s.gc now).allocator.freePages.length := by
  obtain ⟨sorted, count⟩ := gc_collects kept.listed kept.count now
  obtain ⟨item, on, young⟩ := young
  have stays : item ∈ s.allocator.freePages.filter fun item => now < item.timestamp :=
    List.mem_filter.mpr ⟨on, decide_eq_true young⟩
  have positive := List.length_pos_of_mem stays
  have length := sorted.kept.length_eq
  rw [countAfter] at count
  have count : (s.gc now).allocator.freePagesCount =
      (s.allocator.freePages.filter fun item => now < item.timestamp).length - 1 := count
  have length : (s.gc now).allocator.freePages.length =
      (s.allocator.freePages.filter fun item => now < item.timestamp).length := length
  omega

theorem Kept.gc_right_iff {now : ℕ} (kept : s.Kept) :
    (s.gc now).Right ↔ ∀ item ∈ s.allocator.freePages, item.timestamp ≤ now := by
  constructor
  · intro right item on
    by_contra young
    have low := kept.gc_count ⟨item, on, Nat.lt_of_not_le young⟩
    have count := right.count
    omega
  · intro old
    exact (kept.gc old).right

/-- A page is handed out. -/
theorem Kept.alloc {page : ℕ} (kept : s.Kept) (moved : s.step (.alloc page) = some s') :
    s'.Kept := by
  have moved : (⟨(s.allocator.alloc page).2, s.freed,
      if s.pages = [] then s.taken else (s.allocator.alloc page).1 :: s.taken,
      s.released⟩ : Ledger) = s' := Option.some.inj moved
  rw [← moved]
  have accounted := kept.accounted
  unfold VPageAllocator.alloc
  unfold pages at accounted ⊢
  cases on : s.allocator.freePages with
  | nil =>
      refine ⟨?_, ?_, ?_⟩
      · exact kept.listed
      · exact kept.count
      · exact accounted
  | cons item rest =>
      have listed := kept.listed
      have count := kept.count
      rw [on] at listed count accounted
      refine ⟨listed.tail, ?_, ?_⟩
      · have counted : atomicDec s.allocator.freePagesCount = rest.length := by
          rw [count]
          exact atomicDec_succ listed.small
        exact counted
      · refine List.Perm.trans ?_ accounted
        have front : (rest.map FreePage.page ++ item.page :: s.taken).Perm
            (item.page :: (rest.map FreePage.page ++ s.taken)) := List.perm_middle
        exact front.append_right _

/-- Every call whose collection meets only old pages keeps what there is to keep. -/
theorem Kept.step {call : PageCall} (kept : s.Kept) (old : s.AllOld call)
    (moved : s.step call = some s') : s'.Kept := by
  cases call with
  | free page time now =>
      obtain ⟨may, rfl⟩ := step_free moved
      have pushed := kept.push may
      split
      · rename_i full
        exact pushed.gc (old (now, _) (if_pos full))
      · exact pushed
  | alloc page => exact kept.alloc moved
  | collect now =>
      have moved : s.gc now = s' := Option.some.inj moved
      rw [← moved]
      exact kept.gc (old (now, _) rfl)

/-- The state after a call is right when the collection has met only old pages. -/
theorem Kept.step_right_iff {call : PageCall} (kept : s.Kept)
    (moved : s.step call = some s') : s'.Right ↔ s.AllOld call := by
  refine ⟨fun right ran runs => ?_, fun old => (kept.step old moved).right⟩
  cases call with
  | free page time now =>
      obtain ⟨may, rfl⟩ := step_free moved
      rw [collection, Option.mem_def] at runs
      split at runs
      · rename_i full
        cases runs
        rw [if_pos full] at right
        exact (kept.push may).gc_right_iff.mp right
      · cases runs
  | alloc page => cases runs
  | collect now =>
      cases runs
      have moved : s.gc now = s' := Option.some.inj moved
      rw [← moved] at right
      exact kept.gc_right_iff.mp right

/-- What a call passes to `page_free`. -/
theorem Kept.releases {call : PageCall} (kept : s.Kept) (moved : s.step call = some s') :
    Released s s' call := by
  cases call with
  | free page time now =>
      obtain ⟨may, rfl⟩ := step_free moved
      have pushed := kept.push may
      refine ⟨fun now' before ran => ?_, fun idle => ?_⟩
      · rw [collection] at ran
        split at ran
        · rename_i full
          cases ran
          rw [if_pos full]
          exact ⟨_, rfl, (gc_collects pushed.listed pushed.count now).1⟩
        · cases ran
      · rw [collection] at idle
        split at idle
        · cases idle
        · rename_i few
          rw [if_neg few]
          rfl
  | alloc page =>
      refine ⟨fun now before ran => (nomatch ran), fun _ => ?_⟩
      cases moved
      rfl
  | collect now =>
      have moved : s.gc now = s' := Option.some.inj moved
      rw [← moved]
      refine ⟨fun now' before ran => ?_, fun idle => nomatch idle⟩
      cases ran
      exact ⟨_, rfl, (gc_collects kept.listed kept.count now).1⟩

/-! ## The runs -/

theorem kept_start (gcThreshold : ℕ) : (start gcThreshold).Kept :=
  ⟨⟨List.nodup_nil, fun _ on => (nomatch on), fun _ on => (nomatch on)⟩, rfl, List.Perm.refl _⟩

/-- As long as every collection meets only pages that are old enough, the list is counted
and every page is accounted for.  What the next call passes to `page_free` is right, and
the state it leaves is right just when its own collection meets only such pages. -/
theorem freePages_counted (gcThreshold : ℕ) (s : Ledger)
    (reaches : Reaches Ledger.step AllOld (start gcThreshold) s) :
    s.Right ∧ ∀ call s', s.step call = some s' →
      Released s s' call ∧ (s'.Right ↔ s.AllOld call) := by
  have kept : s.Kept := reaches.invariant (kept_start gcThreshold)
    fun _ _ _ kept old moved => kept.step old moved
  exact ⟨kept.right, fun call s' moved => ⟨kept.releases moved, kept.step_right_iff moved⟩⟩

/-- The second page that is freed starts a collection of both. -/
theorem freePages_counted_twoPages :
    (⟨⟨1, 0, []⟩, [8192, 4096], [], [8192, 4096]⟩ : Ledger).Right :=
  (freePages_counted 1 _
    (.step (.step .start (by decide) (l := .free 4096 3 9) rfl)
      (by decide) (l := .free 8192 5 9) rfl)).1

/-- A page that is freed at 5 and meets a collection at 3 stays on the list and is no longer
counted. -/
theorem freePages_not_counted : ¬∀ gcThreshold s,
    Reaches Ledger.step anyStep (start gcThreshold) s → s.Right := by
  intro right
  have counted := (right 0 ⟨⟨0, 0, [⟨4096, 5⟩]⟩, [4096], [], []⟩
    (.step (.start) trivial (l := .free 4096 5 3) rfl)).count
  exact absurd counted (by decide)

end Ledger

end HybridDatabase.Allocator
