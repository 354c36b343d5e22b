/-
# Pages that are freed with a delay

`VPageAllocator` keeps freed pages with the time they were freed at.  A page is handed
out again at once; it goes back to the page allocator when there are too many of them
and it is no younger than the time that `get_time` answers.
-/

import Mathlib.Algebra.Group.Nat.Defs
import Mathlib.Data.List.Basic
import Mathlib.Data.List.Perm.Basic
import Mathlib.Logic.Function.Iterate

namespace HybridDatabase.Allocator

/-- `struct VPageAllocatorItem`: a page and its `timestamp`. -/
structure FreePage where
  page : ℕ
  timestamp : ℕ
  deriving DecidableEq, Repr

/-- `struct VPageAllocator`; the top of `free_pages` comes first. -/
structure VPageAllocator where
  gcThreshold : ℕ
  freePagesCount : ℕ
  freePages : List FreePage

/-- `atomic_inc` and `atomic_dec` of a `size_t`. -/
def atomicInc (n : ℕ) : ℕ := (n + 1) % 2 ^ 64

def atomicDec (n : ℕ) : ℕ := (n + (2 ^ 64 - 1)) % 2 ^ 64

namespace VPageAllocator

/-- `vpage_allocator_init`. -/
def init (gcThreshold : ℕ) : VPageAllocator := ⟨gcThreshold, 0, []⟩

/-- `vpage_allocator_alloc`, where `page_alloc` would answer `page`. -/
def alloc (page : ℕ) (A : VPageAllocator) : ℕ × VPageAllocator :=
  match A.freePages with
  | [] => (page, A)
  | item :: rest => (item.page, ⟨A.gcThreshold, atomicDec A.freePagesCount, rest⟩)

/-- The loop of `_vpage_allocator_gc`: the pages that stay with their count, and the
pages passed to `page_free`.  The first page that is too young is pushed on an empty list
again, and so are the others behind it, one after another. -/
def gcLoop (time : ℕ) : List FreePage → ℕ → (List FreePage × ℕ) × List ℕ
  | [], count => (([], count), [])
  | item :: rest, count =>
      if count = 0 then ((item :: rest, count), [])
      else if item.timestamp ≤ time then
        let (left, freed) := gcLoop time rest (atomicDec count)
        (left, item.page :: freed)
      else
        let old := rest.filter fun item => item.timestamp ≤ time
        let young := rest.filter fun item => time < item.timestamp
        ((young.reverse ++ [item], atomicDec^[old.length] (atomicDec count)),
          old.map FreePage.page)

/-- `_vpage_allocator_gc`. -/
def gc (time : ℕ) (A : VPageAllocator) : VPageAllocator × List ℕ :=
  let ((freePages, count), freed) := gcLoop time A.freePages A.freePagesCount
  (⟨A.gcThreshold, count, freePages⟩, freed)

/-- `vpage_allocator_free` of a page at `time`, where `get_time` would answer `now`. -/
def free (page time now : ℕ) (A : VPageAllocator) : VPageAllocator × List ℕ :=
  let A : VPageAllocator :=
    ⟨A.gcThreshold, atomicInc A.freePagesCount, ⟨page, time⟩ :: A.freePages⟩
  if A.gcThreshold < A.freePagesCount then A.gc now else (A, [])

/-- A collection passes to `page_free` what it does not keep. -/
theorem gcLoop_perm (time : ℕ) (pages : List FreePage) (count : ℕ) :
    ((gcLoop time pages count).1.1.map FreePage.page ++ (gcLoop time pages count).2).Perm
      (pages.map FreePage.page) := by
  induction pages generalizing count with
  | nil => exact List.Perm.refl _
  | cons item rest ih =>
      rw [gcLoop]
      by_cases none : count = 0
      · rw [if_pos none, List.append_nil]
      · rw [if_neg none]
        by_cases old : item.timestamp ≤ time
        · rw [if_pos old]
          exact List.perm_middle.trans ((ih _).cons item.page)
        · rw [if_neg old]
          have split := (List.filter_append_perm (fun item : FreePage => time < item.timestamp)
            rest).map FreePage.page
          have others : (rest.filter fun item : FreePage => !decide (time < item.timestamp)) =
              rest.filter fun item => item.timestamp ≤ time := by
            refine List.filter_congr fun item _ => ?_
            rw [← decide_not, decide_eq_decide]
            omega
          rw [others, List.map_append] at split
          simp only [List.map_append, List.map_reverse, List.map_cons, List.map_nil]
          refine List.Perm.trans ?_ (split.cons item.page)
          rw [← List.cons_append]
          apply List.Perm.append_right _
          exact (List.perm_append_singleton _ _).trans ((List.reverse_perm _).cons _)

theorem free_perm (page time now : ℕ) (A : VPageAllocator) :
    ((A.free page time now).1.freePages.map FreePage.page ++ (A.free page time now).2).Perm
      (page :: A.freePages.map FreePage.page) := by
  rw [free]
  split
  · have left := gcLoop_perm now (⟨page, time⟩ :: A.freePages) (atomicInc A.freePagesCount)
    exact left
  · rw [List.append_nil]
    exact List.Perm.refl _

/-- The page that is handed out: one that was freed, or a new one. -/
theorem alloc_cases (page : ℕ) (A : VPageAllocator) :
    (A.freePages = [] ∧ A.alloc page = (page, A)) ∨
      ∃ item rest, A.freePages = item :: rest ∧ (A.alloc page).1 = item.page ∧
        (A.alloc page).2.freePages = rest := by
  unfold alloc
  cases freed : A.freePages with
  | nil => exact .inl ⟨rfl, rfl⟩
  | cons item rest => exact .inr ⟨item, rest, rfl, rfl, rfl⟩

end VPageAllocator

end HybridDatabase.Allocator
