/-
# The atomic list

Any number of threads push to a list, pop from it and swap it with lists of their own.  The
first pointer of the list is its lock as well: a thread takes it by exchanging it for the
marker `-1`, and puts another pointer in the place of the marker.  A step is one atomic
exchange or one plain access to an item.

Besides the memory there is an account of the list: the items on it, the items given to it
and taken from it so far, and the items that belong to a call that has not returned.
-/

import Mathlib.Data.List.Perm.Basic
import HybridDatabase.Base.Chain
import HybridDatabase.Base.Runs

namespace HybridDatabase.Utils

open HybridDatabase.Base

/-- `struct SList *`. -/
abbrev SListPointer := UInt64

namespace SList

/-- `NULL`. -/
def null : SListPointer := 0

/-- `(void*)-1`. -/
def marker : SListPointer := -1

theorem null_ne_marker : null ≠ marker := by decide

/-- Where a thread is in `slist_atomic_pop`, `slist_atomic_push` and `slist_atomic_swap`. -/
inductive Stage
  /-- Outside of them. -/
  | idle
  /-- In `slistGetFirst`. -/
  | popGet
  /-- In front of `item ? item->next : 0`. -/
  | popNext (item : SListPointer)
  /-- In front of the last exchange. -/
  | popSwap (item next : SListPointer)
  /-- In front of `return item`. -/
  | popped (item : SListPointer)
  | pushGet (item : SListPointer)
  /-- In front of the store to `item->next`. -/
  | pushStore (item first : SListPointer)
  /-- In front of the test of `item->next`. -/
  | pushTest (item : SListPointer)
  | pushSwap (item : SListPointer)
  | swapGet (headB : SListPointer)
  /-- In front of reading `head_b->next`. -/
  | swapNext (headB first : SListPointer)
  | swapSwap (headB first next : SListPointer)
  /-- In front of `*head_b = tmp`. -/
  | swapStore (headB first : SListPointer)
  /-- In front of the return. -/
  | swapped (headB : SListPointer)
  deriving DecidableEq, Repr

/-- The pointer that the next step follows. -/
def Stage.follows : Stage → Option SListPointer
  | .popNext item => if item = null then none else some item
  | .pushStore item _ | .pushTest item => some item
  | .swapNext headB _ | .swapStore headB _ => some headB
  | _ => none

/-- The first pointer of the list, where the thread has taken it. -/
def Stage.held (next : SListPointer → SListPointer) : Stage → Option SListPointer
  | .popNext item | .popSwap item _ => some item
  | .pushStore _ first => if first = marker then none else some first
  | .pushTest item => if next item = marker then none else some (next item)
  | .pushSwap item => some (next item)
  | .swapNext _ first | .swapSwap _ first _ => some first
  | _ => none

variable {ι : Type}

/-- The memory of the `struct SList`s, and the threads. -/
structure Threads (ι : Type) where
  next : SListPointer → SListPointer
  stages : ι → Stage

namespace Threads

variable [DecidableEq ι]

/-- Store to `a->next`. -/
def store (s : Threads ι) (a p : SListPointer) : Threads ι :=
  { s with next := Function.update s.next a p }

def goto (s : Threads ι) (t : ι) (stage : Stage) : Threads ι :=
  { s with stages := Function.update s.stages t stage }

/-- One step of thread `t`. -/
def step (head : SListPointer) (s : Threads ι) (t : ι) : Option (Threads ι) :=
  match s.stages t with
  | .idle => none
  | .popGet =>
      let var := s.next head
      some ((s.store head marker).goto t (if var = marker then .popGet else .popNext var))
  | .popNext item => some (s.goto t (.popSwap item (if item ≠ null then s.next item else null)))
  | .popSwap item next => some ((s.store head next).goto t (.popped item))
  | .popped _ => some (s.goto t .idle)
  | .pushGet item =>
      let var := s.next head
      some ((s.store head marker).goto t (.pushStore item var))
  | .pushStore item first => some ((s.store item first).goto t (.pushTest item))
  | .pushTest item =>
      some (s.goto t (if s.next item = marker then .pushGet item else .pushSwap item))
  | .pushSwap item => some ((s.store head item).goto t .idle)
  | .swapGet headB =>
      let var := s.next head
      some ((s.store head marker).goto t
        (if var = marker then .swapGet headB else .swapNext headB var))
  | .swapNext headB first => some (s.goto t (.swapSwap headB first (s.next headB)))
  | .swapSwap headB first next => some ((s.store head next).goto t (.swapStore headB first))
  | .swapStore headB first => some ((s.store headB first).goto t (.swapped headB))
  | .swapped _ => some (s.goto t .idle)

end Threads

/-! ## The account -/

/-- What is on the list, what was given to it and taken from it, what belongs to the calls
that have not returned, and whether the list has been empty since they began. -/
structure Account (ι : Type) where
  items : List SListPointer
  given : List SListPointer
  taken : List SListPointer
  mine : ι → List SListPointer
  empty : ι → Bool

namespace Account

def init : Account ι := ⟨[], [], [], fun _ => [], fun _ => false⟩

/-- The item is neither on the list nor in use by a call. -/
def Free (a : Account ι) (head p : SListPointer) : Prop :=
  p ≠ head ∧ p ∉ a.items ∧ ∀ t, p ∉ a.mine t

/-- The items are where the account says, each in one place. -/
structure Placed (head : SListPointer) (a : Account ι) : Prop where
  apart : ∀ t u, t ≠ u → ∀ p ∈ a.mine t, p ∉ a.mine u
  outside : ∀ t, ∀ p ∈ a.mine t, p ∉ a.items ∧ p ≠ head ∧ p ≠ null ∧ p ≠ marker
  inside : ∀ p ∈ a.items, p ≠ head ∧ p ≠ null ∧ p ≠ marker

theorem placed_init (head : SListPointer) : (init : Account ι).Placed head where
  apart _ _ _ _ none := (nomatch none)
  outside _ _ none := (nomatch none)
  inside _ none := (nomatch none)

variable [DecidableEq ι]

/-- A call begins. -/
def begin (a : Account ι) (t : ι) (nodes : List SListPointer) : Account ι :=
  { a with
    mine := Function.update a.mine t nodes
    empty := Function.update a.empty t a.items.isEmpty }

/-- What the last exchange of a call does to the list; the items of a call are its own until
it returns. -/
def exchange (a : Account ι) (t : ι) : Stage → Account ι
  | .popSwap item _ =>
      { a with
        items := a.items.tail
        taken := a.taken ++ if item ≠ null then [item] else [] }
  | .pushSwap item =>
      { a with
        items := item :: a.items
        given := a.given ++ [item]
        mine := Function.update a.mine t [] }
  | .swapSwap headB _ _ =>
      { a with
        items := (a.mine t).tail
        given := a.given ++ (a.mine t).tail
        taken := a.taken ++ a.items
        mine := Function.update a.mine t (headB :: a.items) }
  | .swapped _ => { a with mine := Function.update a.mine t [] }
  | _ => a

/-- After a step of thread `t` from a stage. -/
def after (a : Account ι) (t : ι) (stage : Stage) : Account ι :=
  let a := a.exchange t stage
  { a with empty := fun u => a.empty u || a.items.isEmpty }

end Account

/-! ## The calls -/

section Calls

variable [DecidableEq ι]

/-- Calls of the functions, the steps of the threads, and plain stores to items that are not
in use. -/
inductive Label (ι : Type)
  | pop (t : ι)
  | push (t : ι) (item : SListPointer)
  /-- `items` is what `head_b` leads to. -/
  | swap (t : ι) (headB : SListPointer) (items : List SListPointer)
  | step (t : ι)
  | store (a p : SListPointer)

/-- One step of the threads with their account. -/
def step (head : SListPointer) (S : Threads ι × Account ι) : Label ι →
    Option (Threads ι × Account ι)
  | .pop t => if S.1.stages t = .idle then some (S.1.goto t .popGet, S.2.begin t []) else none
  | .push t item =>
      if S.1.stages t = .idle then some (S.1.goto t (.pushGet item), S.2.begin t [item]) else none
  | .swap t headB items =>
      if S.1.stages t = .idle then some (S.1.goto t (.swapGet headB), S.2.begin t (headB :: items))
      else none
  | .step t => (S.1.step head t).map fun s => (s, S.2.after t (S.1.stages t))
  | .store a p => some (S.1.store a p, S.2)

end Calls

/-- The callers push items that are on no list, and swap with lists of their own. -/
def Allowed (head : SListPointer) (S : Threads ι × Account ι) : Label ι → Prop
  | .pop _ | .step _ => True
  | .push _ item => item ≠ null ∧ item ≠ marker ∧ S.2.Free head item
  | .swap _ headB items =>
      headB ≠ null ∧ headB ∉ items ∧ Chain S.1.next null (S.1.next headB) items ∧
        ∀ p ∈ headB :: items, p ≠ marker ∧ S.2.Free head p
  | .store a _ => S.2.Free head a

/-! ## What holds in every run -/

/-- What belongs to a call, at each stage. -/
def Stage.Shape (next : SListPointer → SListPointer) (mine : List SListPointer) (empty : Bool) :
    Stage → Prop
  | .idle | .popGet | .popNext _ => mine = []
  | .popSwap item after => mine = [] ∧ after = if item ≠ null then next item else null
  | .popped item => mine = [] ∧ item ≠ marker ∧ (item = null → empty = true)
  | .pushGet item | .pushStore item _ | .pushTest item | .pushSwap item => mine = [item]
  | .swapGet headB | .swapNext headB _ | .swapped headB =>
      ∃ items, mine = headB :: items ∧ headB ∉ items ∧ Chain next null (next headB) items
  | .swapSwap headB _ first | .swapStore headB first =>
      ∃ items, mine = headB :: items ∧ headB ∉ items ∧ Chain next null first items

/-- The first pointer of the list, where thread `t` has taken it. -/
def Threads.held (s : Threads ι) (t : ι) : Option SListPointer := (s.stages t).held s.next

/-- Where the first pointer of the list is: in the head, or with one thread. -/
inductive Front (head : SListPointer) (s : Threads ι) (items : List SListPointer) : Prop
  | free (nobody : ∀ t, s.held t = none) (chain : Chain s.next null (s.next head) items)
  | held (t : ι) (p : SListPointer) (holds : s.held t = some p)
      (others : ∀ u, u ≠ t → s.held u = none) (marked : s.next head = marker)
      (chain : Chain s.next null p items)

/-- The invariant. -/
structure Sound (head : SListPointer) (s : Threads ι) (a : Account ι) : Prop where
  placed : a.Placed head
  shape : ∀ t, (s.stages t).Shape s.next (a.mine t) (a.empty t)
  front : Front head s a.items
  seen : ∀ t, s.stages t ≠ .idle → a.items = [] → a.empty t = true
  whole : (a.taken ++ a.items).Perm a.given

end SList

end HybridDatabase.Utils
