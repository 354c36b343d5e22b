/-
# What transactions do

A transaction reads and writes objects, and opens, commits and aborts nested transactions.
What counts of it at its end are the writes that no nested abort has taken back, and of its
reads those that stand outside of the nested transactions that were aborted.

Transactions executed one after another lead from one memory to another.  What stands in an
object depends only on the transactions that write to it, in the order of their writes.
-/

import Mathlib.Data.List.Basic
import Mathlib.Data.List.Induction
import Mathlib.Data.List.Pairwise
import Mathlib.Data.List.Perm.Basic
import Mathlib.Logic.Function.Basic

namespace HybridDatabase.Stm

universe u v

variable {Obj : Type u} {Val : Type v}

/-! ## Events -/

/-- What a transaction does; reads are those that succeed. -/
inductive Event (Obj : Type u) (Val : Type v)
  | read (x : Obj) (value : Val)
  | write (x : Obj) (value : Val)
  | trBegin
  | trCommit
  | trAbort
  deriving DecidableEq, Repr

/-- What counts of a transaction: its writes, and the places of its reads among its events.
`marks` are how many there were of both when the nested transactions that are open began. -/
structure Own (Obj : Type u) (Val : Type v) where
  size : ℕ
  reads : List ℕ
  writes : List (Obj × Val)
  marks : List (ℕ × ℕ)

namespace Own

def empty : Own Obj Val := ⟨0, [], [], []⟩

/-- What the next event makes of it. -/
def add (o : Own Obj Val) : Event Obj Val → Own Obj Val
  | .read _ _ =>
      { o with
        size := o.size + 1
        reads := o.reads ++ [o.size] }
  | .write x value =>
      { o with
        size := o.size + 1
        writes := o.writes ++ [(x, value)] }
  | .trBegin =>
      { o with
        size := o.size + 1
        marks := (o.reads.length, o.writes.length) :: o.marks }
  | .trCommit =>
      { o with
        size := o.size + 1
        marks := o.marks.tail }
  | .trAbort =>
      { size := o.size + 1
        reads := o.reads.take (o.marks.headD (0, 0)).1
        writes := o.writes.take (o.marks.headD (0, 0)).2
        marks := o.marks.tail }

end Own

/-- What counts after some events. -/
def own (events : List (Event Obj Val)) : Own Obj Val := events.foldl Own.add Own.empty

@[simp]
theorem own_nil : own ([] : List (Event Obj Val)) = Own.empty := rfl

@[simp]
theorem own_concat (events : List (Event Obj Val)) (event : Event Obj Val) :
    own (events ++ [event]) = (own events).add event := by
  rw [own, List.foldl_append]
  rfl

theorem size_own (events : List (Event Obj Val)) : (own events).size = events.length := by
  induction events using List.reverseRecOn with
  | nil => rfl
  | append_singleton events event ih =>
      rw [own_concat, List.length_append, List.length_singleton, ← ih]
      cases event <;> rfl

/-- The marks are sorted, and none lies behind the end. -/
structure Own.Sorted (o : Own Obj Val) : Prop where
  within : ∀ m ∈ o.marks, m.1 ≤ o.reads.length ∧ m.2 ≤ o.writes.length
  order : o.marks.Pairwise fun newer older => older.1 ≤ newer.1 ∧ older.2 ≤ newer.2

theorem Own.Sorted.tail {o : Own Obj Val} (sorted : o.Sorted) :
    ({ o with marks := o.marks.tail } : Own Obj Val).Sorted :=
  ⟨fun m inside => sorted.within m (List.mem_of_mem_tail inside), sorted.order.tail⟩

theorem sorted_own (events : List (Event Obj Val)) : (own events).Sorted := by
  induction events using List.reverseRecOn with
  | nil => exact ⟨fun m inside => absurd inside List.not_mem_nil, List.Pairwise.nil⟩
  | append_singleton events event ih =>
      rw [own_concat]
      cases event with
      | read x value =>
          refine ⟨fun m inside => ?_, ih.order⟩
          have within := ih.within m inside
          simp only [Own.add, List.length_append, List.length_singleton]
          omega
      | write x value =>
          refine ⟨fun m inside => ?_, ih.order⟩
          have within := ih.within m inside
          simp only [Own.add, List.length_append, List.length_singleton]
          omega
      | trBegin =>
          refine ⟨fun m inside => ?_, List.pairwise_cons.mpr ⟨ih.within, ih.order⟩⟩
          rcases List.mem_cons.mp inside with rfl | older
          · exact ⟨Nat.le_refl _, Nat.le_refl _⟩
          · exact ih.within m older
      | trCommit => exact ⟨ih.tail.within, ih.tail.order⟩
      | trAbort =>
          refine ⟨fun m inside => ?_, ih.order.tail⟩
          cases marks : (own events).marks with
          | nil =>
              simp only [Own.add, marks, List.tail_nil] at inside
              cases inside
          | cons newest older =>
              simp only [Own.add, marks, List.tail_cons, List.headD_cons, List.length_take]
                at inside ⊢
              have order := (List.pairwise_cons.mp (marks ▸ ih.order)).1 m inside
              have within := ih.within m (marks ▸ List.mem_cons_of_mem _ inside)
              omega

/-- A read that counts is one of the events. -/
theorem exists_of_mem_reads {events : List (Event Obj Val)} {k : ℕ} (inside : k ∈ (own events).reads) :
    ∃ x value, events[k]? = some (.read x value) := by
  induction events using List.reverseRecOn with
  | nil => cases inside
  | append_singleton events event ih =>
      have older (before : k ∈ (own events).reads) :
          ∃ x value, (events ++ [event])[k]? = some (.read x value) := by
        obtain ⟨x, value, at_⟩ := ih before
        exact ⟨x, value, List.getElem?_append_left (List.getElem?_eq_some_iff.mp at_).1 ▸ at_⟩
      rw [own_concat] at inside
      cases event with
      | read x value =>
          rcases List.mem_append.mp inside with before | last
          · exact older before
          · rw [List.mem_singleton.mp last, size_own]
            exact ⟨x, value, List.getElem?_concat_length⟩
      | write x value => exact older inside
      | trBegin => exact older inside
      | trCommit => exact older inside
      | trAbort => exact older (List.mem_of_mem_take inside)

/-! ## The order of end times -/

/-- A transaction that has ended. -/
structure Txn (Obj : Type u) (Val : Type v) where
  startTime : ℕ
  endTime : ℕ
  events : List (Event Obj Val)
  deriving DecidableEq, Repr

variable {txns txns' : List (Txn Obj Val)}

/-- Transactions stand in the order of their end times. -/
def ByEndTime (txns : List (Txn Obj Val)) : Prop :=
  txns.Pairwise fun t t' => t.endTime < t'.endTime

/-- Two orders of the same transactions by end times are one. -/
theorem ByEndTime.eq_of_perm (first : ByEndTime txns) (second : ByEndTime txns')
    (perm : txns.Perm txns') : txns = txns' :=
  perm.eq_of_pairwise (fun _ _ _ _ less more => absurd (Nat.lt_trans less more) (Nat.lt_irrefl _))
    first second

/-- What stands before a transaction are those with an earlier end time. -/
theorem ByEndTime.take_eq_filter (sorted : ByEndTime txns) {i : ℕ} {t : Txn Obj Val}
    (at_ : txns[i]? = some t) : txns.take i = txns.filter (·.endTime < t.endTime) := by
  obtain ⟨inside, here⟩ := List.getElem?_eq_some_iff.mp at_
  have split : txns.take i ++ t :: txns.drop (i + 1) = txns := by
    rw [← here, ← List.drop_eq_getElem_cons inside, List.take_append_drop]
  obtain ⟨-, above, below⟩ := List.pairwise_append.mp (split ▸ sorted : ByEndTime _)
  conv_rhs => rw [← split, List.filter_append]
  have before : (txns.take i).filter (·.endTime < t.endTime) = txns.take i :=
    List.filter_eq_self.mpr fun t' inside =>
      decide_eq_true (below t' inside t List.mem_cons_self)
  have after : (t :: txns.drop (i + 1)).filter (·.endTime < t.endTime) = [] := by
    refine List.filter_eq_nil_iff.mpr fun t' inside => ?_
    rw [decide_eq_true_iff]
    rcases List.mem_cons.mp inside with rfl | later
    · exact Nat.lt_irrefl _
    · exact Nat.lt_asymm ((List.pairwise_cons.mp above).1 t' later)
  rw [before, after, List.append_nil]

/-! ## Executions -/

section Execution

variable [DecidableEq Obj]

/-- Writes one after another. -/
def apply (m : Obj → Val) (writes : List (Obj × Val)) : Obj → Val :=
  writes.foldl (fun m write => Function.update m write.1 write.2) m

variable {m m' : Obj → Val} {writes : List (Obj × Val)} {x : Obj}

@[simp]
theorem apply_nil (m : Obj → Val) : apply m [] = m := rfl

theorem apply_concat (m : Obj → Val) (writes : List (Obj × Val)) (write : Obj × Val) :
    apply m (writes ++ [write]) = Function.update (apply m writes) write.1 write.2 := by
  rw [apply, List.foldl_append]
  rfl

/-- What stands in an object depends on what stood there. -/
theorem apply_congr (same : m x = m' x) : apply m writes x = apply m' writes x := by
  induction writes using List.reverseRecOn with
  | nil => exact same
  | append_singleton writes write ih =>
      rw [apply_concat, apply_concat]
      by_cases here : x = write.1
      · rw [here, Function.update_self, Function.update_self]
      · rw [Function.update_of_ne here, Function.update_of_ne here, ih]

theorem apply_of_notMem (untouched : x ∉ writes.map Prod.fst) : apply m writes x = m x := by
  induction writes using List.reverseRecOn with
  | nil => rfl
  | append_singleton writes write ih =>
      rw [List.map_append, List.mem_append, not_or] at untouched
      have other : x ≠ write.1 := fun here => untouched.2 (here ▸ List.mem_singleton_self _)
      rw [apply_concat, Function.update_of_ne other, ih untouched.1]

namespace Txn

/-- A write to the object counts. -/
def Writes (t : Txn Obj Val) (x : Obj) : Prop := x ∈ (own t.events).writes.map Prod.fst

instance (t : Txn Obj Val) (x : Obj) : Decidable (t.Writes x) :=
  inferInstanceAs (Decidable (x ∈ _))

/-- Memory after the transaction. -/
def run (m : Obj → Val) (t : Txn Obj Val) : Obj → Val := apply m (own t.events).writes

end Txn

/-- Transactions one after another. -/
def serial (m : Obj → Val) (txns : List (Txn Obj Val)) : Obj → Val := txns.foldl Txn.run m

/-- The transactions that write to an object. -/
def writers (x : Obj) (txns : List (Txn Obj Val)) : List (Txn Obj Val) :=
  txns.filter fun t => t.Writes x

theorem serial_concat (m : Obj → Val) (txns : List (Txn Obj Val)) (t : Txn Obj Val) :
    serial m (txns ++ [t]) = t.run (serial m txns) := by
  rw [serial, List.foldl_append]
  rfl

theorem run_of_not_writes {t : Txn Obj Val} (not : ¬ t.Writes x) : t.run m x = m x :=
  apply_of_notMem not

theorem writers_concat_of_writes {t : Txn Obj Val} (writes : t.Writes x) :
    writers x (txns ++ [t]) = writers x txns ++ [t] := by
  rw [writers, List.filter_append, List.filter_cons_of_pos (by simpa using writes),
    List.filter_nil]
  rfl

theorem writers_concat_of_not_writes {t : Txn Obj Val} (not : ¬ t.Writes x) :
    writers x (txns ++ [t]) = writers x txns := by
  rw [writers, List.filter_append, List.filter_cons_of_neg (by simpa using not), List.filter_nil,
    List.append_nil]
  rfl

theorem mem_writers {t : Txn Obj Val} : t ∈ writers x txns ↔ t ∈ txns ∧ t.Writes x := by
  rw [writers, List.mem_filter, decide_eq_true_iff]

/-- Only the writers of an object matter for what stands in it. -/
theorem serial_writers (m : Obj → Val) (txns : List (Txn Obj Val)) (x : Obj) :
    serial m (writers x txns) x = serial m txns x := by
  induction txns using List.reverseRecOn with
  | nil => rfl
  | append_singleton txns t ih =>
      rw [serial_concat]
      by_cases writes : t.Writes x
      · rw [writers_concat_of_writes writes, serial_concat]
        exact apply_congr ih
      · rw [writers_concat_of_not_writes writes, run_of_not_writes writes]
        exact ih

theorem serial_eq_of_writers (same : writers x txns = writers x txns') :
    serial m txns x = serial m txns' x := by
  rw [← serial_writers m txns, ← serial_writers m txns', same]

end Execution

end HybridDatabase.Stm
