/-
# Nested transactions

The abort of a nested transaction takes back its part of the read set, so that commits do not
validate what only it has read.  With nested transactions the serial execution reproduces the
reads outside of those that were aborted, and may contradict the others.
-/

import HybridDatabase.Stm.Flat
import Mathlib.Data.List.Permutation

namespace HybridDatabase.Stm.State

open HybridDatabase.Base

universe u v w

variable {ι : Type u} {Obj : Type v} {Val : Type w} [DecidableEq ι] [DecidableEq Obj]
  {A : Addresses ι} {s s' : State ι Obj Obj Val}

/-- With nested transactions the reads that count are reproduced. -/
theorem serializable_counting (initial : Initial s) (reaches : Reaches (step A id) anyStep s s') :
    Serializable (fun t k => k ∈ (own t.events).reads) s.memory s' :=
  (Sound.of_reaches initial reaches).serial

/-- Both transactions read what the other one writes, in nested transactions that they abort. -/
def writeSkew : List (Bool × Action Bool Bool ℕ) :=
  [(true, .trBegin), (false, .trBegin), (true, .trBegin), (true, .load false), (true, .advance),
    (true, .trAbort), (true, .advance), (false, .trBegin), (false, .load true),
    (false, .advance), (false, .trAbort), (false, .advance), (true, .utilLock true),
    (true, .write true 7), (false, .utilLock false), (false, .write false 8),
    (true, .trCommit), (true, .advance), (true, .advance), (true, .advance), (true, .advance),
    (false, .trCommit), (false, .advance), (false, .advance), (false, .advance),
    (false, .advance)]

theorem serializable_counting_writeSkew :
    ∃ t, runSteps (step twoHandles id) (fresh Bool Bool Bool) writeSkew = some t ∧
      t.committed.length = 2 ∧
      Serializable (fun t k => k ∈ (own t.events).reads) (fresh Bool Bool Bool).memory t := by
  have reaches := reaches_of_runSteps (.start (s := fresh Bool Bool Bool)) (fun _ _ _ => trivial)
    (show runSteps (step twoHandles id) _ writeSkew = some _ from rfl)
  exact ⟨_, rfl, rfl, serializable_counting (fresh_initial Bool Bool Bool) reaches⟩

/-- No order of the two transactions reproduces what both have read. -/
theorem writeSkew_not_serial :
    ∃ t, Reaches (step twoHandles id) anyStep (fresh Bool Bool Bool) t ∧
      ∀ order : List (Txn Bool ℕ), order.Perm t.committed → ¬ ∀ (i : ℕ) txn, order[i]? = some txn → ∀ k,
        Returns (serial (fresh Bool Bool Bool).memory (order.take i)) txn.events k := by
  have reaches := reaches_of_runSteps (.start (s := fresh Bool Bool Bool)) (fun _ _ _ => trivial)
    (show runSteps (step twoHandles id) _ writeSkew = some _ from rfl)
  refine ⟨_, reaches, fun order perm returns => ?_⟩
  obtain rfl | rfl : order = _ ∨ order = _ := List.perm_pair.mp perm
  · cases returns 1 _ rfl 1 true 0 rfl
  · cases returns 1 _ rfl 1 false 0 rfl

end HybridDatabase.Stm.State
