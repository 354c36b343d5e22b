/-
# Totals over threads

Each of finitely many threads is at some stage, and each stage has a weight.  When one thread goes
to another stage, the total changes by the difference of the two weights, so that what is moved
between the threads and the rest of the state is conserved.
-/

import Mathlib.Algebra.BigOperators.Group.Finset.Basic
import Mathlib.Algebra.BigOperators.Group.Finset.Piecewise
import Mathlib.Algebra.Order.BigOperators.Group.Finset

namespace HybridDatabase.Base

universe u v w

variable {ι : Type u} {σ : Type v} {M : Type w} [Fintype ι]

/-- The weights of the stages of all threads. -/
def total [AddCommMonoid M] (weight : σ → M) (stages : ι → σ) : M := ∑ t, weight (stages t)

section Monoid

variable [AddCommMonoid M] {weight : σ → M} {stages : ι → σ}

/-- No thread has anything. -/
theorem total_zero (nothing : ∀ t, weight (stages t) = 0) : total weight stages = 0 :=
  Finset.sum_eq_zero fun t _ => nothing t

variable [DecidableEq ι]

/-- One thread apart from the others. -/
theorem total_split (weight : σ → M) (stages : ι → σ) (t : ι) :
    total weight stages = weight (stages t) + ∑ u ∈ Finset.univ.erase t, weight (stages u) :=
  (Finset.add_sum_erase _ _ (Finset.mem_univ t)).symm

/-- One thread goes on. -/
theorem total_update (weight : σ → M) (stages : ι → σ) (t : ι) (stage : σ) :
    total weight (Function.update stages t stage) + weight (stages t) =
      total weight stages + weight stage := by
  have others : ∑ u ∈ Finset.univ.erase t, weight (Function.update stages t stage u) =
      ∑ u ∈ Finset.univ.erase t, weight (stages u) :=
    Finset.sum_congr rfl fun u other => by
      rw [Function.update_of_ne (Finset.ne_of_mem_erase other)]
  rw [total_split weight _ t, total_split weight stages t, others, Function.update_self]
  ac_rfl

/-- Nobody else has anything. -/
theorem total_alone (t : ι) (nothing : ∀ u, u ≠ t → weight (stages u) = 0) :
    total weight stages = weight (stages t) := by
  rw [total_split weight stages t, Finset.sum_eq_zero, add_zero]
  exact fun u other => nothing u (Finset.ne_of_mem_erase other)

end Monoid

/-- What a thread has is nowhere else. -/
theorem total_apart {α : Type w} [DecidableEq ι] {weight : σ → Multiset α} {stages : ι → σ}
    {rest : Multiset α} (nodup : (rest + total weight stages).Nodup) {t : ι} {x : α}
    (has : x ∈ weight (stages t)) : x ∉ rest ∧ ∀ u, u ≠ t → x ∉ weight (stages u) := by
  rw [total_split _ _ t, add_left_comm] at nodup
  have apart := Multiset.disjoint_left.mp (Multiset.nodup_add.mp nodup).2.2 has
  rw [Multiset.mem_add, not_or] at apart
  obtain ⟨unplaced, others⟩ := apart
  refine ⟨unplaced, fun u other hasToo => others ?_⟩
  exact Multiset.mem_sum.mpr ⟨u, Finset.mem_erase.mpr ⟨other, Finset.mem_univ u⟩, hasToo⟩

/-- What a thread has is counted. -/
theorem mem_total {α : Type w} {weight : σ → Multiset α} {stages : ι → σ} {t : ι} {x : α}
    (has : x ∈ weight (stages t)) : x ∈ total weight stages :=
  Multiset.mem_sum.mpr ⟨t, Finset.mem_univ t, has⟩

/-- What a thread moves between itself and the rest of the state is conserved. -/
theorem total_conserved [AddCancelCommMonoid M] [DecidableEq ι] {weight : σ → M} {stages : ι → σ}
    {t : ι} {stage : σ} {rest rest' all all' : M} (before : rest + total weight stages = all)
    (moved : rest' + weight stage + all = rest + weight (stages t) + all') :
    rest' + total weight (Function.update stages t stage) = all' := by
  have update := total_update weight stages t stage
  apply add_right_cancel (b := weight (stages t) + all)
  calc rest' + total weight (Function.update stages t stage) + (weight (stages t) + all)
      = rest' + (total weight (Function.update stages t stage) + weight (stages t)) + all := by
        ac_rfl
    _ = (rest' + weight stage + all) + total weight stages := by
        rw [update]
        ac_rfl
    _ = (rest + total weight stages) + weight (stages t) + all' := by
        rw [moved]
        ac_rfl
    _ = all' + (weight (stages t) + all) := by
        rw [before]
        ac_rfl

end HybridDatabase.Base
