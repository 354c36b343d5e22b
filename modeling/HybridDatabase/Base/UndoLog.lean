/-
# Undo logs with marks

A state is changed in steps, and every change appends items to a log that undo it when
they are applied in the opposite order.  Marks are lengths of the log to which the
state can be rolled back, the newest one first.

`HoldsAtMarks` is the invariant for such a log: a property of the log and the state
that holds now and wherever a rollback to a mark leads.
-/

import Mathlib.Data.List.Basic

namespace HybridDatabase.Base

universe u v

variable {σ : Type u} {ι : Type v} (undo : σ → ι → σ)

/-- Undo items, the last one first. -/
def rollback (s : σ) (items : List ι) : σ := items.foldr (fun item s => undo s item) s

@[simp]
theorem rollback_nil (s : σ) : rollback undo s [] = s := rfl

@[simp]
theorem rollback_singleton (s : σ) (item : ι) : rollback undo s [item] = undo s item := rfl

theorem rollback_append (s : σ) (items items' : List ι) :
    rollback undo s (items ++ items') = rollback undo (rollback undo s items') items :=
  List.foldr_append

/-- A rollback of what is left above a position after a rollback. -/
theorem rollback_take (s : σ) (log : List ι) {bottom pos : ℕ} (le : bottom ≤ pos)
    (short : pos ≤ log.length) :
    rollback undo (rollback undo s (log.drop pos)) ((log.take pos).drop bottom) =
      rollback undo s (log.drop bottom) := by
  have split : log.drop bottom = (log.take pos).drop bottom ++ log.drop pos := by
    conv_lhs => rw [← List.take_append_drop pos log]
    rw [List.drop_append_of_le_length (by rw [List.length_take]; omega)]
  rw [split, rollback_append]

/-- A property of the log and the state, now and at every mark. -/
structure HoldsAtMarks (P : List ι → σ → Prop) (log : List ι) (marks : List ℕ) (s : σ) : Prop where
  now : P log s
  within : ∀ mark ∈ marks, mark ≤ log.length
  marked : ∀ mark ∈ marks, P (log.take mark) (rollback undo s (log.drop mark))
  sorted : marks.Pairwise (fun newer older => older ≤ newer)

namespace HoldsAtMarks

variable {undo} {P Q : List ι → σ → Prop} {log items : List ι} {marks : List ℕ} {mark : ℕ}
  {s s' : σ}

theorem start (now : P log s) : HoldsAtMarks undo P log [] s where
  now := now
  within := by simp
  marked := by simp
  sorted := List.Pairwise.nil

/-- Another property of logs that are not longer. -/
theorem impOfLe (h : HoldsAtMarks undo P log marks s)
    (weaker : ∀ log' s, log'.length ≤ log.length → P log' s → Q log' s) :
    HoldsAtMarks undo Q log marks s where
  now := weaker _ _ (Nat.le_refl _) h.now
  within := h.within
  marked mark inside := weaker _ _ (List.length_take_le' _ _) (h.marked mark inside)
  sorted := h.sorted

theorem imp (h : HoldsAtMarks undo P log marks s) (weaker : ∀ log s, P log s → Q log s) :
    HoldsAtMarks undo Q log marks s :=
  h.impOfLe fun log s _ => weaker log s

/-- A change whose items undo it. -/
theorem write (h : HoldsAtMarks undo P log marks s) (undone : rollback undo s' items = s)
    (now : P (log ++ items) s') : HoldsAtMarks undo P (log ++ items) marks s' where
  now := now
  within mark inside := by
    have := h.within mark inside
    rw [List.length_append]
    omega
  marked mark inside := by
    have short := h.within mark inside
    rw [List.take_append_of_le_length short, List.drop_append_of_le_length short, rollback_append,
      undone]
    exact h.marked mark inside
  sorted := h.sorted

/-- A new mark at the end of the log. -/
theorem setMark (h : HoldsAtMarks undo P log marks s) :
    HoldsAtMarks undo P log (log.length :: marks) s where
  now := h.now
  within := by
    intro mark inside
    rcases List.mem_cons.mp inside with rfl | older
    · exact Nat.le_refl _
    · exact h.within mark older
  marked := by
    intro mark inside
    rcases List.mem_cons.mp inside with rfl | older
    · rw [List.take_length, List.drop_length]
      exact h.now
    · exact h.marked mark older
  sorted := List.pairwise_cons.mpr ⟨h.within, h.sorted⟩

/-- Giving up the newest mark. -/
theorem forget (h : HoldsAtMarks undo P log (mark :: marks) s) :
    HoldsAtMarks undo P log marks s where
  now := h.now
  within older inside := h.within older (List.mem_cons_of_mem mark inside)
  marked older inside := h.marked older (List.mem_cons_of_mem mark inside)
  sorted := (List.pairwise_cons.mp h.sorted).2

/-- A rollback to the newest mark. -/
theorem rollback (h : HoldsAtMarks undo P log (mark :: marks) s) :
    HoldsAtMarks undo P (log.take mark) marks (Base.rollback undo s (log.drop mark)) where
  now := h.marked mark List.mem_cons_self
  within older inside := by
    have first := h.within mark List.mem_cons_self
    have order := (List.pairwise_cons.mp h.sorted).1 older inside
    rw [List.length_take]
    omega
  marked older inside := by
    have order := (List.pairwise_cons.mp h.sorted).1 older inside
    have earlier := h.marked older (List.mem_cons_of_mem mark inside)
    rw [← rollback_take undo s log order (h.within mark List.mem_cons_self)] at earlier
    rwa [List.take_take, Nat.min_eq_left order]
  sorted := (List.pairwise_cons.mp h.sorted).2

end HoldsAtMarks

end HybridDatabase.Base
