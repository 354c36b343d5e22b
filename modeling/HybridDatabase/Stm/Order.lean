/-
# End times

No two transactions end at the same time.  A transaction validates what it has read after it has
drawn its end time: what it finds unchanged then is not changed by any transaction that ends
before it.
-/

import HybridDatabase.Stm.Reads

namespace HybridDatabase.Stm

open HybridDatabase.Base

universe u v w

variable {ι : Type u} {Obj : Type v} {Val : Type w}

namespace Stage

/-- The end time of a transaction that has not been committed yet. -/
def pending : Stage Obj Obj Val → Option ℕ
  | .pushing endTime | .validating endTime _ => some endTime
  | _ => none

theorem ended_of_pending {stage : Stage Obj Obj Val} {e : ℕ} (pending : stage.pending = some e) :
    stage.ended = some e := by
  cases stage with
  | pushing | validating => exact pending
  | idle | running | reading | rollingBack | unlocking => cases pending

theorem not_unlocks_of_pending {stage : Stage Obj Obj Val} {e : ℕ}
    (pending : stage.pending = some e) :
    stage.unlocks = false := by
  cases stage with
  | unlocking => cases pending
  | idle | running | reading | rollingBack | pushing | validating => rfl

end Stage

namespace State

variable {A : Addresses ι} {s s' : State ι Obj Obj Val} {h h' : ι} {x : Obj} {e : ℕ}

/-! ## End times are distinct -/

/-- The handle has drawn an end time, and its transaction has not been committed yet. -/
def Pending (s : State ι Obj Obj Val) (h : ι) (endTime : ℕ) : Prop :=
  (s.handles h).stage.pending = some endTime

/-- The invariant of end times. -/
structure Distinct (s : State ι Obj Obj Val) : Prop where
  nodup : (s.committed.map Txn.endTime).Nodup
  late : ∀ t ∈ s.committed, t.endTime ≤ s.time
  started : ∀ t ∈ s.committed, t.startTime < t.endTime
  fresh : ∀ h e, s.Pending h e → e ∉ s.committed.map Txn.endTime
  unique : ∀ h h' e, s.Ended h e → s.Ended h' e → h = h'

theorem Initial.distinct (initial : Initial s) : s.Distinct where
  nodup := by
    rw [initial.committed]
    exact List.nodup_nil
  late t inside := by
    rw [initial.committed] at inside
    cases inside
  started t inside := by
    rw [initial.committed] at inside
    cases inside
  fresh h e _ := by
    rw [initial.committed]
    exact List.not_mem_nil
  unique h h' e ended := by
    rw [Ended, initial.handles h] at ended
    cases ended

variable [DecidableEq ι] [DecidableEq Obj]

theorem Move.pending (move : Move A s h s') (pending : s'.Pending h' e) :
    s.Pending h' e ∨ s.time < e := by
  by_cases here : h' = h
  · subst here
    cases move with
    | skip => exact .inl pending
    | quiet quiet =>
        have pending : (Function.update s.handles h' _ h').stage.pending = some e := pending
        rw [Function.update_self] at pending
        cases quiet with
        | nested | nestedCommit | unchecked => exact .inl pending
        | validated validating => exact .inl ((congrArg Stage.pending validating).trans pending)
        | trBegin | load | checked | failed | nestedAbort | mainAbort | nestedUndone | cleanup =>
            cases pending
    | lock | write | undo | unlock =>
        have pending : (Function.update s.handles h' _ h').stage.pending = some e := pending
        rw [Function.update_self] at pending
        exact .inl pending
    | draw =>
        have pending : (Function.update s.handles h' _ h').stage.pending = some e := pending
        rw [Function.update_self] at pending
        obtain rfl := Option.some.inj pending
        exact .inr (Nat.lt_add_of_pos_right (by omega))
    | push pushing =>
        have pending : (Function.update s.handles h' _ h').stage.pending = some e := pending
        rw [Function.update_self] at pending
        exact .inl ((congrArg Stage.pending pushing).trans pending)
    | commitReader | commit | undone =>
        have pending : (Function.update s.handles h' _ h').stage.pending = some e := pending
        rw [Function.update_self] at pending
        cases pending
  · rw [Pending, move.other here] at pending
    exact .inl pending

/-- The handle that commits is not pending any more. -/
theorem Move.not_pending (move : Move A s h s') {t : Txn Obj Val}
    (more : s'.committed = s.committed ++ [t]) : ¬ s'.Pending h e := by
  intro pending
  cases move with
  | skip | quiet | lock | write | commitReader | draw | push | undo | undone | unlock =>
      have more : s.committed = s.committed ++ [t] := more
      exact absurd (List.self_eq_append_right.mp more) (List.cons_ne_nil _ _)
  | commit =>
      have pending : (Function.update s.handles h _ h).stage.pending = some e := pending
      rw [Function.update_self] at pending
      cases pending

theorem Distinct.move (distinct : s.Distinct) (locked : Locked A s) (move : Move A s h s') :
    s'.Distinct := by
  have late {h' : ι} {e : ℕ} (ended : s.Ended h' e) : e ≤ s.time :=
    ((locked.timed h').ended e ended).2.1
  have unique : ∀ h₁ h₂ e, s'.Ended h₁ e → s'.Ended h₂ e → h₁ = h₂ := by
    intro h₁ h₂ e first second
    rcases move.ended locked first with older | later
    · rcases move.ended locked second with older' | later
      · exact distinct.unique h₁ h₂ e older older'
      · exact absurd (late older) (by omega)
    · have mover {h' : ι} (ended : s'.Ended h' e) : h' = h := by
        by_contra other
        rw [Ended, move.other other] at ended
        exact absurd (late ended) (by omega)
      rw [mover first, mover second]
  rcases move.committed with same | ⟨endTime, validated, more⟩
  · refine ⟨same ▸ distinct.nodup, fun t inside =>
      Nat.le_trans (distinct.late t (same ▸ inside)) move.time_mono,
      fun t inside => distinct.started t (same ▸ inside), fun h' e pending => ?_, unique⟩
    rw [same]
    rcases move.pending pending with older | later
    · exact distinct.fresh h' e older
    · intro inside
      obtain ⟨t, older, rfl⟩ := List.mem_map.mp inside
      exact absurd (distinct.late t older) (by omega)
  · have drawn : s.Pending h endTime := by rw [Pending, validated]; rfl
    have last : ((s.handles h).txn endTime).endTime = endTime := rfl
    refine ⟨?_, fun t inside => ?_, fun t inside => ?_, fun h' e pending => ?_, unique⟩
    · rw [more, List.map_append, List.map_singleton, last]
      exact List.nodup_append.mpr ⟨distinct.nodup, List.pairwise_singleton _ _, fun a inside b last =>
        fun same => distinct.fresh h endTime drawn (List.mem_singleton.mp last ▸ same ▸ inside)⟩
    · rw [more] at inside
      refine Nat.le_trans ?_ move.time_mono
      rcases List.mem_append.mp inside with older | last
      · exact distinct.late t older
      · rw [List.mem_singleton.mp last]
        exact late (Stage.ended_of_pending drawn)
    · rw [more] at inside
      rcases List.mem_append.mp inside with older | last
      · exact distinct.started t older
      · rw [List.mem_singleton.mp last]
        exact ((locked.timed h).ended endTime (Stage.ended_of_pending drawn)).1
    · have other : h' ≠ h := fun same => move.not_pending more (same ▸ pending)
      rw [Pending, move.other other] at pending
      rw [more, List.map_append, List.map_singleton, List.mem_append, List.mem_singleton, last]
      rintro (older | rfl)
      · exact distinct.fresh h' e pending older
      · exact other (distinct.unique h' h e (Stage.ended_of_pending pending)
          (Stage.ended_of_pending drawn))

end State

end HybridDatabase.Stm
