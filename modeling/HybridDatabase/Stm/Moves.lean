/-
# The moves of a handle

What a step can do, said once.  Most steps only change the handle that makes them and are
`Quiet`; the others are listed with what they change of the rest.
-/

import HybridDatabase.Stm.Machine

namespace HybridDatabase.Stm

open HybridDatabase.Base

universe u v w

variable {ι : Type u} {Obj : Type v} {Val : Type w}

/-! ## Stages -/

namespace Stage

variable {Lk : Type u} {Cell : Type v}

/-- The end time that has been drawn. -/
def ended : Stage Lk Cell Val → Option ℕ
  | .pushing endTime | .validating endTime _ | .unlocking endTime => some endTime
  | _ => none

/-- The locks are being freed. -/
def unlocks : Stage Lk Cell Val → Bool
  | .unlocking _ => true
  | _ => false

/-- The writes that have been made stand in memory and in the log. -/
def whole : Stage Lk Cell Val → Bool
  | .rollingBack _ _ | .unlocking _ => false
  | _ => true

end Stage

namespace State

variable [DecidableEq ι] [DecidableEq Obj] {A : Addresses ι} {s s' : State ι Obj Obj Val} {h h' : ι}

/-! ## Quiet moves -/

/-- What becomes of a handle when nothing else changes. -/
inductive Quiet (A : Addresses ι) (s : State ι Obj Obj Val) (h : ι) : Handle Obj Obj Val → Prop
  | trBegin (idle : (s.handles h).stage = .idle) : Quiet A s h { s.handles h with
      startTime := s.time
      stage := .running }
  | nested (running : (s.handles h).stage = .running) : Quiet A s h { s.handles h with
      transactions := ((s.handles h).readSet.length, (s.handles h).log.length) ::
        (s.handles h).transactions
      events := (s.handles h).events ++ [.trBegin] }
  | nestedCommit {tr : ℕ × ℕ} {rest : List (ℕ × ℕ)} (running : (s.handles h).stage = .running)
      (transactions : (s.handles h).transactions = tr :: rest) : Quiet A s h { s.handles h with
        transactions := rest
        events := (s.handles h).events ++ [.trCommit] }
  | load (x : Obj) (running : (s.handles h).stage = .running) : Quiet A s h { s.handles h with
      readSet := (s.handles h).readSet ++ [x]
      stage := .reading x (s.memory x) }
  | unchecked (x : Obj) (running : (s.handles h).stage = .running) :
      Quiet A s h { s.handles h with readSet := (s.handles h).readSet ++ [x] }
  | checked {x : Obj} {value : Val} (reading : (s.handles h).stage = .reading x value)
      (ok : s.lCheck A h x = true) : Quiet A s h { s.handles h with
        stage := .running
        events := (s.handles h).events ++ [.read x value] }
  | failed {x : Obj} {value : Val} (reading : (s.handles h).stage = .reading x value) :
      Quiet A s h { s.handles h with stage := .running }
  | nestedAbort {readSet pos : ℕ} {rest : List (ℕ × ℕ)}
      (running : (s.handles h).stage = .running)
      (transactions : (s.handles h).transactions = (readSet, pos) :: rest) :
      Quiet A s h { s.handles h with
        readSet := (s.handles h).readSet.take readSet
        stage := .rollingBack pos false }
  | mainAbort (stage : (s.handles h).stage = .running ∨
      ∃ endTime rest, (s.handles h).stage = .validating endTime rest) :
      Quiet A s h (s.handles h).abortMain
  | validated {endTime : ℕ} {x : Obj} {rest : List Obj}
      (validating : (s.handles h).stage = .validating endTime (x :: rest))
      (ok : s.lCheck A h x = true) :
      Quiet A s h { s.handles h with stage := .validating endTime rest }
  | nestedUndone {pos : ℕ} (rolling : (s.handles h).stage = .rollingBack pos false)
      (back : (s.handles h).log.length = pos) : Quiet A s h { s.handles h with
        transactions := (s.handles h).transactions.tail
        stage := .running
        events := (s.handles h).events ++ [.trAbort] }
  | cleanup {endTime : ℕ} (unlocking : (s.handles h).stage = .unlocking endTime)
      (free : (s.handles h).acquiredLocks = []) : Quiet A s h .cleanup

/-! ## All moves -/

/-- What a step of a handle makes of the state. -/
inductive Move (A : Addresses ι) (s : State ι Obj Obj Val) (h : ι) : State ι Obj Obj Val → Prop
  | skip : Move A s h s
  | quiet {H : Handle Obj Obj Val} (quiet : Quiet A s h H) : Move A s h (s.setHandle h H)
  | lock (x : Obj) (running : (s.handles h).stage = .running) (free : s.locks x % 2 = 1)
      (old : s.locks x ≤ (s.handles h).startTime) : Move A s h { s with
        locks := Function.update s.locks x (A.address h)
        handles := Function.update s.handles h
          { s.handles h with acquiredLocks := x :: (s.handles h).acquiredLocks } }
  | write (x : Obj) (value : Val) (running : (s.handles h).stage = .running)
      (owned : s.locks x = A.address h) : Move A s h { s with
        memory := Function.update s.memory x value
        handles := Function.update s.handles h { s.handles h with
          log := (s.handles h).log ++ [(x, s.memory x)]
          events := (s.handles h).events ++ [.write x value] } }
  | commitReader (running : (s.handles h).stage = .running) (log : (s.handles h).log = [])
      (main : (s.handles h).transactions = []) : Move A s h { s with
        time := s.time + 2
        handles := Function.update s.handles h
          { s.handles h with stage := .unlocking (s.time + 2) }
        readers := s.readers ++ [(s.handles h).txn (s.time + 2)] }
  | draw (running : (s.handles h).stage = .running) (log : (s.handles h).log ≠ [])
      (main : (s.handles h).transactions = []) : Move A s h { s with
        time := s.time + 2
        handles := Function.update s.handles h
          { s.handles h with stage := .pushing (s.time + 2) } }
  | push {endTime : ℕ} (pushing : (s.handles h).stage = .pushing endTime) : Move A s h { s with
      handles := Function.update s.handles h
        { s.handles h with stage := .validating endTime (s.handles h).readSet }
      queue := s.queue ++ [endTime] }
  | commit {endTime : ℕ} (validated : (s.handles h).stage = .validating endTime []) :
      Move A s h { s with
        handles := Function.update s.handles h { s.handles h with stage := .unlocking endTime }
        committed := s.committed ++ [(s.handles h).txn endTime] }
  | undo {pos : ℕ} {main : Bool} {rest : List (Obj × Val)} {x : Obj} {old : Val}
      (rolling : (s.handles h).stage = .rollingBack pos main)
      (log : (s.handles h).log = rest ++ [(x, old)]) (above : rest.length + 1 ≠ pos) :
      Move A s h { s with
        memory := Function.update s.memory x old
        handles := Function.update s.handles h { s.handles h with log := rest } }
  | undone {pos : ℕ} (rolling : (s.handles h).stage = .rollingBack pos true)
      (back : (s.handles h).log.length = pos) : Move A s h { s with
        time := s.time + 2
        handles := Function.update s.handles h
          { s.handles h with stage := .unlocking (s.time + 2) }
        aborted := s.aborted ++ [(s.handles h).txn (s.time + 2)] }
  | unlock {endTime : ℕ} {x : Obj} {rest : List Obj}
      (unlocking : (s.handles h).stage = .unlocking endTime)
      (acquired : (s.handles h).acquiredLocks = x :: rest) : Move A s h { s with
        locks := if s.locks x = A.address h then Function.update s.locks x endTime else s.locks
        handles := Function.update s.handles h { s.handles h with acquiredLocks := rest } }

/-- The other handles stay as they are. -/
theorem Move.other (move : Move A s h s') (other : h' ≠ h) : s'.handles h' = s.handles h' := by
  cases move with
  | skip => rfl
  | quiet | lock | write | commitReader | draw | push | commit | undo | undone | unlock =>
      exact Function.update_of_ne other ..

/-- A round of a rollback. -/
theorem move_of_rollBack {pos : ℕ} {main : Bool}
    (rolling : (s.handles h).stage = .rollingBack pos main)
    (moved : s.rollBack h pos main = some s') : Move A s h s' := by
  unfold rollBack at moved
  simp only at moved
  split at moved
  next back =>
      split at moved
      next isMain =>
          rw [← Option.some.inj moved]
          exact .undone (isMain ▸ rolling) back
      next nested =>
          rw [← Option.some.inj moved]
          exact .quiet (.nestedUndone (eq_false_of_ne_true nested ▸ rolling) back)
  next above =>
      obtain ⟨⟨x, old⟩, last, rfl⟩ := Option.map_eq_some_iff.mp moved
      obtain ⟨rest, log⟩ := List.getLast?_eq_some_iff.mp last
      rw [log, List.dropLast_concat]
      refine .undo rolling log ?_
      rwa [log, List.length_append, List.length_singleton] at above

theorem move_of_advance (moved : s.advance A id h = some s') : Move A s h s' := by
  unfold advance at moved
  simp only at moved
  cases stage : (s.handles h).stage with
  | idle | running =>
      rw [stage] at moved
      cases moved
  | reading x value =>
      simp only [stage] at moved
      split at moved
      next ok =>
          rw [← Option.some.inj moved]
          exact .quiet (.checked stage ok)
      next failed =>
          rw [← Option.some.inj moved]
          exact .quiet (.failed stage)
  | rollingBack pos main =>
      simp only [stage] at moved
      exact move_of_rollBack stage moved
  | pushing endTime =>
      simp only [stage] at moved
      rw [← Option.some.inj moved]
      exact .push stage
  | validating endTime rest =>
      simp only [stage] at moved
      rw [← Option.some.inj moved]
      cases rest with
      | nil => exact .commit stage
      | cons x rest =>
          simp only [validate]
          split
          next ok => exact .quiet (.validated stage ok)
          next failed => exact .quiet (.mainAbort (.inr ⟨_, _, stage⟩))
  | unlocking endTime =>
      simp only [stage] at moved
      rw [← Option.some.inj moved]
      unfold unlock
      simp only
      split
      next free => exact .quiet (.cleanup stage free)
      next x rest acquired => exact .unlock stage acquired

theorem move_of_trCommit (moved : s.trCommit h = some s') : Move A s h s' := by
  unfold trCommit at moved
  simp only at moved
  split at moved
  next tr rest running transactions =>
      rw [← Option.some.inj moved]
      exact .quiet (.nestedCommit running transactions)
  next running main =>
      split at moved
      next empty =>
          rw [← Option.some.inj moved]
          exact .commitReader running (List.isEmpty_iff.mp empty) main
      next nonempty =>
          rw [← Option.some.inj moved]
          exact .draw running (fun empty => nonempty (List.isEmpty_iff.mpr empty)) main
  next => cases moved

theorem move_of_trAbort (moved : s.trAbort h = some s') : Move A s h s' := by
  unfold trAbort at moved
  simp only at moved
  split at moved
  next readSet pos rest running transactions =>
      rw [← Option.some.inj moved]
      exact .quiet (.nestedAbort running transactions)
  next running main =>
      rw [← Option.some.inj moved]
      exact .quiet (.mainAbort (.inl running))
  next => cases moved

/-- Every step is one of the moves. -/
theorem move_of_step {action : Action Obj Obj Val} (moved : step A id s (h, action) = some s') :
    Move A s h s' := by
  cases action with
  | trBegin =>
      have moved : s.trBegin h = some s' := moved
      unfold trBegin at moved
      simp only at moved
      split at moved
      next idle =>
          rw [← Option.some.inj moved]
          exact .quiet (.trBegin idle)
      next running =>
          rw [← Option.some.inj moved]
          exact .quiet (.nested running)
      next => cases moved
  | load x =>
      have moved : s.load id h x = some s' := moved
      unfold load at moved
      simp only at moved
      split at moved
      next running =>
          rw [← Option.some.inj moved]
          exact .quiet (.load x running)
      next => cases moved
  | trUncheckedRead x =>
      have moved : s.trUncheckedRead id h x = some s' := moved
      unfold trUncheckedRead at moved
      simp only at moved
      split at moved
      next running =>
          rw [← Option.some.inj moved]
          exact .quiet (.unchecked x running)
      next => cases moved
  | utilLock x =>
      have moved : s.utilLock A h x = some s' := moved
      unfold utilLock at moved
      simp only at moved
      split at moved
      next running =>
          split at moved
          next free =>
              rw [← Option.some.inj moved]
              exact .lock x running free.1 free.2
          next =>
              rw [← Option.some.inj moved]
              exact .skip
      next => cases moved
  | write x value =>
      have moved : s.write A id h x value = some s' := moved
      unfold write at moved
      simp only at moved
      split at moved
      next running =>
          split at moved
          next owned =>
              rw [← Option.some.inj moved]
              exact .write x value running owned
          next => cases moved
      next => cases moved
  | trCommit => exact move_of_trCommit moved
  | trAbort => exact move_of_trAbort moved
  | trHardAbort =>
      have moved : s.trHardAbort h = some s' := moved
      unfold trHardAbort at moved
      simp only at moved
      split at moved
      next running =>
          rw [← Option.some.inj moved]
          exact .quiet (.mainAbort (.inl running))
      next => cases moved
  | advance => exact move_of_advance moved

end State

end HybridDatabase.Stm
