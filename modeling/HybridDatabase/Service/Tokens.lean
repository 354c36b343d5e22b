/-
# Tokens of pending transactions

`pending_transactions` starts with as many tokens as a handle may have transactions
waiting for the service thread.  A commit takes a token when its job is ready, and the
service thread gives it back with the job.  `db_handle_destroy` collects all tokens, so
that no job refers to the semaphores of the handle when it destroys them.

An attempt that fails validation leaves its job in the queue and takes no token for it.
-/

import HybridDatabase.Service.Durable

namespace HybridDatabase.Service

open HybridDatabase.Base HybridDatabase.Storage HybridDatabase.Database

variable {ι : Type*}

/-! ## Destroying handles -/

/-- Where `db_handle_destroy` is. -/
inductive Destruction
  /-- It has not been called. -/
  | alive
  /-- In the loop around `sem_wait(H->pending_transactions)`. -/
  | collecting (taken : ℕ)
  /-- Behind the two calls of `sem_destroy`. -/
  | destroyed
  deriving DecidableEq, Repr

/-- The tokens that `db_handle_destroy` has taken. -/
def Destruction.taken : Destruction → ℕ
  | .alive => 0
  | .collecting taken => taken
  | .destroyed => maxPendingTransactions

/-- The system and the destruction of its handles. -/
structure Closing (ι : Type*) extends State ι where
  destruction : ι → Destruction

namespace Closing

/-- All handles have been initialised. -/
def initial (ι : Type*) (file : Bytes) : Closing ι := ⟨.initial ι file, fun _ => .alive⟩

/-- Besides the steps of the system there is the next step of `db_handle_destroy`. -/
inductive ClosingLabel (ι : Type*)
  | system (l : State.Label ι)
  | destroy (h : ι)
  deriving DecidableEq

variable [DecidableEq ι]

/-- The label is not a call on a handle that is being destroyed. -/
def Admits (s : Closing ι) : State.Label ι → Prop
  | .handle h _ => s.destruction h = .alive
  | _ => True

instance (s : Closing ι) (l : State.Label ι) : Decidable (s.Admits l) := by
  cases l <;> unfold Admits <;> infer_instance

/-- One step of `db_handle_destroy`.  It aborts a running transaction. -/
def destroyStep (s : Closing ι) (h : ι) : Option (Closing ι) :=
  let H := s.handles h
  match s.destruction h with
  | .alive =>
      if H.stage = .body then
        some
          { s with
            handles := Function.update s.handles h (if H.running then H.cleanup else H)
            destruction := Function.update s.destruction h (.collecting 0) }
      else none
  | .collecting taken =>
      if taken < maxPendingTransactions then
        (H.wait .pendingTransactions).map fun H =>
          { s with
            handles := Function.update s.handles h H
            destruction := Function.update s.destruction h (.collecting (taken + 1)) }
      else some { s with destruction := Function.update s.destruction h .destroyed }
  | .destroyed => none

/-- One step. -/
def step (s : Closing ι) : ClosingLabel ι → Option (Closing ι)
  | .system l =>
      if s.Admits l then (s.toState.step l).map fun t => { s with toState := t } else none
  | .destroy h => s.destroyStep h

/-! ## What is kept -/

/-- The tokens of a handle: how many there are, with those that queued jobs will give
back, and that no job is left for a destroyed handle. -/
structure Conserved (h : ι) (s : Closing ι) : Prop where
  bounded : (s.handles h).pendingTransactions + s.unposted h .pendingTransactions ≤
    maxPendingTransactions + (s.handles h).stage.expects .pendingTransactions
  idle : s.destruction h = .alive → (s.handles h).stage = .body →
    (s.handles h).pendingTransactions + s.unposted h .pendingTransactions = maxPendingTransactions
  outstanding : s.unposted h .pendingTransactions ≤
    maxPendingTransactions + (s.handles h).stage.expects .pendingTransactions
  unreferenced : s.destruction h = .destroyed → ∀ job ∈ s.jobs.drop s.current, ∀ lock,
    job.lock ≠ some (h, lock)

/-- No commit of the handle that has pushed a job fails validation. -/
def Passes (h : ι) (_ : Closing ι) (l : ClosingLabel ι) : Prop :=
  l ≠ .system (.handle h (.validate false))

/-- The balance of the tokens, with those that `db_handle_destroy` has taken. -/
structure Inv (file : Bytes) (h : ι) (s : Closing ι) : Prop where
  ordered : s.toState.Ordered file
  owned : s.toState.Owned
  pending : (s.handles h).pendingTransactions + (s.destruction h).taken +
      s.unposted h .pendingTransactions =
    maxPendingTransactions + (s.handles h).stage.expects .pendingTransactions
  finished : s.toState.Balanced h .writeFinished
  idle : ∀ h, s.destruction h ≠ .alive → (s.handles h).stage = .body

variable {file : Bytes} {h : ι} {s t : Closing ι}

theorem inv_initial : (initial ι file).Inv file h where
  ordered := State.ordered_initial file
  owned _ := trivial
  pending := rfl
  finished := rfl
  idle _ alive := absurd rfl alive

/-- A step of the system. -/
theorem Inv.system {l : State.Label ι} (inv : s.Inv file h) (passes : l ≠ .handle h (.validate false))
    (admits : s.Admits l) {u : State ι} (moved : s.toState.step l = some u) :
    Inv file h { s with toState := u } := by
  have reached := State.current_le_length inv.ordered
  have none (lock : HandleSemaphore) : State.NoneFails h lock s.toState l :=
    fun failed => absurd failed passes
  have tokens : (u.handles h).pendingTransactions + u.unposted h .pendingTransactions +
      (s.handles h).stage.expects .pendingTransactions = (s.handles h).pendingTransactions +
        s.unposted h .pendingTransactions + (u.handles h).stage.expects .pendingTransactions :=
    State.balance_step reached (none .pendingTransactions) moved
  have pending := inv.pending
  refine ⟨State.ordered_step inv.ordered inv.owned moved, State.owned_step inv.owned moved, ?_,
    State.balanced_step inv.finished reached (none _) moved, fun x ending => ?_⟩
  · show (u.handles h).pendingTransactions + (s.destruction h).taken +
      u.unposted h .pendingTransactions =
        maxPendingTransactions + (u.handles h).stage.expects .pendingTransactions
    omega
  · have before := inv.idle x ending
    show (u.handles x).stage = .body
    cases l with
    | handle h' label =>
        obtain ⟨H, op, -, rfl⟩ := State.step_handle moved
        have other : x ≠ h' := fun same => ending (same ▸ admits)
        show (Function.update s.handles h' H x).stage = .body
        rw [Function.update_of_ne other, before]
    | timer =>
        cases moved
        split <;> exact before
    | close =>
        cases moved
        exact before
    | service =>
        rcases State.serviceStep_cases moved with ⟨handles, -, -⟩ | ⟨job, -, -, rfl⟩
        · rw [handles, before]
        · show ((s.postLock job.lock).handles x).stage = .body
          rw [State.stage_postLock, before]

/-- A step of `db_handle_destroy` leaves its handle outside of commits, and the queue as
it is. -/
theorem Inv.withHandle {h' : ι} {H : Handle} {destruction : Destruction} (inv : s.Inv file h)
    (stage : (s.handles h').stage = .body) (same : H.stage = .body)
    (finished : H.writeFinished = (s.handles h').writeFinished)
    (tokens : h = h' → H.pendingTransactions + destruction.taken =
      (s.handles h').pendingTransactions + (s.destruction h').taken) :
    Inv file h
      { s with
        handles := Function.update s.handles h' H
        destruction := Function.update s.destruction h' destruction } := by
  have stages : ∀ x, (Function.update s.handles h' H x).stage = (s.handles x).stage := by
    intro x
    by_cases here : x = h'
    · subst here
      rw [Function.update_self, same, stage]
    · rw [Function.update_of_ne here]
  have pending := inv.pending
  have balanced := inv.finished
  unfold State.Balanced at balanced
  refine ⟨inv.ordered.withHandles _, fun x => ?_, ?_, ?_, fun x ending => ?_⟩
  · show (Function.update s.handles h' H x).stage.Owns x s.jobs
    rw [stages]
    exact inv.owned x
  · show (Function.update s.handles h' H h).pendingTransactions +
      (Function.update s.destruction h' destruction h).taken + s.unposted h .pendingTransactions =
        maxPendingTransactions + (Function.update s.handles h' H h).stage.expects _
    rw [stages]
    by_cases here : h = h'
    · subst here
      rw [Function.update_self, Function.update_self, tokens rfl]
      exact pending
    · rw [Function.update_of_ne here, Function.update_of_ne here]
      exact pending
  · show (Function.update s.handles h' H h).writeFinished + s.unposted h .writeFinished =
      _ + (Function.update s.handles h' H h).stage.expects _
    rw [stages]
    by_cases here : h = h'
    · subst here
      rw [Function.update_self, finished]
      exact balanced
    · rw [Function.update_of_ne here]
      exact balanced
  · show (Function.update s.handles h' H x).stage = .body
    rw [stages]
    by_cases here : x = h'
    · rw [here, stage]
    · refine inv.idle x fun alive => ending ?_
      show Function.update s.destruction h' destruction x = .alive
      rw [Function.update_of_ne here, alive]

/-- A step of `db_handle_destroy`. -/
theorem Inv.destroy {h' : ι} (inv : s.Inv file h) (moved : s.destroyStep h' = some t) :
    t.Inv file h := by
  unfold destroyStep at moved
  cases at_ : s.destruction h' with
  | alive =>
      simp only [at_] at moved
      split at moved
      · next stage =>
          cases moved
          have none : (s.destruction h').taken = 0 := by
            rw [at_]
            rfl
          refine inv.withHandle stage ?_ ?_ fun _ => ?_
          · split <;> exact stage
          · split <;> rfl
          · rw [none]
            split <;> rfl
      · cases moved
  | collecting taken =>
      have stage := inv.idle h' (by rw [at_]; exact Destruction.noConfusion)
      have before : (s.destruction h').taken = taken := by
        rw [at_]
        rfl
      simp only [at_] at moved
      split at moved
      · obtain ⟨H, waited, result⟩ := Option.map_eq_some_iff.mp moved
        cases result
        simp only [Handle.wait] at waited
        split at waited
        · next positive =>
            cases waited
            refine inv.withHandle stage stage rfl fun _ => ?_
            rw [before]
            show (s.handles h').pendingTransactions - 1 + (taken + 1) = _
            omega
        · cases waited
      · next enough =>
          have same : Function.update s.handles h' (s.handles h') = s.handles :=
            Function.update_eq_self _ _
          have ended : h = h' → (s.handles h').pendingTransactions + maxPendingTransactions =
              (s.handles h').pendingTransactions + (s.destruction h').taken := by
            rintro rfl
            have pending := inv.pending
            rw [stage, before] at pending
            have expects : Stage.body.expects .pendingTransactions = 0 := rfl
            omega
          have inv' : Inv file h
              { s with
                handles := Function.update s.handles h' (s.handles h')
                destruction := Function.update s.destruction h' .destroyed } :=
            inv.withHandle stage stage rfl ended
          rw [same] at inv'
          cases moved
          exact inv'
  | destroyed =>
      simp only [at_] at moved
      cases moved

theorem Inv.step {l : ClosingLabel ι} (inv : s.Inv file h) (passes : Passes h s l)
    (moved : s.step l = some t) : t.Inv file h := by
  cases l with
  | system l =>
      by_cases admits : s.Admits l
      · simp only [Closing.step, if_pos admits] at moved
        obtain ⟨u, once, result⟩ := Option.map_eq_some_iff.mp moved
        cases result
        exact inv.system (fun failed => passes (by rw [failed])) admits once
      · simp only [Closing.step, if_neg admits] at moved
        cases moved
  | destroy h' => exact inv.destroy moved

omit [DecidableEq ι] in
theorem not_unposted [DecidableEq ι] {lock : HandleSemaphore}
    (none : s.unposted h lock = 0) : ∀ job ∈ s.jobs.drop s.current, job.lock ≠ some (h, lock) := by
  intro job inside mine
  have member : some (h, lock) ∈ (s.jobs.map Job.lock).drop s.current := by
    rw [← List.map_drop, ← mine]
    exact List.mem_map_of_mem inside
  exact List.count_eq_zero.mp none member

theorem Inv.conserved (inv : s.Inv file h) : s.Conserved h := by
  have pending := inv.pending
  have finished := inv.finished
  unfold State.Balanced at finished
  refine ⟨by omega, fun alive stage => ?_, by omega, fun destroyed job inside lock => ?_⟩
  · rw [alive, stage] at pending
    exact pending
  · have stage := inv.idle h (by rw [destroyed]; exact Destruction.noConfusion)
    rw [destroyed, stage] at pending
    rw [stage] at finished
    have expects : ∀ lock, Stage.body.expects lock = 0 := fun _ => rfl
    have taken : Destruction.destroyed.taken = maxPendingTransactions := rfl
    have start : HandleSemaphore.writeFinished.start = 0 := rfl
    rw [expects] at pending finished
    cases lock with
    | writeFinished => exact not_unposted (by omega) job inside
    | pendingTransactions => exact not_unposted (by omega) job inside

/-- The tokens of a handle are conserved in every run in which no commit of the handle that
has pushed a job fails validation. -/
theorem conserved_of_passes (run : Reaches step (Passes h) (initial ι file) s) : s.Conserved h := by
  have inv : s.Inv file h := run.invariant inv_initial
    fun _ _ _ inv passes moved => inv.step passes moved
  exact inv.conserved

/-! ## Asynchronous commits -/

/-- The steps of a handle up to the validation of an asynchronous commit. -/
def asyncAttempt (passes : Bool) : List (ClosingLabel Unit) :=
  [.begin, .record (.nodeDelete 5), .commit .async, .post, .validate passes].map
    fun label => .system (.handle () label)

/-- The steps behind `process_transaction_log`: the service thread handles the job, and the
handle takes its token. -/
def answered : List (ClosingLabel Unit) :=
  [.system (.handle () .ready)] ++ List.replicate 5 (.system .service) ++
    [.system (.handle () .wake), .system (.handle () .finish)]

/-- A valid attempt puts its log into the job. -/
theorem step_process {A : Attempt} {bytes : Bytes} (alive : s.destruction h = .alive)
    (stage : (s.handles h).stage = .valid A) (stored : logBytes A.log = some bytes) :
    s.step (.system (.handle h .process)) = some
      { s with
        toState := { s.toState.queue (.fill A.job bytes) with
          handles := Function.update s.handles h
            { s.handles h with stage := .processed A, log := [] } } } := by
  have admits : s.Admits (.handle h .process) := alive
  have does : (s.handles h).step h s.jobs.length .process =
      some ({ s.handles h with stage := .processed A, log := [] }, .fill A.job bytes) := by
    simp only [Handle.step, stage, stored, Option.map_some]
  simp only [step, if_pos admits, State.step_of_handle does, Option.map_some]

omit [DecidableEq ι] in
theorem passes_destroy (h' : ι) (s : Closing ι) : Passes h s (.destroy h') := by
  intro failed
  cases failed

/-- With the tokens that are missing on the semaphore, `db_handle_destroy` comes to its end. -/
theorem destroyed_of_collecting {u : Closing ι} {taken missing : ℕ}
    (run : Reaches step (Passes h) u s) (collecting : s.destruction h = .collecting taken)
    (all : taken + missing = maxPendingTransactions)
    (enough : missing ≤ (s.handles h).pendingTransactions) :
    ∃ t, Reaches step (Passes h) u t ∧ t.destruction h = .destroyed ∧ t.jobs = s.jobs ∧
      t.current = s.current := by
  induction missing generalizing s taken with
  | zero =>
      have full : ¬taken < maxPendingTransactions := by omega
      have moved : s.step (.destroy h) = some
          { s with destruction := Function.update s.destruction h .destroyed } := by
        simp only [step, destroyStep, collecting, if_neg full]
      exact ⟨_, run.step (passes_destroy h s) moved, Function.update_self _ _ _, rfl, rfl⟩
  | succ missing ih =>
      have less : taken < maxPendingTransactions := by omega
      have positive : 0 < (s.handles h).pendingTransactions := by omega
      have moved : s.step (.destroy h) = some
          { s with
            handles := Function.update s.handles h { s.handles h with
              pendingTransactions := (s.handles h).pendingTransactions - 1 }
            destruction := Function.update s.destruction h (.collecting (taken + 1)) } := by
        simp only [step, destroyStep, collecting, if_pos less, Handle.wait, if_pos positive,
          Option.map_some]
      have destroyed := ih (run.step (passes_destroy h s) moved)
        (Function.update_self _ _ _) (by omega) (by
          simp only [Function.update_self]
          omega)
      exact destroyed

/-- A handle that has committed asynchronously and is destroyed has collected all tokens. -/
theorem conserved_committed : ∃ s : Closing Unit, s.jobs.length = 1 ∧ s.current = 1 ∧
    s.destruction () = .destroyed ∧ s.Conserved () := by
  obtain ⟨bytes, stored, -⟩ := State.logBytes_oneDeletion
  have passing : ∀ labels : List (ClosingLabel Unit),
      (∀ l ∈ labels, l ≠ .system (.handle () (.validate false))) →
        ∀ l ∈ labels, ∀ s, Passes () s l :=
    fun _ others l inside _ => others l inside
  have valid := reaches_of_runSteps (.start (s := initial Unit [])) (passing _ (by decide))
    (show runSteps step _ (asyncAttempt true) = some _ from rfl)
  have processed := valid.step (passing [.system (.handle () .process)] (by decide) _
    List.mem_cons_self _)
    (step_process (h := ()) (A := ⟨0, false, State.oneDeletion⟩) rfl rfl stored)
  have idle := reaches_of_runSteps processed (passing answered (by decide))
    (show runSteps step _ answered = some _ from rfl)
  have begun := reaches_of_runSteps idle (passing [.destroy ()] (by decide))
    (show runSteps step _ [.destroy ()] = some _ from rfl)
  obtain ⟨s, run, destroyed, jobs, current⟩ :=
    destroyed_of_collecting begun rfl (Nat.zero_add _) le_rfl
  exact ⟨s, by rw [jobs]; rfl, by rw [current]; rfl, destroyed, conserved_of_passes run⟩

/-- A commit that failed leaves all tokens on the semaphore, and its job, which will give
back another one. -/
theorem tokens_not_conserved : ¬ ∀ (file : Bytes) (s : Closing Unit),
    Reaches step anyStep (initial Unit file) s → s.Conserved () := by
  intro always
  have run := reaches_of_runSteps (.start (s := initial Unit [])) (fun _ _ _ => trivial)
    (show runSteps step _ (asyncAttempt false ++ [.system (.handle () .ready)]) = some _ from rfl)
  have equal := (always [] _ run).idle rfl rfl
  exact absurd equal (by decide)

end Closing

end HybridDatabase.Service
