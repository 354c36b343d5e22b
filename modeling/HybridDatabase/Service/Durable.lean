/-
# Synchronous commits and the disk

The service thread answers a synchronous commit after `buffered_sync`.  A synchronous
commit that takes the answer to its own job is therefore on the disk when it returns.

Whether it does take its own answer is a matter of counting.  A semaphore of a handle
together with the answers still to come from the queue is what the handle is waiting
for, as long as no attempt gives up between its push and its wait.  An attempt that
fails validation gives up, and its answer is taken by a later commit.
-/

import HybridDatabase.Service.Order

namespace HybridDatabase.Service

open HybridDatabase.Base HybridDatabase.Storage HybridDatabase.Database

variable {ι : Type*}

/-! ## Counting the answers -/

/-- The answers that a handle still has to take from a semaphore. -/
def Stage.expects (lock : HandleSemaphore) : Stage → ℕ
  | .body | .invalid _ | .returning _ => 0
  | .askedSync | .waitingSync => if lock = .writeFinished then 1 else 0
  | .pushed A | .validating A | .valid A | .processed A | .waiting A =>
      if A.lock = lock then 1 else 0

/-- The value of a semaphore of a fresh handle. -/
def HandleSemaphore.start : HandleSemaphore → ℕ
  | .writeFinished => 0
  | .pendingTransactions => maxPendingTransactions

/-- The answers that a step of a handle adds to the queue. -/
def QueueOp.answers [DecidableEq ι] (h : ι) (lock : HandleSemaphore) : QueueOp ι → ℕ
  | .push job => if job.lock = some (h, lock) then 1 else 0
  | _ => 0

namespace State

variable [DecidableEq ι] {s t : State ι} {h : ι} {lock : HandleSemaphore}

/-- The answers on a semaphore that the queue still holds. -/
def unposted (s : State ι) (h : ι) (lock : HandleSemaphore) : ℕ :=
  ((s.jobs.map Job.lock).drop s.current).count (some (h, lock))

/-- A semaphore and the answers still to come are what the handle is going to take. -/
def Balanced (h : ι) (lock : HandleSemaphore) (s : State ι) : Prop :=
  (s.handles h).value lock + s.unposted h lock =
    lock.start + (s.handles h).stage.expects lock

theorem unposted_queue (reached : s.current ≤ s.jobs.length) (op : QueueOp ι) :
    (s.queue op).unposted h lock = s.unposted h lock + op.answers h lock := by
  cases op with
  | none => rfl
  | post => rfl
  | push job =>
      have reached : s.current ≤ (s.jobs.map Job.lock).length := by rwa [List.length_map]
      show (((s.jobs ++ [job]).map Job.lock).drop s.current).count _ = _
      rw [List.map_append, List.drop_append_of_le_length reached, List.count_append]
      show _ + [job.lock].count _ = s.unposted h lock + if _ then 1 else 0
      rw [List.count_singleton]
      simp only [unposted, beq_iff_eq]
  | fill n W =>
      have same : ∀ job : Job ι, (job.fill W).lock = job.lock := fun _ => rfl
      show (((s.jobs.modify n _).map Job.lock).drop s.current).count _ = _
      rw [map_modify_of_same same]
      rfl
  | ready n =>
      have same : ∀ job : Job ι, job.postReady.lock = job.lock := fun _ => rfl
      show (((s.jobs.modify n _).map Job.lock).drop s.current).count _ = _
      rw [map_modify_of_same same]
      rfl

/-- A handle adds answers for itself only. -/
theorem answers_other {h' : ι} {H H' : Handle} {op : QueueOp ι} {label : HandleLabel} {next : ℕ}
    (moves : H.Moves h' next label H' op) (other : h ≠ h') : op.answers h lock = 0 := by
  cases moves with
  | asks | pushes =>
      refine if_neg fun same => ?_
      cases same
      exact other rfl
  | work | postsSync | posts | passes | fails | processes | givesUp | readies | wakesSync
  | wakes | returns => rfl

/-- A step of a handle keeps the balance, unless a waiting attempt fails. -/
theorem balance_moves {H H' : Handle} {op : QueueOp ι} {label : HandleLabel} {next : ℕ}
    (moves : H.Moves h next label H' op)
    (passes : ∀ A, label = .validate false → H.stage = .validating A → A.lock ≠ lock) :
    H'.value lock + op.answers h lock + H.stage.expects lock =
      H.value lock + H'.stage.expects lock := by
  cases moves with
  | work before after same | returns A before after same | givesUp A before after same =>
      rw [before, after, same]
      rfl
  | asks before after same =>
      rw [before, after, same]
      cases lock <;> simp [QueueOp.answers, Stage.expects]
  | pushes A before after same =>
      rw [before, after, same]
      simp [QueueOp.answers, Stage.expects]
  | postsSync before after same | posts A before after same | passes A before after same
  | processes A bytes before after same | readies A before after same =>
      rw [before, after, same]
      rfl
  | fails A before after same failed =>
      have other := passes A failed before
      rw [before, after, same]
      simp [QueueOp.answers, Stage.expects, other]
  | wakesSync before after positive taken =>
      rw [before, after, taken]
      cases lock with
      | writeFinished =>
          simp only [Function.update_self, QueueOp.answers, Stage.expects]
          simp only [if_true]
          omega
      | pendingTransactions => simp [QueueOp.answers, Stage.expects]
  | wakes A before after positive taken =>
      rw [before, after, taken]
      by_cases mine : A.lock = lock
      · subst mine
        simp only [Function.update_self, QueueOp.answers, Stage.expects, if_true]
        omega
      · rw [Function.update_of_ne (Ne.symm mine)]
        simp [QueueOp.answers, Stage.expects, mine]

/-! ## Steps of the system -/

theorem step_handle {label : HandleLabel} (moved : s.step (.handle h label) = some t) :
    ∃ H op, (s.handles h).Moves h s.jobs.length label H op ∧
      t = { s.queue op with handles := Function.update s.handles h H } := by
  obtain ⟨⟨H, op⟩, does, result⟩ := Option.map_eq_some_iff.mp moved
  exact ⟨H, op, Handle.step_moves does, result.symm⟩

/-- The service thread takes a step with its job, or it answers the job. -/
theorem serviceStep_cases (moved : s.serviceStep = some t) :
    (t.handles = s.handles ∧ t.current = s.current ∧
      (t.jobs = s.jobs ∨ t.jobs = s.jobs.modify s.current Job.waitReady)) ∨
    ∃ job, s.service = .post ∧ s.jobs[s.current]? = some job ∧
      t = { s.postLock job.lock with current := s.current + 1, service := .idle } := by
  unfold serviceStep at moved
  split at moved
  · split at moved <;> cases moved
    exact .inl ⟨rfl, rfl, .inl rfl⟩
  · split at moved <;> cases moved <;> exact .inl ⟨rfl, rfl, .inl rfl⟩
  · obtain ⟨job, at_, moved⟩ := Option.bind_eq_some_iff.mp moved
    split at moved <;> cases moved
    exact .inl ⟨rfl, rfl, .inr rfl⟩
  · obtain ⟨job, at_, moved⟩ := Option.bind_eq_some_iff.mp moved
    cases moved
    exact .inl ⟨rfl, rfl, .inl rfl⟩
  · cases moved
    exact .inl ⟨rfl, rfl, .inl rfl⟩
  · next stage =>
      obtain ⟨job, at_, moved⟩ := Option.bind_eq_some_iff.mp moved
      cases moved
      exact .inr ⟨job, stage, at_, rfl⟩
  · cases moved

/-- The answer to a job goes to the semaphore of one handle. -/
theorem value_postLock (lock' : Option (ι × HandleSemaphore)) :
    ((s.postLock lock').handles h).value lock =
      (s.handles h).value lock + if lock' = some (h, lock) then 1 else 0 := by
  cases lock' with
  | none => rfl
  | some to_ =>
      obtain ⟨h', lock'⟩ := to_
      by_cases mine : h = h'
      · subst mine
        simp only [postLock, Function.update_self, Handle.value_post]
        by_cases same : lock = lock'
        · subst same
          simp
        · simp [Function.update_of_ne same, Ne.symm same]
      · simp [postLock, Function.update_of_ne mine, Ne.symm mine]

theorem stage_postLock (lock' : Option (ι × HandleSemaphore)) :
    ((s.postLock lock').handles h).stage = (s.handles h).stage := by
  cases lock' with
  | none => rfl
  | some to_ =>
      obtain ⟨h', lock'⟩ := to_
      by_cases mine : h = h'
      · subst mine
        simp [postLock]
      · simp [postLock, Function.update_of_ne mine]

theorem jobs_postLock (lock' : Option (ι × HandleSemaphore)) :
    (s.postLock lock').jobs = s.jobs := by
  cases lock' <;> rfl

/-- In front of its answer a job is counted, behind it no longer. -/
theorem unposted_answer {job : Job ι} (at_ : s.jobs[s.current]? = some job) :
    s.unposted h lock =
      ((s.jobs.map Job.lock).drop (s.current + 1)).count (some (h, lock)) +
        if job.lock = some (h, lock) then 1 else 0 := by
  have first : (s.jobs.map Job.lock)[s.current]? = some job.lock := by
    rw [List.getElem?_map, at_]
    rfl
  obtain ⟨inside, first⟩ := List.getElem?_eq_some_iff.mp first
  rw [unposted, List.drop_eq_getElem_cons inside, first, List.count_cons]
  simp only [beq_iff_eq]

/-! ## Invariants of runs -/

/-- Every handle knows its job. -/
def Owned (s : State ι) : Prop := ∀ h, (s.handles h).stage.Owns h s.jobs

/-- A commit that has waited for `lock` has taken the answer to its own job. -/
def Answered (h : ι) (lock : HandleSemaphore) (s : State ι) : Prop :=
  ∀ A, (s.handles h).stage = .returning A → A.lock = lock → A.job < s.current

/-- No attempt of the handle that would wait for `lock` fails validation. -/
def NoneFails (h : ι) (lock : HandleSemaphore) (s : State ι) (l : Label ι) : Prop :=
  l = .handle h (.validate false) → ∀ A, (s.handles h).stage = .validating A → A.lock ≠ lock

theorem owned_step {l : Label ι} (owned : s.Owned) (moved : s.step l = some t) : t.Owned := by
  intro h
  cases l with
  | handle h' label =>
      obtain ⟨H, op, moves, rfl⟩ := step_handle moved
      by_cases mine : h = h'
      · subst mine
        show (Function.update s.handles h H h).stage.Owns h _
        rw [Function.update_self]
        exact moves.owns (owned h)
      · show (Function.update s.handles h' H h).stage.Owns h _
        rw [Function.update_of_ne mine]
        exact (owned h).keepsJobs (moves.keepsJobs (owned h') mine)
  | timer =>
      cases moved
      split
      · exact owned h
      · exact (owned h).keepsJobs (keepsJobs_push h s.jobs _)
  | close =>
      cases moved
      exact owned h
  | service =>
      rcases serviceStep_cases moved with ⟨handles, -, jobs⟩ | ⟨job, -, -, rfl⟩
      · rw [handles]
        rcases jobs with same | waited
        · rw [same]
          exact owned h
        · rw [waited]
          exact (owned h).keepsJobs (keepsJobs_waitReady h s.jobs s.current)
      · show ((s.postLock job.lock).handles h).stage.Owns h (s.postLock job.lock).jobs
        rw [stage_postLock, jobs_postLock]
        exact owned h

theorem ordered_step {file : Bytes} {l : Label ι} (ordered : s.Ordered file) (owned : s.Owned)
    (moved : s.step l = some t) : t.Ordered file := by
  cases l with
  | handle h label =>
      obtain ⟨H, op, moves, rfl⟩ := step_handle moved
      exact (ordered.moves moves (owned h)).withHandles _
  | timer =>
      cases moved
      split
      · exact (ordered.withCounter (s.counter + 1)).withTimer false
      · exact (ordered.push rfl fun _ => ⟨rfl, rfl⟩).withTimer true
  | close =>
      cases moved
      exact ordered.withCounter (s.counter + 1)
  | service => exact ordered_serviceStep ordered moved

/-- A step changes a semaphore and the answers still to come by what the handle is going
to take, unless a waiting attempt fails. -/
theorem balance_step {l : Label ι} (reached : s.current ≤ s.jobs.length)
    (passes : NoneFails h lock s l) (moved : s.step l = some t) :
    (t.handles h).value lock + t.unposted h lock + (s.handles h).stage.expects lock =
      (s.handles h).value lock + s.unposted h lock + (t.handles h).stage.expects lock := by
  cases l with
  | handle h' label =>
      obtain ⟨H, op, moves, rfl⟩ := step_handle moved
      have queue : (s.queue op).unposted h lock = s.unposted h lock + op.answers h lock :=
        unposted_queue reached op
      show (Function.update s.handles h' H h).value lock + (s.queue op).unposted h lock +
          (s.handles h).stage.expects lock = (s.handles h).value lock + s.unposted h lock +
            (Function.update s.handles h' H h).stage.expects lock
      by_cases mine : h = h'
      · subst mine
        have balance := balance_moves moves fun A failed => passes (by rw [failed]) A
        rw [Function.update_self, queue]
        omega
      · have none : op.answers h lock = 0 := answers_other moves mine
        rw [Function.update_of_ne mine, queue, none]
        omega
  | timer =>
      cases moved
      split
      · rfl
      · have queue : (s.queue (.push ⟨.syncMe, none, 0, [], false⟩)).unposted h lock =
            s.unposted h lock + QueueOp.answers h lock (.push ⟨.syncMe, none, 0, [], false⟩) :=
          unposted_queue reached _
        have other : QueueOp.answers h lock (.push ⟨.syncMe, none, 0, [], false⟩) = 0 := by
          simp [QueueOp.answers]
        show (s.handles h).value lock +
          (s.queue (.push ⟨.syncMe, none, 0, [], false⟩)).unposted h lock + _ = _
        rw [queue, other]
        rfl
  | close =>
      cases moved
      rfl
  | service =>
      rcases serviceStep_cases moved with ⟨handles, current, jobs⟩ | ⟨job, -, at_, rfl⟩
      · have same : t.unposted h lock = s.unposted h lock := by
          unfold unposted
          rcases jobs with same | waited
          · rw [current, same]
          · have locks : ∀ job : Job ι, job.waitReady.lock = job.lock := fun _ => rfl
            rw [current, waited, map_modify_of_same locks]
        rw [handles, same]
      · have answer : s.unposted h lock =
            ((s.jobs.map Job.lock).drop (s.current + 1)).count (some (h, lock)) +
              if job.lock = some (h, lock) then 1 else 0 := unposted_answer at_
        show ((s.postLock job.lock).handles h).value lock +
          (((s.postLock job.lock).jobs.map Job.lock).drop (s.current + 1)).count _ + _ =
            _ + ((s.postLock job.lock).handles h).stage.expects lock
        rw [value_postLock, stage_postLock, jobs_postLock]
        omega

theorem balanced_step {l : Label ι} (balanced : s.Balanced h lock)
    (reached : s.current ≤ s.jobs.length) (passes : NoneFails h lock s l)
    (moved : s.step l = some t) : t.Balanced h lock := by
  have balance := balance_step reached passes moved
  unfold Balanced at balanced ⊢
  omega

omit [DecidableEq ι] in
/-- The service thread does not come to jobs that are not there. -/
theorem current_le_length {file : Bytes} (ordered : s.Ordered file) :
    s.current ≤ s.jobs.length := by
  have first := s.current_le_done
  have second := s.done_le_taken
  have third := s.taken_le_passed
  have fourth := ordered.passed_le
  omega

/-- A handle that can take an answer finds the one to its own job. -/
theorem answered_of_balanced {A : Attempt} (balanced : s.Balanced h A.lock)
    (start : A.lock.start = 0) (owned : s.Owned) (waiting : (s.handles h).stage = .waiting A)
    (positive : 0 < (s.handles h).value A.lock) : A.job < s.current := by
  have owns := owned h
  rw [waiting] at owns
  obtain ⟨job, ⟨at_, -, mine⟩, -⟩ := owns
  have expects : (s.handles h).stage.expects A.lock = 1 := by
    rw [waiting]
    simp [Stage.expects]
  have none : s.unposted h A.lock = 0 := by
    unfold Balanced at balanced
    omega
  by_contra late
  have inside : some (h, A.lock) ∈ (s.jobs.map Job.lock).drop s.current := by
    rw [List.mem_iff_getElem?]
    refine ⟨A.job - s.current, ?_⟩
    rw [List.getElem?_drop, List.getElem?_map,
      show s.current + (A.job - s.current) = A.job by omega, at_, Option.map_some, mine]
  exact List.count_eq_zero.mp none inside

theorem answered_step {l : Label ι} (answered : s.Answered h lock)
    (balanced : s.Balanced h lock) (start : lock.start = 0) (owned : s.Owned)
    (moved : s.step l = some t) : t.Answered h lock := by
  intro A returning mine
  cases l with
  | handle h' label =>
      obtain ⟨H, op, moves, rfl⟩ := step_handle moved
      have now : (Function.update s.handles h' H h).stage = .returning A := returning
      by_cases same : h = h'
      · subst same
        rw [Function.update_self] at now
        show A.job < s.current
        cases moves with
        | wakes A' before after positive =>
            rw [after] at now
            cases now
            subst mine
            exact answered_of_balanced balanced start owned before positive
        | work before after | asks before after | pushes _ before after
        | postsSync before after | posts _ before after | passes _ before after
        | fails _ before after | processes _ _ before after | givesUp _ before after
        | readies _ before after | wakesSync before after | returns _ before after =>
            rw [after] at now
            cases now
      · rw [Function.update_of_ne same] at now
        exact answered A now mine
  | timer =>
      cases moved
      split at returning <;> split <;> exact answered A returning mine
  | close =>
      cases moved
      exact answered A returning mine
  | service =>
      rcases serviceStep_cases moved with ⟨handles, current, -⟩ | ⟨job, -, -, rfl⟩
      · rw [handles] at returning
        rw [current]
        exact answered A returning mine
      · have before : ((s.postLock job.lock).handles h).stage = .returning A := returning
        rw [stage_postLock] at before
        exact Nat.lt_succ_of_lt (answered A before mine)

/-! ## Durability -/

/-- When a synchronous commit is about to return, the bytes of its transaction are in
the file behind those of all jobs in front of it, and an `fsync` covers them. -/
def Durable (file : Bytes) (h : ι) (s : State ι) : Prop :=
  ∀ A, (s.handles h).stage = .returning A → A.sync = true →
    ∃ bytes, logBytes A.log = some bytes ∧
      file ++ queueBytes (s.jobs.take A.job) ++ bytes <+: s.output.synced

/-- No synchronous attempt of the handle fails validation. -/
def NoSyncFails (h : ι) (s : State ι) (l : Label ι) : Prop :=
  l = .handle h (.validate false) → ∀ A, (s.handles h).stage = .validating A → A.sync = false

/-- What holds in the runs of the system for the synchronous commits of a handle. -/
structure Kept (file : Bytes) (h : ι) (s : State ι) : Prop where
  ordered : s.Ordered file
  owned : s.Owned
  balanced : s.Balanced h .writeFinished
  answered : s.Answered h .writeFinished

theorem kept_initial (file : Bytes) (h : ι) : (initial ι file).Kept file h where
  ordered := ordered_initial file
  owned _ := trivial
  balanced := rfl
  answered _ returning := by cases returning

theorem kept_step {file : Bytes} {l : Label ι} (kept : s.Kept file h) (passes : NoSyncFails h s l)
    (moved : s.step l = some t) : t.Kept file h := by
  obtain ⟨ordered, owned, balanced, answered⟩ := kept
  have reached := current_le_length ordered
  have noneFails : NoneFails h .writeFinished s l := by
    intro failed A validating mine
    have sync := passes failed A validating
    rw [Attempt.lock, sync] at mine
    cases mine
  exact ⟨ordered_step ordered owned moved, owned_step owned moved,
    balanced_step balanced reached noneFails moved, answered_step answered balanced rfl owned moved⟩

theorem Kept.durable {file : Bytes} (kept : s.Kept file h) : Durable file h s := by
  intro A returning sync
  have owns := kept.owned h
  rw [returning] at owns
  obtain ⟨job, ⟨at_, type, -⟩, -, stored⟩ := owns
  have early := kept.answered A returning (by rw [Attempt.lock, sync]; rfl)
  have synced := kept.ordered.synced A.job job (lt_of_lt_of_le early s.current_le_done) at_
    (by rw [type, Attempt.type, sync]; rfl)
  rw [queueBytes_take_succ at_, ← List.append_assoc] at synced
  exact ⟨job.W, stored, synced⟩

/-- Synchronous commits are durable in every run in which no synchronous attempt of the
handle fails validation. -/
theorem durable_of_noSyncFails {file : Bytes}
    (run : Reaches step (NoSyncFails h) (initial ι file) s) : Durable file h s := by
  have kept : s.Kept file h := run.invariant (kept_initial file h)
    fun _ _ _ kept passes moved => kept_step kept passes moved
  exact kept.durable

/-! ## A failed synchronous commit -/

/-- The deletion of a node, the log of the transactions below. -/
def oneDeletion : List LogItem := [.nodeDelete 5]

theorem logBytes_oneDeletion : ∃ bytes, logBytes oneDeletion = some bytes ∧ bytes ≠ [] := by
  have element := writesElements_processTransactionLog
    (show transactionBytes (records oneDeletion) = some _ from rfl) (by decide)
  obtain ⟨W, written, output⟩ := element.output
  unfold logBytes
  refine ⟨_, Option.bind_eq_some_iff.mpr ⟨W, written, output⟩, ?_⟩
  simp [frame, Writer.frameHeader]

/-- The steps of a handle up to the validation of a synchronous commit. -/
def syncAttempt (passes : Bool) : List (Label Unit) :=
  [.begin, .record (.nodeDelete 5), .commit .sync, .post, .validate passes].map (.handle ())

theorem step_of_handle {H : Handle} {op : QueueOp ι} {label : HandleLabel}
    (does : (s.handles h).step h s.jobs.length label = some (H, op)) :
    s.step (.handle h label) = some
      { s.queue op with handles := Function.update s.handles h H } := by
  simp only [step, does, Option.map_some]

omit [DecidableEq ι] in
/-- The condition is met where no validation fails. -/
theorem noSyncFails_of_ne {l : Label ι} (other : l ≠ .handle h (.validate false)) (s : State ι) :
    NoSyncFails h s l := fun failed => absurd failed other

/-- Where an answer is left on `write_finished`, a valid synchronous attempt goes on to
its return without the service thread. -/
theorem returns_at_once {A : Attempt} {bytes : Bytes} (stage : (s.handles h).stage = .valid A)
    (sync : A.sync = true) (stored : logBytes A.log = some bytes)
    (left : 0 < (s.handles h).writeFinished) :
    ∃ t, runSteps step s [.handle h .process, .handle h .ready, .handle h .wake] = some t ∧
      (t.handles h).stage = .returning A ∧ t.output = s.output := by
  have lock : A.lock = .writeFinished := by simp [Attempt.lock, sync]
  obtain ⟨s₁, process, stage₁, left₁, output₁⟩ : ∃ t, s.step (.handle h .process) = some t ∧
      (t.handles h).stage = .processed A ∧ 0 < (t.handles h).writeFinished ∧
        t.output = s.output := by
    have does : (s.handles h).step h s.jobs.length .process =
        some ({ s.handles h with stage := .processed A, log := [] }, .fill A.job bytes) := by
      simp only [Handle.step, stage, stored, Option.map_some]
    refine ⟨_, step_of_handle does, ?_, ?_, rfl⟩
    · simp only [Function.update_self]
    · simpa only [Function.update_self] using left
  obtain ⟨s₂, ready, stage₂, left₂, output₂⟩ : ∃ t, s₁.step (.handle h .ready) = some t ∧
      (t.handles h).stage = .waiting A ∧ 0 < (t.handles h).writeFinished ∧
        t.output = s₁.output := by
    have does : (s₁.handles h).step h s₁.jobs.length .ready =
        some ({ (s₁.handles h).cleanup with stage := .waiting A }, .ready A.job) := by
      simp only [Handle.step, stage₁]
    refine ⟨_, step_of_handle does, ?_, ?_, rfl⟩
    · simp only [Function.update_self]
    · simpa only [Function.update_self, Handle.cleanup] using left₁
  obtain ⟨s₃, wake, stage₃, output₃⟩ : ∃ t, s₂.step (.handle h .wake) = some t ∧
      (t.handles h).stage = .returning A ∧ t.output = s₂.output := by
    have does : (s₂.handles h).step h s₂.jobs.length .wake =
        some ({ s₂.handles h with
          writeFinished := (s₂.handles h).writeFinished - 1, stage := .returning A }, .none) := by
      simp only [Handle.step, stage₂, lock, Handle.wait, if_pos left₂, Option.map_some]
    refine ⟨_, step_of_handle does, ?_, rfl⟩
    simp only [Function.update_self]
  refine ⟨s₃, ?_, stage₃, output₃.trans (output₂.trans output₁)⟩
  simp only [runSteps, process, ready, wake, Option.bind_some]

/-- A synchronous commit that waits for its own answer. -/
theorem durable_oneDeletion : ∃ (s : State Unit) (bytes : Bytes),
    (s.handles ()).stage = .returning ⟨0, true, oneDeletion⟩ ∧
      logBytes oneDeletion = some bytes ∧ bytes <+: s.output.synced := by
  obtain ⟨bytes, stored, -⟩ := logBytes_oneDeletion
  have passing : ∀ labels : List (Label Unit), (∀ l ∈ labels, l ≠ .handle () (.validate false)) →
      ∀ l ∈ labels, ∀ s, NoSyncFails () s l :=
    fun _ others l inside s => noSyncFails_of_ne (others l inside) s
  have valid := reaches_of_runSteps (.start (s := initial Unit [])) (passing _ (by decide))
    (show runSteps step _ (syncAttempt true) = some _ from rfl)
  have processed := valid.step (noSyncFails_of_ne (by decide) _) (@step_of_handle _ _ _ () _
    (.fill 0 bytes) .process (congrArg (Option.map _) stored))
  have returning := reaches_of_runSteps processed (passing _ (by decide))
    (show runSteps step _ ([.handle () .ready] ++ List.replicate 6 .service ++
      [.handle () .wake]) = some _ from rfl)
  obtain ⟨bytes', stored', synced⟩ :=
    durable_of_noSyncFails returning ⟨0, true, oneDeletion⟩ rfl rfl
  rw [stored] at stored'
  cases stored'
  exact ⟨_, bytes, rfl, stored, synced⟩

/-- The answer to a failed attempt lets the next synchronous commit return at once. -/
theorem sync_not_durable : ¬ ∀ (file : Bytes) (s : State Unit),
    Reaches step anyStep (initial Unit file) s → Durable file () s := by
  intro always
  obtain ⟨bytes, stored, nonempty⟩ := logBytes_oneDeletion
  obtain ⟨s, run, stage, left, output⟩ : ∃ s, runSteps step (initial Unit [])
      (syncAttempt false ++ [.handle () .ready] ++ List.replicate 6 .service ++
        syncAttempt true) = some s ∧ (s.handles ()).stage = .valid ⟨1, true, oneDeletion⟩ ∧
      (s.handles ()).writeFinished = 1 ∧ s.output.synced = [] := ⟨_, rfl, rfl, rfl, rfl⟩
  obtain ⟨t, run', returning, same⟩ := returns_at_once stage rfl stored (by omega)
  have reached := reaches_of_runSteps
    (reaches_of_runSteps .start (fun _ _ _ => trivial) run) (fun _ _ _ => trivial) run'
  obtain ⟨bytes', stored', synced⟩ := always [] t reached ⟨1, true, oneDeletion⟩ returning rfl
  rw [show logBytes _ = some bytes from stored] at stored'
  cases stored'
  rw [same, output] at synced
  exact nonempty (List.append_eq_nil_iff.mp (List.prefix_nil.mp synced)).2

end State

end HybridDatabase.Service
