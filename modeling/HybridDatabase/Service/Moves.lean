/-
# What the steps of a handle do

The steps of `Handle.step` by their effect on the stage of the handle, on its two
semaphores and on the queue, and what a handle knows about the job it has pushed: only
the service thread and the handle itself change it.
-/

import HybridDatabase.Service.Commit

namespace HybridDatabase.Service

open HybridDatabase.Storage

variable {ι : Type*}

/-! ## What a handle does -/

/-- The effect of a step of a handle on its stage, its semaphores and the queue. -/
inductive Handle.Moves (h : ι) (next : ℕ) (H : Handle) (label : HandleLabel) :
    Handle → QueueOp ι → Prop
  | work {H' : Handle} (before : H.stage = .body) (after : H'.stage = .body)
      (same : H'.value = H.value) : Moves h next H label H' .none
  | asks {H' : Handle} (before : H.stage = .body) (after : H'.stage = .askedSync)
      (same : H'.value = H.value) :
      Moves h next H label H' (.push ⟨.syncMe, some (h, .writeFinished), 0, [], false⟩)
  | pushes {H' : Handle} (A : Attempt) (before : H.stage = .body) (after : H'.stage = .pushed A)
      (same : H'.value = H.value) (number : A.job = next) :
      Moves h next H label H' (.push ⟨A.type, some (h, A.lock), 0, [], true⟩)
  | postsSync {H' : Handle} (before : H.stage = .askedSync) (after : H'.stage = .waitingSync)
      (same : H'.value = H.value) : Moves h next H label H' .post
  | posts {H' : Handle} (A : Attempt) (before : H.stage = .pushed A)
      (after : H'.stage = .validating A) (same : H'.value = H.value) : Moves h next H label H' .post
  | passes {H' : Handle} (A : Attempt) (before : H.stage = .validating A)
      (after : H'.stage = .valid A) (same : H'.value = H.value) : Moves h next H label H' .none
  | fails {H' : Handle} (A : Attempt) (before : H.stage = .validating A)
      (after : H'.stage = .invalid A) (same : H'.value = H.value)
      (failed : label = .validate false) : Moves h next H label H' .none
  | processes {H' : Handle} (A : Attempt) (bytes : Bytes) (before : H.stage = .valid A)
      (after : H'.stage = .processed A) (same : H'.value = H.value)
      (stored : logBytes A.log = some bytes) : Moves h next H label H' (.fill A.job bytes)
  | givesUp {H' : Handle} (A : Attempt) (before : H.stage = .invalid A) (after : H'.stage = .body)
      (same : H'.value = H.value) : Moves h next H label H' (.ready A.job)
  | readies {H' : Handle} (A : Attempt) (before : H.stage = .processed A)
      (after : H'.stage = .waiting A) (same : H'.value = H.value) : Moves h next H label H' (.ready A.job)
  | wakesSync {H' : Handle} (before : H.stage = .waitingSync) (after : H'.stage = .body)
      (positive : 0 < H.value .writeFinished)
      (taken : H'.value = Function.update H.value .writeFinished (H.value .writeFinished - 1)) :
      Moves h next H label H' .none
  | wakes {H' : Handle} (A : Attempt) (before : H.stage = .waiting A)
      (after : H'.stage = .returning A) (positive : 0 < H.value A.lock)
      (taken : H'.value = Function.update H.value A.lock (H.value A.lock - 1)) :
      Moves h next H label H' .none
  | returns {H' : Handle} (A : Attempt) (before : H.stage = .returning A) (after : H'.stage = .body)
      (same : H'.value = H.value) : Moves h next H label H' .none

namespace Handle

variable {h : ι} {next : ℕ} {H H' : Handle} {op : QueueOp ι} {label : HandleLabel}

theorem wait_eq_some {lock : HandleSemaphore} (taken : H.wait lock = some H') :
    0 < H.value lock ∧ H'.stage = H.stage ∧
      H'.value = Function.update H.value lock (H.value lock - 1) := by
  cases lock with
  | writeFinished =>
      simp only [wait, Option.ite_none_right_eq_some, Option.some.injEq] at taken
      obtain ⟨positive, rfl⟩ := taken
      refine ⟨positive, rfl, ?_⟩
      funext lock
      cases lock <;> rfl
  | pendingTransactions =>
      simp only [wait, Option.ite_none_right_eq_some, Option.some.injEq] at taken
      obtain ⟨positive, rfl⟩ := taken
      refine ⟨positive, rfl, ?_⟩
      funext lock
      cases lock <;> rfl

/-- `sem_post` adds one to its semaphore. -/
theorem value_post (lock : HandleSemaphore) :
    (H.post lock).value = Function.update H.value lock (H.value lock + 1) := by
  funext other
  cases lock <;> cases other <;> rfl

@[simp]
theorem stage_post (lock : HandleSemaphore) : (H.post lock).stage = H.stage := by
  cases lock <;> rfl

/-- Every step of a handle is one of the moves. -/
theorem step_moves (moved : H.step h next label = some (H', op)) : Moves h next H label H' op := by
  unfold Handle.step at moved
  split at moved
  · next before =>
      split at moved <;> cases moved <;> exact .work before before rfl
  · next before =>
      split at moved <;> cases moved
      exact .work before before rfl
  · next before =>
      split at moved <;> cases moved
      exact .work before before rfl
  · next before =>
      split at moved <;> cases moved
      exact .work before before rfl
  · next before =>
      split at moved <;> cases moved
      exact .work before before rfl
  · next before =>
      split at moved
      · split at moved
        · split at moved
          · cases moved
            exact .asks before rfl rfl
          · cases moved
            exact .work before before rfl
        · cases moved
          exact .pushes _ before rfl rfl rfl
      · cases moved
  · next before =>
      cases moved
      exact .postsSync before rfl rfl
  · next A before =>
      cases moved
      exact .posts A before rfl rfl
  · next passes A before =>
      cases moved
      cases passes with
      | true => exact .passes A before rfl rfl
      | false => exact .fails A before rfl rfl rfl
  · next A before =>
      obtain ⟨bytes, stored, result⟩ := Option.map_eq_some_iff.mp moved
      cases result
      exact .processes A bytes before rfl rfl stored
  · next A before =>
      cases moved
      exact .givesUp A before rfl rfl
  · next A before =>
      cases moved
      exact .readies A before rfl rfl
  · next before =>
      obtain ⟨H₁, waited, result⟩ := Option.map_eq_some_iff.mp moved
      cases result
      obtain ⟨positive, -, taken⟩ := wait_eq_some waited
      exact .wakesSync before rfl positive taken
  · next A before =>
      obtain ⟨H₁, waited, result⟩ := Option.map_eq_some_iff.mp moved
      cases result
      obtain ⟨positive, -, taken⟩ := wait_eq_some waited
      exact .wakes A before rfl positive taken
  · next A before =>
      cases moved
      exact .returns A before rfl rfl
  · cases moved

end Handle

/-! ## The jobs of a handle -/

/-- The job `n` of the queue is the one of the attempt `A` of handle `h`. -/
def JobOf (h : ι) (A : Attempt) (jobs : List (Job ι)) (job : Job ι) : Prop :=
  jobs[A.job]? = some job ∧ job.type = A.type ∧ job.lock = some (h, A.lock)

/-- What a handle knows about its job while it is in `_tr_commit_main`. -/
def Stage.Owns (h : ι) (jobs : List (Job ι)) : Stage → Prop
  | .body | .askedSync | .waitingSync => True
  | .pushed A | .validating A | .valid A | .invalid A =>
      ∃ job, JobOf h A jobs job ∧ job.filling = true
  | .processed A => ∃ job, JobOf h A jobs job ∧ job.filling = true ∧ logBytes A.log = some job.W
  | .waiting A | .returning A =>
      ∃ job, JobOf h A jobs job ∧ job.filling = false ∧ logBytes A.log = some job.W

/-- The jobs of handle `h` stand where they stood and have only been waited for. -/
def KeepsJobs (h : ι) (jobs jobs' : List (Job ι)) : Prop :=
  ∀ (n : ℕ) (job : Job ι) (lock : HandleSemaphore), jobs[n]? = some job →
    job.lock = some (h, lock) → ∃ job' : Job ι, jobs'[n]? = some job' ∧ job'.type = job.type ∧ job'.lock = job.lock ∧
      job'.W = job.W ∧ job'.filling = job.filling

theorem JobOf.keepsJobs {h : ι} {A : Attempt} {jobs jobs' : List (Job ι)} {job : Job ι}
    (of : JobOf h A jobs job) (keeps : KeepsJobs h jobs jobs') :
    ∃ job', JobOf h A jobs' job' ∧ job'.W = job.W ∧ job'.filling = job.filling := by
  obtain ⟨at_, type, lock⟩ := of
  obtain ⟨job', at', type', lock', W, filling⟩ := keeps _ _ _ at_ lock
  exact ⟨job', ⟨at', type'.trans type, lock'.trans lock⟩, W, filling⟩

theorem Stage.Owns.keepsJobs {h : ι} {jobs jobs' : List (Job ι)} {stage : Stage}
    (owns : stage.Owns h jobs) (keeps : KeepsJobs h jobs jobs') : stage.Owns h jobs' := by
  cases stage with
  | body => trivial
  | askedSync => trivial
  | waitingSync => trivial
  | pushed A | validating A | valid A | invalid A =>
      obtain ⟨job, of, filling⟩ := owns
      obtain ⟨job', of', -, same⟩ := of.keepsJobs keeps
      exact ⟨job', of', same.trans filling⟩
  | processed A =>
      obtain ⟨job, of, filling, stored⟩ := owns
      obtain ⟨job', of', W, same⟩ := of.keepsJobs keeps
      exact ⟨job', of', same.trans filling, by rw [W, stored]⟩
  | waiting A | returning A =>
      obtain ⟨job, of, filled, stored⟩ := owns
      obtain ⟨job', of', W, same⟩ := of.keepsJobs keeps
      exact ⟨job', of', same.trans filled, by rw [W, stored]⟩

theorem keepsJobs_refl (h : ι) (jobs : List (Job ι)) : KeepsJobs h jobs jobs :=
  fun _ job _ at_ _ => ⟨job, at_, rfl, rfl, rfl, rfl⟩

theorem keepsJobs_push (h : ι) (jobs : List (Job ι)) (job : Job ι) :
    KeepsJobs h jobs (jobs ++ [job]) := by
  intro n old lock at_ _
  have inside := (List.getElem?_eq_some_iff.mp at_).1
  exact ⟨old, by rw [List.getElem?_append_left inside, at_], rfl, rfl, rfl, rfl⟩

/-- A change of a job of another handle. -/
theorem keepsJobs_modify {h : ι} {jobs : List (Job ι)} {n : ℕ} {f : Job ι → Job ι}
    (other : ∀ (job : Job ι) lock, jobs[n]? = some job → job.lock ≠ some (h, lock)) :
    KeepsJobs h jobs (jobs.modify n f) := by
  intro m job lock at_ mine
  have apart : n ≠ m := by
    rintro rfl
    exact other job lock at_ mine
  exact ⟨job, by simp [at_, apart], rfl, rfl, rfl, rfl⟩

/-- A wait on the semaphore `ready` of a job. -/
theorem keepsJobs_waitReady (h : ι) (jobs : List (Job ι)) (n : ℕ) :
    KeepsJobs h jobs (jobs.modify n Job.waitReady) := by
  intro m job lock at_ _
  rw [List.getElem?_modify, at_]
  by_cases here : n = m
  · exact ⟨job.waitReady, by simp [here], rfl, rfl, rfl, rfl⟩
  · exact ⟨job, by simp [here], rfl, rfl, rfl, rfl⟩

/-- A handle changes no job of another handle. -/
theorem Handle.Moves.keepsJobs {h h' : ι} {H H' : Handle} {op : QueueOp ι}
    {jobs : List (Job ι)} {label : HandleLabel} (moves : H.Moves h jobs.length label H' op) (owns : H.stage.Owns h jobs)
    (other : h' ≠ h) : KeepsJobs h' jobs (State.jobsAfter jobs op) := by
  have change : ∀ (A : Attempt) (f : Job ι → Job ι) (job : Job ι), JobOf h A jobs job →
      KeepsJobs h' jobs (jobs.modify A.job f) := by
    intro A f job of
    apply keepsJobs_modify
    intro job' lock at_ mine
    rw [of.1] at at_
    cases at_
    rw [of.2.2] at mine
    cases mine
    exact other rfl
  cases moves with
  | work | postsSync | posts | passes | fails | wakesSync | wakes | returns =>
      exact keepsJobs_refl h' jobs
  | asks | pushes => exact keepsJobs_push h' jobs _
  | processes A bytes before | givesUp A before | readies A before =>
      rw [before] at owns
      obtain ⟨job, of, -⟩ := owns
      exact change A _ job of

/-- A handle knows its job after each of its steps. -/
theorem Handle.Moves.owns {h : ι} {H H' : Handle} {op : QueueOp ι} {jobs : List (Job ι)}
    {label : HandleLabel}
    (moves : H.Moves h jobs.length label H' op) (owns : H.stage.Owns h jobs) :
    H'.stage.Owns h (State.jobsAfter jobs op) := by
  cases moves with
  | work before after | asks before after | postsSync before after | givesUp A before after
  | wakesSync before after | returns A before after =>
      rw [after]
      trivial
  | pushes A before after same number =>
      rw [after]
      exact ⟨⟨A.type, some (h, A.lock), 0, [], true⟩,
        ⟨by simp [State.jobsAfter, number], rfl, rfl⟩, rfl⟩
  | posts A before after | passes A before after | fails A before after
  | wakes A before after =>
      rw [before] at owns
      rw [after]
      exact owns
  | processes A bytes before after same stored =>
      rw [before] at owns
      rw [after]
      obtain ⟨job, ⟨at_, type, lock⟩, filling⟩ := owns
      exact ⟨job.fill bytes, ⟨by simp [State.jobsAfter, at_], type, lock⟩, filling,
        stored⟩
  | readies A before after =>
      rw [before] at owns
      rw [after]
      obtain ⟨job, ⟨at_, type, lock⟩, filling, stored⟩ := owns
      exact ⟨job.postReady, ⟨by simp [State.jobsAfter, at_], type, lock⟩, rfl, stored⟩

end HybridDatabase.Service
