/-
# Commits and the service thread

Any number of handles commit transactions, and the service thread writes them to the
file.  A handle gives the service thread a job before it knows whether its transaction
is valid, and says on the job's semaphore `ready` when it has decided; the service
thread answers on one of the two semaphores of the handle.

The steps of a handle are the atomic steps of `_tr_commit_main` in its default form
(`FAST_COMMIT`, `SIMPLE_SERVICE_THREAD`, `DB_DEFER_DEALLOC`) and of the functions that
prepare its log.  Whether `tr_validate` succeeds is open here: both outcomes are
steps.  Locks and the clock play no role for the service thread and are left out.
-/

import Mathlib.Logic.Function.Basic
import HybridDatabase.Base.Runs
import HybridDatabase.Database.Write
import HybridDatabase.Service.Output

namespace HybridDatabase.Service

open HybridDatabase.Base HybridDatabase.Storage HybridDatabase.Database

/-! ## Jobs -/

inductive CommitType
  | sync
  | async
  | forceAsync
  deriving DecidableEq, Repr

/-- The semaphores of a handle. -/
inductive HandleSemaphore
  | writeFinished
  | pendingTransactions
  deriving DecidableEq, Repr

/-- The services that handles and the timer ask for. -/
inductive DbService
  | commit
  | syncCommit
  | syncMe
  deriving DecidableEq, Repr

variable {ι : Type*}

/-- `struct OutputList`.  A job is `filling` until its handle has posted `ready`. -/
structure Job (ι : Type*) where
  type : DbService
  lock : Option (ι × HandleSemaphore)
  ready : ℕ
  W : Bytes
  filling : Bool

namespace Job

/-- `process_transaction_log` into the writer of the job. -/
def fill (W : Bytes) (job : Job ι) : Job ι := { job with W := W }

/-- `sem_post(&O->ready)`: the handle is done with the job. -/
def postReady (job : Job ι) : Job ι := { job with ready := job.ready + 1, filling := false }

/-- `sem_wait(&job->ready)`, where it is enabled. -/
def waitReady (job : Job ι) : Job ι := { job with ready := job.ready - 1 }

end Job

/-- What `process_transaction_log` leaves in the writer of a job. -/
@[irreducible]
def logBytes (log : List LogItem) : Option Bytes :=
  (processTransactionLog Writer.init log).bind Writer.output

/-! ## Handles -/

/-- `BD_MAX_PENDING_TRANSACTIONS_PER_HANDLER`. -/
def maxPendingTransactions : ℕ := 128

/-- `struct Transaction`, without the read set. -/
structure Transaction where
  pos : ℕ
  commitType : CommitType
  deriving DecidableEq, Repr

/-- A call of `_tr_commit_main` with something to write: the number of its job in the
queue, whether it commits synchronously, and the log. -/
structure Attempt where
  job : ℕ
  sync : Bool
  log : List LogItem
  deriving DecidableEq, Repr

/-- The semaphore that an attempt waits for. -/
def Attempt.lock (A : Attempt) : HandleSemaphore :=
  if A.sync then .writeFinished else .pendingTransactions

/-- The service that an attempt asks for. -/
def Attempt.type (A : Attempt) : DbService := if A.sync then .syncCommit else .commit

/-- Where a handle is in `_tr_commit_main`. -/
inductive Stage
  /-- Outside of it. -/
  | body
  /-- The empty transaction has linked its `SYNC_ME`. -/
  | askedSync
  /-- The empty transaction waits for `write_finished`. -/
  | waitingSync
  /-- The job is linked, `counter` not yet posted. -/
  | pushed (A : Attempt)
  /-- In front of `tr_validate`. -/
  | validating (A : Attempt)
  | valid (A : Attempt)
  | invalid (A : Attempt)
  /-- The log is in the writer of the job. -/
  | processed (A : Attempt)
  /-- In front of the last `sem_wait`. -/
  | waiting (A : Attempt)
  /-- In front of `return true`. -/
  | returning (A : Attempt)
  deriving DecidableEq, Repr

/-- `Handle`; `running` stands for `start_time != 0`. -/
structure Handle where
  stage : Stage
  running : Bool
  commitType : CommitType
  transactions : List Transaction
  log : List LogItem
  writeFinished : ℕ
  pendingTransactions : ℕ
  deriving DecidableEq, Repr

namespace Handle

/-- `db_handle_init`. -/
def init : Handle where
  stage := .body
  running := false
  commitType := .async
  transactions := []
  log := []
  writeFinished := 0
  pendingTransactions := maxPendingTransactions

/-- The value of a semaphore of the handle. -/
def value (H : Handle) : HandleSemaphore → ℕ
  | .writeFinished => H.writeFinished
  | .pendingTransactions => H.pendingTransactions

/-- `sem_post`. -/
def post (H : Handle) : HandleSemaphore → Handle
  | .writeFinished => { H with writeFinished := H.writeFinished + 1 }
  | .pendingTransactions => { H with pendingTransactions := H.pendingTransactions + 1 }

/-- `sem_wait`, which is not enabled at 0. -/
def wait (H : Handle) : HandleSemaphore → Option Handle
  | .writeFinished =>
      if 0 < H.writeFinished then some { H with writeFinished := H.writeFinished - 1 } else none
  | .pendingTransactions =>
      if 0 < H.pendingTransactions then
        some { H with pendingTransactions := H.pendingTransactions - 1 }
      else none

/-- `handle_cleanup`. -/
def cleanup (H : Handle) : Handle :=
  { H with running := false, commitType := .async, transactions := [], log := [] }

/-- The commit type that counts: an asynchronous commit takes over the one of the
nested transactions. -/
def effective (H : Handle) (commitType : CommitType) : CommitType :=
  if commitType = .async then H.commitType else commitType

end Handle

/-- The steps of a handle. -/
inductive HandleLabel
  | begin
  | record (item : LogItem)
  | commitNested (commitType : CommitType)
  | abortNested
  | abort
  | commit (commitType : CommitType)
  | post
  | validate (passes : Bool)
  | process
  | ready
  | wake
  | finish
  deriving DecidableEq, Repr

/-- What a step does to the output queue. -/
inductive QueueOp (ι : Type*)
  | none
  | push (job : Job ι)
  | post
  | fill (n : ℕ) (W : Bytes)
  | ready (n : ℕ)

/-- One step of handle `h` where the next job of the queue has number `next`. -/
def Handle.step (h : ι) (next : ℕ) (H : Handle) (label : HandleLabel) :
    Option (Handle × QueueOp ι) :=
  match label, H.stage with
  | .begin, .body =>
      some (if H.running then
        { H with transactions := ⟨H.log.length, H.commitType⟩ :: H.transactions }
        else { H with running := true }, .none)
  | .record item, .body =>
      if H.running then some ({ H with log := H.log ++ [item] }, .none) else none
  | .commitNested commitType, .body =>
      match H.transactions with
      | [] => none
      | _ :: transactions =>
          some ({ H with
            transactions := transactions
            commitType := match commitType with
              | .sync => .sync
              | .forceAsync => .async
              | .async => H.commitType }, .none)
  | .abortNested, .body =>
      match H.transactions with
      | [] => none
      | t :: transactions =>
          some ({ H with
            transactions := transactions
            log := H.log.take t.pos
            commitType := t.commitType }, .none)
  | .abort, .body => if H.running then some (H.cleanup, .none) else none
  | .commit commitType, .body =>
      if H.running ∧ H.transactions = [] then
        if H.log = [] then
          if H.effective commitType = .sync then
            some ({ H.cleanup with stage := .askedSync },
              .push ⟨.syncMe, some (h, .writeFinished), 0, [], false⟩)
          else some (H.cleanup, .none)
        else
          let A : Attempt := ⟨next, H.effective commitType = .sync, H.log⟩
          some ({ H with stage := .pushed A }, .push ⟨A.type, some (h, A.lock), 0, [], true⟩)
      else none
  | .post, .askedSync => some ({ H with stage := .waitingSync }, .post)
  | .post, .pushed A => some ({ H with stage := .validating A }, .post)
  | .validate passes, .validating A =>
      some ({ H with stage := if passes then .valid A else .invalid A }, .none)
  | .process, .valid A =>
      (logBytes A.log).map fun bytes =>
        ({ H with stage := .processed A, log := [] }, .fill A.job bytes)
  | .ready, .invalid A => some ({ H.cleanup with stage := .body }, .ready A.job)
  | .ready, .processed A => some ({ H.cleanup with stage := .waiting A }, .ready A.job)
  | .wake, .waitingSync =>
      (H.wait .writeFinished).map fun H => ({ H with stage := .body }, .none)
  | .wake, .waiting A => (H.wait A.lock).map fun H => ({ H with stage := .returning A }, .none)
  | .finish, .returning _ => some ({ H with stage := .body }, .none)
  | _, _ => none

/-! ## The service thread -/

/-- Where the service thread is with the job it has come to. -/
inductive ServiceStage
  /-- In front of `sem_wait(D->counter)`. -/
  | idle
  /-- In front of the `switch`. -/
  | dispatch
  /-- In front of `sem_wait(&job->ready)`. -/
  | unready
  | write
  | sync
  | post
  /-- Behind the loop. -/
  | stopped
  deriving DecidableEq, Repr

/-- The handles, the output queue and the service thread.  Handled jobs stay in `jobs`,
`current` is the number of the job that the service thread has come to. -/
structure State (ι : Type*) where
  handles : ι → Handle
  jobs : List (Job ι)
  counter : ℕ
  timerPosting : Bool
  current : ℕ
  service : ServiceStage
  output : Output

namespace State

/-- The service thread starts on a file that holds some bytes already. -/
def initial (ι : Type*) (file : Bytes) : State ι where
  handles := fun _ => .init
  jobs := []
  counter := 0
  timerPosting := false
  current := 0
  service := .idle
  output := .ofFile file

/-- `jobs` after a step of a handle. -/
def jobsAfter (jobs : List (Job ι)) : QueueOp ι → List (Job ι)
  | .push job => jobs ++ [job]
  | .fill n W => jobs.modify n (Job.fill W)
  | .ready n => jobs.modify n Job.postReady
  | _ => jobs

/-- The queue after a step of a handle. -/
def queue (s : State ι) (op : QueueOp ι) : State ι :=
  { s with
    jobs := jobsAfter s.jobs op
    counter := match op with
      | .post => s.counter + 1
      | _ => s.counter }

variable [DecidableEq ι]

/-- `sem_post(job->lock)`, where there is one. -/
def postLock (s : State ι) : Option (ι × HandleSemaphore) → State ι
  | none => s
  | some (h, lock) =>
      { s with handles := Function.update s.handles h ((s.handles h).post lock) }

/-- One step of the service thread. -/
def serviceStep (s : State ι) : Option (State ι) :=
  match s.service with
  | .idle =>
      if 0 < s.counter then some { s with counter := s.counter - 1, service := .dispatch }
      else none
  | .dispatch =>
      match s.jobs[s.current]? with
      | none => some { s with output := s.output.bufferedSync, service := .stopped }
      | some job =>
          some { s with service := if job.type = .syncMe then .sync else .unready }
  | .unready => do
      let job ← s.jobs[s.current]?
      if 0 < job.ready then
        some { s with
          jobs := s.jobs.modify s.current Job.waitReady
          service := .write }
      else none
  | .write => do
      let job ← s.jobs[s.current]?
      some { s with
        output := s.output.bufferedWrite job.W
        service := if job.type = .syncCommit then .sync else .post }
  | .sync => some { s with output := s.output.bufferedSync, service := .post }
  | .post => do
      let job ← s.jobs[s.current]?
      some { s.postLock job.lock with current := s.current + 1, service := .idle }
  | .stopped => none

/-- The steps of the system.  `timer` is a step of the thread that asks for `SYNC_ME`
every few seconds, `close` the `sem_post` of `database_close`. -/
inductive Label (ι : Type*)
  | handle (h : ι) (label : HandleLabel)
  | timer
  | close
  | service
  deriving DecidableEq

/-- One step of the system. -/
def step (s : State ι) : Label ι → Option (State ι)
  | .handle h label =>
      ((s.handles h).step h s.jobs.length label).map fun (H, op) =>
        { s.queue op with handles := Function.update s.handles h H }
  | .timer =>
      some (if s.timerPosting then { s.queue .post with timerPosting := false }
        else { s.queue (.push ⟨.syncMe, none, 0, [], false⟩) with timerPosting := true })
  | .close => some (s.queue .post)
  | .service => s.serviceStep

end State

end HybridDatabase.Service
