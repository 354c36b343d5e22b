/-
# The output queue

The output queue is a linked list of `struct OutputList`.  Producers link their jobs at
`D->tail` under `D->mutex` and post `D->counter` later; the service thread takes a token
for every job and follows the `next` fields, and frees a job after it has read its `next`.

Here a job is a cell at an address, an address can be used again after it has been freed,
and every access to a cell that is not allocated is recorded.  What the service thread does
with a job is left out, apart from the dumps, which take tokens as well.
-/

import Mathlib.Data.List.Nodup
import Mathlib.Logic.Function.Basic
import HybridDatabase.Base.Runs

namespace HybridDatabase.Service.Queue

open HybridDatabase.Base

/-! ## Jobs -/

/-- `enum DbService`. -/
inductive DbService
  | commit
  | syncCommit
  | syncMe
  | startDump
  | createNewFile
  | collectGarbage
  | pause
  deriving DecidableEq, Repr

/-- A job: its type, and its other fields together. -/
structure Job (κ : Type*) where
  type : DbService
  content : κ
  deriving DecidableEq, Repr

/-- `struct OutputList`. -/
structure OutputList (κ : Type*) where
  job : Job κ
  next : ℕ
  deriving DecidableEq, Repr

/-- A pushed job and its address. -/
structure Entry (κ : Type*) where
  address : ℕ
  job : Job κ
  deriving DecidableEq, Repr

variable {κ : Type*}

/-! ## The system -/

/-- What the holder of `D->mutex` does in `output_queue_push`. -/
inductive Holder (κ : Type*)
  /-- In front of `*(D->tail) = O`. -/
  | locked (O : Entry κ) (hasLock : Bool)
  /-- In front of `D->tail = &O->next`. -/
  | linked (O : Entry κ) (hasLock : Bool)
  /-- Behind it. -/
  | advanced (hasLock : Bool)
  /-- A caller that had the lock is back from `output_queue_push`. -/
  | returned
  deriving DecidableEq, Repr

/-- The tokens that the holder has still to post for a job it has linked. -/
def Holder.owed : Holder κ → ℕ
  | .linked _ _ | .advanced _ => 1
  | .locked _ _ | .returned => 0

/-- Where the service thread is. -/
inductive Stage
  /-- In front of the first `sem_wait(D->counter)`. -/
  | start
  /-- In front of `job = D->head`. -/
  | first
  /-- In front of the test of the loop. -/
  | check (job : ℕ)
  /-- In front of the `switch`. -/
  | handle (job : ℕ)
  /-- At `resume`. -/
  | resume (job : ℕ)
  /-- In `do_dump`, with some more nodes to write. -/
  | dumping (job : ℕ)
  /-- In front of `sem_trywait(D->counter)`. -/
  | trying (job : ℕ)
  /-- In front of `sem_wait(D->counter)`. -/
  | waiting (job : ℕ)
  /-- At `next`. -/
  | next (job : ℕ)
  /-- In front of `simple_allocator_free`. -/
  | free (job jobNext : ℕ)
  /-- Behind the loop, in front of `if (dump_running)`. -/
  | leaving
  /-- In the last calls of `do_dump`. -/
  | lastDump
  /-- In front of the `sem_trywait(D->counter)` of such a call. -/
  | lastTry
  | stopped
  deriving DecidableEq, Repr

/-- The queue, the producers and the service thread.  `tail` is `none` for `&D->head` and an
address for the `next` field of the job there; `entering` are the jobs whose producers wait
for `D->mutex`, and `posting` counts the producers in front of `sem_post`.

The last four fields record what has happened: the jobs in the order in which they were
linked, how many of them have been freed, what the service thread has handled, and whether
there was an access to a cell that is not allocated. -/
structure State (κ : Type*) where
  cells : ℕ → Option (OutputList κ)
  head : ℕ
  tail : Option ℕ
  counter : ℕ
  entering : List (Entry κ)
  holder : Option (Holder κ)
  posting : ℕ
  closed : Bool
  service : Stage
  dumpRunning : Bool
  linked : List (Entry κ)
  freed : ℕ
  handled : List (Job κ)
  broken : Bool

/-- The steps.  `call` is the beginning of `output_queue_push` for a new job, with `hasLock`
together with the `pthread_mutex_lock` of the caller; the other steps of a push follow the
statements of `output_queue_push`.  The steps of the service thread say whether a new file
could be opened, whether `do_dump` has come to the end, and whether `sem_trywait` has taken
a token. -/
inductive Label (κ : Type*)
  | call (O : Entry κ) (hasLock : Bool)
  /-- `pthread_mutex_lock` by a producer that waits for it. -/
  | lock (i : ℕ)
  | link
  | advance
  | unlock
  | post (hasLock : Bool)
  /-- The `sem_post` of `database_close`. -/
  | close
  | service (choice : Bool)
  deriving DecidableEq, Repr

namespace State

/-- `database_alloc`. -/
def initial (κ : Type*) : State κ where
  cells := fun _ => none
  head := 0
  tail := none
  counter := 0
  entering := []
  holder := none
  posting := 0
  closed := false
  service := .start
  dumpRunning := false
  linked := []
  freed := 0
  handled := []
  broken := false

/-- `*(D->tail) = O`. -/
def store (s : State κ) (O : ℕ) : State κ :=
  match s.tail with
  | none => { s with head := O }
  | some n =>
      match s.cells n with
      | some c => { s with cells := Function.update s.cells n (some { c with next := O }) }
      | none => { s with broken := true }

/-- `sem_wait(D->counter)`, which is not enabled at 0. -/
def wait (s : State κ) (then_ : Stage) : Option (State κ) :=
  if 0 < s.counter then some { s with counter := s.counter - 1, service := then_ } else none

/-- The `switch`.  A dump is started unless one is running or no file could be opened. -/
def handle (s : State κ) (job : ℕ) (opened : Bool) : State κ :=
  match s.cells job with
  | none => { s with broken := true }
  | some c =>
      { s with
        handled := s.handled ++ [c.job]
        dumpRunning := s.dumpRunning || (c.job.type = .startDump && opened)
        service := .resume job }

/-- One step of the service thread. -/
def serviceStep (s : State κ) (choice : Bool) : Option (State κ) :=
  match s.service with
  | .start => s.wait .first
  | .first => some { s with service := .check s.head }
  | .check job => some { s with service := if job = 0 then .leaving else .handle job }
  | .handle job => some (s.handle job choice)
  | .resume job => some { s with service := if s.dumpRunning then .dumping job else .waiting job }
  | .dumping job =>
      some (if choice then { s with dumpRunning := false, service := .waiting job }
        else { s with service := .trying job })
  | .trying job => if choice then s.wait (.next job) else some { s with service := .dumping job }
  | .waiting job => s.wait (.next job)
  | .next job =>
      match s.cells job with
      | none => some { s with broken := true }
      | some c => some { s with service := .free job c.next }
  | .free job jobNext =>
      match s.cells job with
      | none => some { s with broken := true }
      | some _ =>
          some { s with
            cells := Function.update s.cells job none
            freed := s.freed + 1
            service := .check jobNext }
  | .leaving => some { s with service := if s.dumpRunning then .lastDump else .stopped }
  | .lastDump =>
      some (if choice then { s with dumpRunning := false, service := .stopped }
        else { s with service := .lastTry })
  | .lastTry => if choice then s.wait .lastDump else some { s with service := .lastDump }
  | .stopped => none

/-- One step of the system.  `database_close` comes when no producer has a job left to link. -/
def step (s : State κ) : Label κ → Option (State κ)
  | .call O hasLock =>
      if s.closed = false ∧ O.address ≠ 0 ∧ s.cells O.address = none then
        let s := { s with cells := Function.update s.cells O.address (some ⟨O.job, 0⟩) }
        if hasLock then
          match s.holder with
          | none => some { s with holder := some (.locked O true) }
          | some _ => none
        else some { s with entering := O :: s.entering }
      else none
  | .lock i =>
      match s.entering[i]?, s.holder with
      | some O, none =>
          some { s with entering := s.entering.eraseIdx i, holder := some (.locked O false) }
      | _, _ => none
  | .link =>
      match s.holder with
      | some (.locked O hasLock) =>
          some { s.store O.address with
            holder := some (.linked O hasLock)
            linked := s.linked ++ [O] }
      | _ => none
  | .advance =>
      match s.holder with
      | some (.linked O hasLock) =>
          some { s with tail := some O.address, holder := some (.advanced hasLock) }
      | _ => none
  | .unlock =>
      match s.holder with
      | some (.advanced false) => some { s with holder := none, posting := s.posting + 1 }
      | some .returned => some { s with holder := none }
      | _ => none
  | .post false =>
      if 0 < s.posting then some { s with posting := s.posting - 1, counter := s.counter + 1 }
      else none
  | .post true =>
      match s.holder with
      | some (.advanced true) => some { s with holder := some .returned, counter := s.counter + 1 }
      | _ => none
  | .close =>
      match s.closed, s.entering, s.holder with
      | false, [], none => some { s with closed := true, counter := s.counter + 1 }
      | _, _, _ => none
  | .service choice => s.serviceStep choice

/-! ## What is delivered -/

/-- The job that comes after the handled ones. -/
def upcoming (s : State κ) : Option (Entry κ) := s.linked[s.handled.length]?

/-- The database is being closed, no push can follow, and all jobs have been handled. -/
def Exhausted (s : State κ) : Prop :=
  (s.closed = true ∧ s.entering = [] ∧ s.holder = none) ∧ s.handled = s.linked.map Entry.job

/-- The tokens that the holder of `D->mutex` has still to post for the job it has linked. -/
def owed (s : State κ) : ℕ := s.holder.elim 0 Holder.owed

/-- What the queue promises: what has been handled is a beginning of what has been linked;
what the service thread takes for a job is the next one, with the contents it was pushed
with; a `next` field is read when the successor is linked, or when there will be none; a job
is freed when `D->tail` has moved on, or when no push can follow; the service thread leaves
its loop when everything has been handled, and waits for a token only while there is nothing
to handle or a producer has still to post. -/
structure Delivered (s : State κ) : Prop where
  sound : s.broken = false
  ordered : s.handled <+: s.linked.map Entry.job
  present : ∀ job, s.service = .handle job → ∃ O next,
    s.upcoming = some O ∧ O.address = job ∧ s.cells job = some ⟨O.job, next⟩
  successor : ∀ job, s.service = .next job → ∃ c, s.cells job = some c ∧
    ((∃ O, s.upcoming = some O ∧ c.next = O.address) ∨ (c.next = 0 ∧ s.Exhausted))
  tail : ∀ job jobNext, s.service = .free job jobNext → s.tail = some job → s.Exhausted
  attached : ∀ n, s.tail = some n → s.closed = false → s.cells n ≠ none
  complete : s.service ∈ [.leaving, .lastDump, .lastTry, .stopped] → s.Exhausted
  awake : (s.service = .start ∨ ∃ job, s.service = .waiting job) →
    s.counter = 0 → s.posting = 0 → s.owed = 0 →
    s.closed = false ∧ s.handled = s.linked.map Entry.job

end State

end HybridDatabase.Service.Queue
