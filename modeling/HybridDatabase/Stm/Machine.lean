/-
# The transactional memory

Handles run transactions over cells of memory, in any interleaving of their atomic steps.  Cells
are written in place: a transaction keeps what it has overwritten, and its locks, until it ends.
A lock may guard more than one cell: the lock of a node all of its attributes, the lock of an
index all that belongs to it, and a lock of the global table whatever `hash_ptr` leads to it.
`lockOf` says which lock a cell has; where it is `id`, the cells are objects with a lock each.

The word of a lock is odd when the lock is free, and is its version then; else it is the
address of the handle that has the lock.  A commit draws its end time, puts its entry into the
output queue and only then looks whether what it has read is still the same; the locks it frees
get the end time as their version.

The events of the transactions, and the transactions that have ended, are recorded beside the
state of the source.
-/

import HybridDatabase.Base.Runs
import HybridDatabase.Stm.Trace

namespace HybridDatabase.Stm

open HybridDatabase.Base

universe u v w z

/-! ## The state -/

/-- Where a handle is between two atomic steps. -/
inductive Stage (Lk : Type v) (Cell : Type w) (Val : Type z)
  /-- `start_time` is zero. -/
  | idle
  | running
  /-- `trRead_` has loaded a value and has not checked the lock yet. -/
  | reading (c : Cell) (value : Val)
  /-- `_tr_handle_rollback` of a nested or of the main transaction, down to a position in the
  log. -/
  | rollingBack (pos : ℕ) (main : Bool)
  /-- `_tr_commit_main` has increased the time. -/
  | pushing (endTime : ℕ)
  /-- `tr_validate`, with the rest of the read set. -/
  | validating (endTime : ℕ) (rest : List Lk)
  /-- `_tr_unlock`. -/
  | unlocking (endTime : ℕ)
  deriving DecidableEq

/-- `Handle`.  `transactions` are the nested transactions that are open, the newest one first,
each with the sizes of the read set and of the log when it began; the log holds what has been
overwritten.  `events` are those of the transaction. -/
structure Handle (Lk : Type v) (Cell : Type w) (Val : Type z) where
  startTime : ℕ
  readSet : List Lk
  transactions : List (ℕ × ℕ)
  log : List (Cell × Val)
  acquiredLocks : List Lk
  stage : Stage Lk Cell Val
  events : List (Event Cell Val)

/-- The database and its handles.  The output queue holds the end times of its entries, the
oldest one first.  `committed` are the transactions that have passed their validation, `readers`
those that have committed with an empty log, and `aborted` those that have been rolled back. -/
structure State (ι : Type u) (Lk : Type v) (Cell : Type w) (Val : Type z) where
  time : ℕ
  memory : Cell → Val
  locks : Lk → ℕ
  handles : ι → Handle Lk Cell Val
  queue : List ℕ
  committed : List (Txn Cell Val)
  readers : List (Txn Cell Val)
  aborted : List (Txn Cell Val)

/-- The addresses of the handles. -/
structure Addresses (ι : Type u) where
  address : ι → ℕ
  aligned : ∀ h, address h % 2 = 0
  injective : Function.Injective address

variable {ι : Type u} {Lk : Type v} {Cell : Type w} {Val : Type z}

namespace Handle

/-- `handle_cleanup`. -/
def cleanup : Handle Lk Cell Val := ⟨0, [], [], [], [], .idle, []⟩

/-- The end of a transaction. -/
def txn (H : Handle Lk Cell Val) (endTime : ℕ) : Txn Cell Val := ⟨H.startTime, endTime, H.events⟩

/-- `_tr_handle_rollback` of the main transaction up to its loop. -/
def abortMain (H : Handle Lk Cell Val) : Handle Lk Cell Val :=
  { H with
    readSet := []
    stage := .rollingBack 0 true }

end Handle

/-- What a handle does in one step.  `trUncheckedRead` is recorded in the read set alone, and
`advance` goes on in a call that has more than one step. -/
inductive Action (Lk : Type v) (Cell : Type w) (Val : Type z)
  | trBegin
  | load (c : Cell)
  | trUncheckedRead (c : Cell)
  | utilLock (l : Lk)
  | write (c : Cell) (value : Val)
  | trCommit
  | trAbort
  | trHardAbort
  | advance
  deriving DecidableEq

namespace State

variable [DecidableEq ι] [DecidableEq Lk] [DecidableEq Cell] (A : Addresses ι) (lockOf : Cell → Lk)
  (s : State ι Lk Cell Val) (h : ι)

/-- The state with another handle. -/
def setHandle (H : Handle Lk Cell Val) : State ι Lk Cell Val :=
  { s with handles := Function.update s.handles h H }

/-- `l_check`. -/
def lCheck (l : Lk) : Bool :=
  if s.locks l % 2 = 1 then s.locks l ≤ (s.handles h).startTime else s.locks l = A.address h

/-- `tr_begin`. -/
def trBegin : Option (State ι Lk Cell Val) :=
  let H := s.handles h
  match H.stage with
  | .idle => some (s.setHandle h { H with
      startTime := s.time
      stage := .running })
  | .running => some (s.setHandle h { H with
      transactions := (H.readSet.length, H.log.length) :: H.transactions
      events := H.events ++ [.trBegin] })
  | _ => none

/-- The first step of `trRead_`: the lock is added to the read set, and the value is loaded. -/
def load (c : Cell) : Option (State ι Lk Cell Val) :=
  let H := s.handles h
  match H.stage with
  | .running => some (s.setHandle h { H with
      readSet := H.readSet ++ [lockOf c]
      stage := .reading c (s.memory c) })
  | _ => none

/-- `trUncheckedRead_`. -/
def trUncheckedRead (c : Cell) : Option (State ι Lk Cell Val) :=
  let H := s.handles h
  match H.stage with
  | .running => some (s.setHandle h { H with readSet := H.readSet ++ [lockOf c] })
  | _ => none

/-- `util_lock`; a lock that cannot be had is left alone. -/
def utilLock (l : Lk) : Option (State ι Lk Cell Val) :=
  let H := s.handles h
  match H.stage with
  | .running =>
      if s.locks l % 2 = 1 ∧ s.locks l ≤ H.startTime then
        some { s with
          locks := Function.update s.locks l (A.address h)
          handles := Function.update s.handles h
            { H with acquiredLocks := l :: H.acquiredLocks } }
      else some s
  | _ => none

/-- The write of `trWrite_`, after `util_lock` has succeeded. -/
def write (c : Cell) (value : Val) : Option (State ι Lk Cell Val) :=
  let H := s.handles h
  match H.stage with
  | .running =>
      if s.locks (lockOf c) = A.address h then
        some { s with
          memory := Function.update s.memory c value
          handles := Function.update s.handles h { H with
            log := H.log ++ [(c, s.memory c)]
            events := H.events ++ [.write c value] } }
      else none
  | _ => none

/-- `tr_commit` up to the first step that others see. -/
def trCommit : Option (State ι Lk Cell Val) :=
  let H := s.handles h
  match H.stage, H.transactions with
  | .running, _ :: transactions => some (s.setHandle h { H with
      transactions := transactions
      events := H.events ++ [.trCommit] })
  | .running, [] =>
      if H.log.isEmpty then
        some { s with
          time := s.time + 2
          handles := Function.update s.handles h { H with stage := .unlocking (s.time + 2) }
          readers := s.readers ++ [H.txn (s.time + 2)] }
      else
        some { s with
          time := s.time + 2
          handles := Function.update s.handles h { H with stage := .pushing (s.time + 2) } }
  | _, _ => none

/-- `tr_abort` up to the loop of the rollback. -/
def trAbort : Option (State ι Lk Cell Val) :=
  let H := s.handles h
  match H.stage, H.transactions with
  | .running, (readSet, pos) :: _ => some (s.setHandle h { H with
      readSet := H.readSet.take readSet
      stage := .rollingBack pos false })
  | .running, [] => some (s.setHandle h H.abortMain)
  | _, _ => none

/-- `tr_hard_abort` up to the loop of the rollback. -/
def trHardAbort : Option (State ι Lk Cell Val) :=
  let H := s.handles h
  match H.stage with
  | .running => some (s.setHandle h H.abortMain)
  | _ => none

/-- One round of the loop of `_tr_handle_rollback`, or what comes after it. -/
def rollBack (pos : ℕ) (main : Bool) : Option (State ι Lk Cell Val) :=
  let H := s.handles h
  if H.log.length = pos then
    if main then
      some { s with
        time := s.time + 2
        handles := Function.update s.handles h { H with stage := .unlocking (s.time + 2) }
        aborted := s.aborted ++ [H.txn (s.time + 2)] }
    else
      some (s.setHandle h { H with
        transactions := H.transactions.tail
        stage := .running
        events := H.events ++ [.trAbort] })
  else
    H.log.getLast?.map fun (c, old) =>
      { s with
        memory := Function.update s.memory c old
        handles := Function.update s.handles h { H with log := H.log.dropLast } }

/-- One round of the loop of `tr_validate`, or what comes after it. -/
def validate (endTime : ℕ) : List Lk → State ι Lk Cell Val
  | [] =>
      let H := s.handles h
      { s with
        handles := Function.update s.handles h { H with stage := .unlocking endTime }
        committed := s.committed ++ [H.txn endTime] }
  | l :: rest =>
      let H := s.handles h
      if s.lCheck A h l then s.setHandle h { H with stage := .validating endTime rest }
      else s.setHandle h H.abortMain

/-- One round of the loop of `_tr_unlock`, or `handle_cleanup`. -/
def unlock (endTime : ℕ) : State ι Lk Cell Val :=
  let H := s.handles h
  match H.acquiredLocks with
  | [] => s.setHandle h .cleanup
  | l :: acquiredLocks =>
      { s with
        locks := if s.locks l = A.address h then Function.update s.locks l endTime else s.locks
        handles := Function.update s.handles h { H with acquiredLocks := acquiredLocks } }

/-- The next step of a call. -/
def advance : Option (State ι Lk Cell Val) :=
  let H := s.handles h
  match H.stage with
  | .idle | .running => none
  | .reading c value =>
      if s.lCheck A h (lockOf c) then some (s.setHandle h { H with
        stage := .running
        events := H.events ++ [.read c value] })
      else some (s.setHandle h { H with stage := .running })
  | .rollingBack pos main => s.rollBack h pos main
  | .pushing endTime => some { s with
      handles := Function.update s.handles h { H with stage := .validating endTime H.readSet }
      queue := s.queue ++ [endTime] }
  | .validating endTime rest => some (s.validate A h endTime rest)
  | .unlocking endTime => some (s.unlock A h endTime)

/-- One step of a handle. -/
def step (s : State ι Lk Cell Val) : ι × Action Lk Cell Val → Option (State ι Lk Cell Val)
  | (h, .trBegin) => s.trBegin h
  | (h, .load c) => s.load lockOf h c
  | (h, .trUncheckedRead c) => s.trUncheckedRead lockOf h c
  | (h, .utilLock l) => s.utilLock A h l
  | (h, .write c value) => s.write A lockOf h c value
  | (h, .trCommit) => s.trCommit h
  | (h, .trAbort) => s.trAbort h
  | (h, .trHardAbort) => s.trHardAbort h
  | (h, .advance) => s.advance A lockOf h

/-- No handle has a transaction, and nothing has been recorded. -/
structure Initial (s : State ι Lk Cell Val) : Prop where
  odd : s.time % 2 = 1
  free : ∀ l, s.locks l % 2 = 1 ∧ s.locks l ≤ s.time
  handles : ∀ h, s.handles h = .cleanup
  queue : s.queue = []
  committed : s.committed = []
  readers : s.readers = []
  aborted : s.aborted = []

end State

end HybridDatabase.Stm
