/-
# The commit type of nested transactions

Nested transactions leave the handle a commit type for the commit of the main transaction:
the last one that was not `CT_ASYNC` counts, as long as no transaction around it has been
aborted.

Besides the handle there is an account of the commits that count: for each open transaction
the nested commits inside it.  A nested commit adds to the account of the transaction around
it, an abort drops its account, and a main transaction begins with an empty one.
-/

import Mathlib.Data.List.Induction
import HybridDatabase.Service.Commit

namespace HybridDatabase.Service

open HybridDatabase.Base

variable {ι : Type*}

/-! ## The account -/

/-- A commit of a main transaction: the commits that count for it, the semaphores it has
waited for, and its answer. -/
structure MainCommit where
  type : CommitType
  counted : List CommitType
  waited : List HandleSemaphore
  answer : Option Bool
  deriving DecidableEq, Repr

/-- The nested commits that count in each open transaction, the innermost one first, and the
last commit of a main transaction. -/
structure Account where
  levels : List (List CommitType)
  last : Option MainCommit
  deriving DecidableEq, Repr

/-- It has to wait until it is on the disk. -/
def MainCommit.Sync (call : MainCommit) : Prop :=
  call.type = .sync ∨
    call.type = .async ∧ (call.counted.filter (· ≠ .async)).getLast? = some .sync

/-- The account of the commits after a call. -/
def levelsAfter (levels : List (List CommitType)) : HandleLabel → List (List CommitType)
  | .begin => [] :: levels
  | .commitNested type =>
      match levels with
      | inner :: outer :: levels => (outer ++ (inner ++ [type])) :: levels
      | levels => levels
  | .abortNested => levels.tail
  | .abort | .commit _ => []
  | _ => levels

/-- What a step at a stage means for the commit that goes on: `sem_wait` on the semaphores,
`return true` and `return false`. -/
def MainCommit.after (stage : Stage) (label : HandleLabel) (call : MainCommit) : MainCommit :=
  match label, stage with
  | .wake, .waitingSync =>
      { call with waited := call.waited ++ [.writeFinished], answer := some true }
  | .wake, .waiting A => { call with waited := call.waited ++ [A.lock] }
  | .finish, .returning _ => { call with answer := some true }
  | .ready, .invalid _ => { call with answer := some false }
  | _, _ => call

/-- The account after a step from a stage; without a job a commit may return at once. -/
def Account.after (stage stage' : Stage) (label : HandleLabel) (account : Account) : Account where
  levels := levelsAfter account.levels label
  last :=
    match label with
    | .commit type =>
        some ⟨type, account.levels.headD [], [], if stage' = .body then some true else none⟩
    | label => account.last.map (MainCommit.after stage label)

/-- Steps of the handle, and posts of the service thread. -/
inductive AccountLabel
  | own (next : ℕ) (label : HandleLabel)
  | posted (lock : HandleSemaphore)
  deriving DecidableEq, Repr

/-- A handle with its account. -/
def accountStep (h : ι) (s : Handle × Account) : AccountLabel → Option (Handle × Account)
  | .own next label => (s.1.step h next label).map fun (H, _) =>
      (H, s.2.after s.1.stage H.stage label)
  | .posted lock => some (s.1.post lock, s.2)

/-! ## The commit type of the handle -/

/-- What a nested commit leaves in the handle. -/
def takeOver (before : CommitType) : CommitType → CommitType
  | .sync => .sync
  | .forceAsync => .async
  | .async => before

/-- The last commit that is not asynchronous counts. -/
theorem foldl_takeOver_eq_sync (counted : List CommitType) :
    counted.foldl takeOver .async = .sync ↔
      (counted.filter (· ≠ .async)).getLast? = some .sync := by
  induction counted using List.reverseRecOn with
  | nil => exact iff_of_false (by decide) (by decide)
  | append_singleton counted type ih =>
      rw [List.foldl_append, List.filter_append]
      cases type with
      | sync => simp [takeOver]
      | async => simpa [takeOver] using ih
      | forceAsync => simp [takeOver]

/-- The commit types that the handle and its open transactions have, by the account. -/
inductive Tracks : List (List CommitType) → List Transaction → CommitType → Prop
  | main (counted : List CommitType) : Tracks [counted] [] (counted.foldl takeOver .async)
  | nested (counted : List CommitType) {levels : List (List CommitType)} {t : Transaction}
      {transactions : List Transaction} (outside : Tracks levels transactions t.commitType) :
      Tracks (counted :: levels) (t :: transactions) (counted.foldl takeOver t.commitType)

variable {levels : List (List CommitType)} {transactions : List Transaction} {type : CommitType}

theorem Tracks.ne_nil (tracks : Tracks levels transactions type) : levels ≠ [] := by
  cases tracks <;> exact List.cons_ne_nil _ _

/-- More commits in the innermost transaction. -/
theorem Tracks.extend {counted : List CommitType}
    (tracks : Tracks (counted :: levels) transactions type) (more : List CommitType) :
    Tracks ((counted ++ more) :: levels) transactions (more.foldl takeOver type) := by
  cases tracks with
  | main =>
      rw [← List.foldl_append]
      exact .main _
  | nested _ outside =>
      rw [← List.foldl_append]
      exact .nested _ outside

/-- A nested commit. -/
theorem Tracks.commit {t : Transaction} (tracks : Tracks levels (t :: transactions) type)
    (nested : CommitType) :
    Tracks (levelsAfter levels (.commitNested nested)) transactions (takeOver type nested) := by
  cases tracks with
  | nested counted outside =>
      rename_i outer
      obtain ⟨around, outer, rfl⟩ := List.exists_cons_of_ne_nil outside.ne_nil
      have more := outside.extend (counted ++ [nested])
      rwa [List.foldl_append] at more

/-- An abort of the innermost transaction. -/
theorem Tracks.abort {t : Transaction} (tracks : Tracks levels (t :: transactions) type) :
    Tracks levels.tail transactions t.commitType := by
  cases tracks with
  | nested counted outside => exact outside

/-- The handle between two main transactions. -/
structure Handle.Idle (H : Handle) : Prop where
  running : H.running = false
  commitType : H.commitType = .async
  transactions : H.transactions = []

theorem Handle.idle_cleanup (H : Handle) : H.cleanup.Idle := ⟨rfl, rfl, rfl⟩

/-- A commit that has returned has waited as it should. -/
def MainCommit.Right (call : MainCommit) : Prop :=
  (call.answer = some true → (.writeFinished ∈ call.waited ↔ call.Sync)) ∧
    (call.answer = some false → call.waited = [])

/-- The account of a commit that goes on. -/
def Account.Going (account : Account) (waited : List HandleSemaphore) (sync : Prop) : Prop :=
  account.levels = [] ∧ ∃ call, account.last = some call ∧ call.answer = none ∧
    call.waited = waited ∧ (sync ↔ call.Sync)

/-- The account and the handle fit together at each stage. -/
def Accounted (s : Handle × Account) : Prop :=
  match s.1.stage with
  | .body =>
      (∀ call ∈ s.2.last, call.Right) ∧
        if s.1.running then Tracks s.2.levels s.1.transactions s.1.commitType
        else s.1.Idle ∧ s.2.levels = []
  | .askedSync | .waitingSync => s.1.Idle ∧ s.2.Going [] True
  | .waiting A => s.1.Idle ∧ s.2.Going [] (A.sync = true)
  | .returning A => s.1.Idle ∧ s.2.Going [A.lock] (A.sync = true)
  | .pushed A | .validating A | .valid A | .invalid A | .processed A => s.2.Going [] (A.sync = true)

theorem accounted_init : Accounted (Handle.init, ⟨[], none⟩) :=
  ⟨fun _ none => (by cases none), ⟨rfl, rfl, rfl⟩, rfl⟩

/-- The commit type that counts, by the account. -/
theorem effective_eq_sync {H : Handle} (tracks : Tracks levels [] H.commitType)
    (type : CommitType) (answer : Option Bool) :
    H.effective type = .sync ↔ (⟨type, levels.headD [], [], answer⟩ : MainCommit).Sync := by
  obtain ⟨counted, rfl, same⟩ : ∃ counted, levels = [counted] ∧
      counted.foldl takeOver .async = H.commitType := by
    generalize H.commitType = c at tracks
    cases tracks with
    | main counted => exact ⟨counted, rfl, rfl⟩
  have counts := foldl_takeOver_eq_sync counted
  rw [same] at counts
  unfold Handle.effective MainCommit.Sync
  cases type with
  | sync => simp
  | async => simpa using counts
  | forceAsync => simp

variable {H H' : Handle} {account : Account}

theorem accounted_body (stage : H.stage = .body) : Accounted (H, account) ↔
    (∀ call ∈ account.last, call.Right) ∧
      if H.running then Tracks account.levels H.transactions H.commitType
      else H.Idle ∧ account.levels = [] := by
  unfold Accounted
  dsimp only
  rw [stage]

/-- Between two main transactions. -/
theorem accounted_idle (stage : H.stage = .body) (idle : H.Idle) (none : account.levels = [])
    (right : ∀ call ∈ account.last, call.Right) : Accounted (H, account) := by
  refine (accounted_body stage).mpr ⟨right, ?_⟩
  rw [if_neg (by rw [idle.running]; decide)]
  exact ⟨idle, none⟩

/-- A step outside of `_tr_commit_main`. -/
theorem accounted_work {stage' : Stage} {label : HandleLabel} (accounted : Accounted (H, account))
    (before : H.stage = .body) (after : H'.stage = .body) (other : ∀ type, label ≠ .commit type)
    (kept : (if H.running then Tracks account.levels H.transactions H.commitType
        else H.Idle ∧ account.levels = []) →
      if H'.running then
        Tracks (levelsAfter account.levels label) H'.transactions H'.commitType
      else H'.Idle ∧ levelsAfter account.levels label = []) :
    Accounted (H', account.after .body stage' label) := by
  obtain ⟨right, tracks⟩ := (accounted_body before).mp accounted
  refine (accounted_body after).mpr ⟨?_, kept tracks⟩
  have last : (account.after .body stage' label).last = account.last := by
    have same : MainCommit.after .body label = id := by
      funext call
      cases label <;> rfl
    unfold Account.after
    cases label with
    | commit type => exact absurd rfl (other type)
    | _ => simp only [same, Option.map_id, id_eq]
  rwa [last]

/-- A commit that goes on without waiting or returning. -/
theorem Account.Going.on {waited : List HandleSemaphore} {sync : Prop} {stage stage' : Stage}
    {label : HandleLabel} (going : account.Going waited sync)
    (quiet : label = .post ∨ label = .process ∨ ∃ passes, label = .validate passes) :
    (account.after stage stage' label).Going waited sync := by
  obtain ⟨none, call, last, goesOn⟩ := going
  have same : MainCommit.after stage label call = call := by
    obtain rfl | rfl | ⟨passes, rfl⟩ := quiet <;> rfl
  have kept : (account.after stage stage' label).last = account.last.map
      (MainCommit.after stage label) ∧ levelsAfter account.levels label = account.levels := by
    obtain rfl | rfl | ⟨passes, rfl⟩ := quiet <;> exact ⟨rfl, rfl⟩
  refine ⟨kept.2.trans none, call, ?_, goesOn⟩
  rw [kept.1, last, Option.map_some, same]

/-- What a step outside of `_tr_commit_main` keeps. -/
theorem accounted_body_step {h : ι} {next : ℕ} {label : HandleLabel} {op : QueueOp ι}
    (accounted : Accounted (H, account)) (stage : H.stage = .body)
    (moved : H.step h next label = some (H', op)) :
    Accounted (H', account.after .body H'.stage label) := by
  cases label with
  | begin =>
      simp only [Handle.step, stage, Option.some.injEq, Prod.mk.injEq] at moved
      obtain ⟨rfl, -⟩ := moved
      refine accounted_work accounted stage (by split <;> rfl) (fun _ => nofun) fun tracks => ?_
      by_cases running : H.running = true
      · rw [if_pos running] at tracks
        simp only [if_pos running]
        exact .nested [] tracks
      · rw [if_neg running] at tracks
        obtain ⟨idle, none⟩ := tracks
        simp only [if_neg running, if_true, none, idle.transactions, idle.commitType]
        exact .main []
  | record item =>
      simp only [Handle.step, stage, Option.ite_none_right_eq_some, Option.some.injEq,
        Prod.mk.injEq] at moved
      obtain ⟨running, rfl, -⟩ := moved
      refine accounted_work accounted stage rfl (fun _ => nofun) fun tracks => ?_
      rw [if_pos running] at tracks
      exact (if_pos running).mpr tracks
  | commitNested type =>
      cases open_ : H.transactions with
      | nil => simp [Handle.step, stage, open_] at moved
      | cons t transactions =>
          simp only [Handle.step, stage, open_, Option.some.injEq, Prod.mk.injEq] at moved
          obtain ⟨rfl, -⟩ := moved
          refine accounted_work accounted stage rfl (fun _ => nofun) fun tracks => ?_
          by_cases running : H.running = true
          · rw [if_pos running, open_] at tracks
            rw [if_pos running]
            have committed := tracks.commit type
            cases type <;> exact committed
          · rw [if_neg running] at tracks
            have closed := tracks.1.transactions
            rw [open_] at closed
            cases closed
  | abortNested =>
      cases open_ : H.transactions with
      | nil => simp [Handle.step, stage, open_] at moved
      | cons t transactions =>
          simp only [Handle.step, stage, open_, Option.some.injEq, Prod.mk.injEq] at moved
          obtain ⟨rfl, -⟩ := moved
          refine accounted_work accounted stage rfl (fun _ => nofun) fun tracks => ?_
          by_cases running : H.running = true
          · rw [if_pos running, open_] at tracks
            rw [if_pos running]
            exact tracks.abort
          · rw [if_neg running] at tracks
            have closed := tracks.1.transactions
            rw [open_] at closed
            cases closed
  | abort =>
      simp only [Handle.step, stage, Option.ite_none_right_eq_some, Option.some.injEq,
        Prod.mk.injEq] at moved
      obtain ⟨-, rfl, -⟩ := moved
      exact accounted_work accounted stage stage (fun _ => nofun) fun _ => ⟨H.idle_cleanup, rfl⟩
  | commit type =>
      obtain ⟨-, tracks⟩ := (accounted_body stage).mp accounted
      simp only [Handle.step, stage, Option.ite_none_right_eq_some] at moved
      obtain ⟨⟨running, closed⟩, moved⟩ := moved
      rw [if_pos running, closed] at tracks
      have counts := effective_eq_sync tracks type
      by_cases empty : H.log = []
      · rw [if_pos empty] at moved
        by_cases sync : H.effective type = .sync
        · rw [if_pos sync] at moved
          obtain ⟨rfl, -⟩ := Prod.mk.inj (Option.some.inj moved)
          refine ⟨⟨rfl, rfl, rfl⟩, rfl, _, rfl, rfl, rfl, ?_⟩
          exact iff_of_true trivial ((counts _).mp sync)
        · rw [if_neg sync] at moved
          obtain ⟨rfl, -⟩ := Prod.mk.inj (Option.some.inj moved)
          refine accounted_idle stage H.idle_cleanup rfl ?_
          rintro call ⟨⟩
          exact ⟨fun _ => iff_of_false List.not_mem_nil (mt (counts _).mpr sync), fun _ => rfl⟩
      · rw [if_neg empty] at moved
        obtain ⟨rfl, -⟩ := Prod.mk.inj (Option.some.inj moved)
        exact ⟨rfl, _, rfl, rfl, rfl, decide_eq_true_iff.trans (counts _)⟩
  | _ => simp [Handle.step, stage] at moved

/-- A commit that waits. -/
theorem Account.Going.waits {waited : List HandleSemaphore} {sync : Prop} {stage stage' : Stage}
    {lock : HandleSemaphore} (going : account.Going waited sync)
    (after : ∀ call, MainCommit.after stage .wake call =
      { call with waited := call.waited ++ [lock] }) :
    (account.after stage stage' .wake).Going (waited ++ [lock]) sync := by
  obtain ⟨none, call, last, goesOn, rfl, counts⟩ := going
  refine ⟨none, { call with waited := call.waited ++ [lock] }, ?_, goesOn, rfl, counts⟩
  show account.last.map _ = _
  rw [last, Option.map_some, after]

/-- A commit that returns. -/
theorem Account.Going.returns {waited : List HandleSemaphore} {sync : Prop}
    {stage stage' : Stage} {label : HandleLabel} (going : account.Going waited sync)
    (last : label = .wake ∨ label = .ready ∨ label = .finish)
    (right : ∀ call, call.waited = waited → (sync ↔ call.Sync) →
      (MainCommit.after stage label call).Right) :
    (account.after stage stage' label).levels = [] ∧
      ∀ call ∈ (account.after stage stage' label).last, call.Right := by
  obtain ⟨none, call, goesOn, -, waits, counts⟩ := going
  have kept : (account.after stage stage' label).last = account.last.map
      (MainCommit.after stage label) ∧ levelsAfter account.levels label = account.levels := by
    obtain rfl | rfl | rfl := last <;> exact ⟨rfl, rfl⟩
  refine ⟨kept.2.trans none, fun returned inside => ?_⟩
  rw [kept.1, goesOn, Option.map_some, Option.mem_some_iff] at inside
  rw [← inside]
  exact right call waits counts

theorem Attempt.lock_eq_writeFinished_iff (A : Attempt) :
    A.lock = .writeFinished ↔ A.sync = true := by
  unfold Attempt.lock
  split <;> simp [*]

theorem Handle.wait_stage {lock : HandleSemaphore} {W : Handle} (taken : H.wait lock = some W)
    (stage : Stage) (idle : H.Idle) : ({ W with stage := stage } : Handle).Idle := by
  cases lock <;>
    (simp only [Handle.wait, Option.ite_none_right_eq_some, Option.some.injEq] at taken
     obtain ⟨-, rfl⟩ := taken
     exact ⟨idle.running, idle.commitType, idle.transactions⟩)

/-- What a step of the handle keeps. -/
theorem accounted_step {h : ι} {next : ℕ} {label : HandleLabel} {op : QueueOp ι}
    (accounted : Accounted (H, account)) (moved : H.step h next label = some (H', op)) :
    Accounted (H', account.after H.stage H'.stage label) := by
  cases stage : H.stage with
  | body => exact accounted_body_step accounted stage moved
  | askedSync =>
      simp only [Accounted, stage] at accounted
      cases label with
      | post =>
          simp only [Handle.step, stage, Option.some.injEq, Prod.mk.injEq] at moved
          obtain ⟨rfl, -⟩ := moved
          obtain ⟨idle, going⟩ := accounted
          refine ⟨⟨idle.running, idle.commitType, idle.transactions⟩, ?_⟩
          exact @Account.Going.on account [] True .askedSync .waitingSync .post going (.inl rfl)
      | _ => simp [Handle.step, stage] at moved
  | waitingSync =>
      simp only [Accounted, stage] at accounted
      cases label with
      | wake =>
          simp only [Handle.step, stage, Option.map_eq_some_iff, Prod.mk.injEq] at moved
          obtain ⟨W, taken, rfl, -⟩ := moved
          obtain ⟨idle, going⟩ := accounted
          obtain ⟨none, right⟩ :=
            @Account.Going.returns account [] True .waitingSync .body .wake going (.inl rfl)
              fun call _ counts =>
                ⟨fun _ => iff_of_true (List.mem_append_right _ (List.mem_singleton_self _))
                  (counts.mp trivial), nofun⟩
          exact accounted_idle rfl (Handle.wait_stage taken .body idle) none right
      | _ => simp [Handle.step, stage] at moved
  | pushed A =>
      simp only [Accounted, stage] at accounted
      cases label with
      | post =>
          simp only [Handle.step, stage, Option.some.injEq, Prod.mk.injEq] at moved
          obtain ⟨rfl, -⟩ := moved
          exact @Account.Going.on account [] _ (.pushed A) (.validating A) .post accounted
            (.inl rfl)
      | _ => simp [Handle.step, stage] at moved
  | validating A =>
      simp only [Accounted, stage] at accounted
      cases label with
      | validate passes =>
          simp only [Handle.step, stage, Option.some.injEq, Prod.mk.injEq] at moved
          obtain ⟨rfl, -⟩ := moved
          have going : (account.after (.validating A) .body (.validate passes)).Going []
              (A.sync = true) := accounted.on (.inr (.inr ⟨passes, rfl⟩))
          cases passes <;> exact going
      | _ => simp [Handle.step, stage] at moved
  | valid A =>
      simp only [Accounted, stage] at accounted
      cases label with
      | process =>
          simp only [Handle.step, stage, Option.map_eq_some_iff, Prod.mk.injEq] at moved
          obtain ⟨bytes, -, rfl, -⟩ := moved
          exact @Account.Going.on account [] _ (.valid A) (.processed A) .process accounted
            (.inr (.inl rfl))
      | _ => simp [Handle.step, stage] at moved
  | invalid A =>
      simp only [Accounted, stage] at accounted
      cases label with
      | ready =>
          simp only [Handle.step, stage, Option.some.injEq, Prod.mk.injEq] at moved
          obtain ⟨rfl, -⟩ := moved
          obtain ⟨none, right⟩ :=
            @Account.Going.returns account [] _ (.invalid A) .body .ready accounted
              (.inr (.inl rfl)) fun call waits counts => ⟨nofun, fun _ => waits⟩
          exact accounted_idle rfl ⟨rfl, rfl, rfl⟩ none right
      | _ => simp [Handle.step, stage] at moved
  | processed A =>
      simp only [Accounted, stage] at accounted
      cases label with
      | ready =>
          simp only [Handle.step, stage, Option.some.injEq, Prod.mk.injEq] at moved
          obtain ⟨rfl, -⟩ := moved
          obtain ⟨none, call, last, goesOn⟩ := accounted
          refine ⟨⟨rfl, rfl, rfl⟩, none, call, ?_, goesOn⟩
          show account.last.map _ = _
          rw [last]
          rfl
      | _ => simp [Handle.step, stage] at moved
  | waiting A =>
      simp only [Accounted, stage] at accounted
      cases label with
      | wake =>
          simp only [Handle.step, stage, Option.map_eq_some_iff, Prod.mk.injEq] at moved
          obtain ⟨W, taken, rfl, -⟩ := moved
          obtain ⟨idle, going⟩ := accounted
          refine ⟨Handle.wait_stage taken (.returning A) idle, ?_⟩
          exact @Account.Going.waits account [] _ (.waiting A) (.returning A) A.lock going
            fun _ => rfl
      | _ => simp [Handle.step, stage] at moved
  | returning A =>
      simp only [Accounted, stage] at accounted
      cases label with
      | finish =>
          simp only [Handle.step, stage, Option.some.injEq, Prod.mk.injEq] at moved
          obtain ⟨rfl, -⟩ := moved
          obtain ⟨idle, going⟩ := accounted
          obtain ⟨none, right⟩ :=
            @Account.Going.returns account [A.lock] _ (.returning A) .body .finish going
              (.inr (.inr rfl))
              fun call waits counts => by
                refine ⟨fun _ => ?_, nofun⟩
                show _ ∈ call.waited ↔ call.Sync
                rw [waits, List.mem_singleton, eq_comm, A.lock_eq_writeFinished_iff, counts]
          exact accounted_idle rfl ⟨idle.running, idle.commitType, idle.transactions⟩ none right
      | _ => simp [Handle.step, stage] at moved

/-- What a post of the service thread keeps. -/
theorem accounted_post (accounted : Accounted (H, account)) (lock : HandleSemaphore) :
    Accounted (H.post lock, account) := by
  have idle : ∀ {H : Handle}, H.Idle → (H.post lock).Idle := fun idle => by
    cases lock <;> exact ⟨idle.running, idle.commitType, idle.transactions⟩
  have stage : (H.post lock).stage = H.stage := by cases lock <;> rfl
  have running : (H.post lock).running = H.running := by cases lock <;> rfl
  have transactions : (H.post lock).transactions = H.transactions := by cases lock <;> rfl
  have commitType : (H.post lock).commitType = H.commitType := by cases lock <;> rfl
  unfold Accounted at accounted ⊢
  dsimp only at accounted ⊢
  rw [stage]
  cases at_ : H.stage with
  | body =>
      rw [at_] at accounted
      refine ⟨accounted.1, ?_⟩
      rw [running, transactions, commitType]
      by_cases runs : H.running = true
      · simpa only [if_pos runs] using accounted.2
      · simp only [if_neg runs] at accounted ⊢
        exact ⟨idle accounted.2.1, accounted.2.2⟩
  | _ =>
      rw [at_] at accounted
      first
        | exact accounted
        | exact ⟨idle accounted.1, accounted.2⟩

/-- The semaphore whose `sem_wait` a handle is in front of. -/
def Stage.waitsFor : Stage → Option HandleSemaphore
  | .waitingSync => some .writeFinished
  | .waiting A => some A.lock
  | _ => none

/-- A commit that goes on has no answer yet. -/
theorem Account.Going.right {waited : List HandleSemaphore} {sync : Prop}
    (going : account.Going waited sync) :
    ∀ call ∈ account.last, call.Right ∧ (sync ↔ call.Sync) := by
  obtain ⟨-, call, last, goesOn, -, counts⟩ := going
  rintro _ inside
  obtain rfl := Option.mem_unique inside last
  refine ⟨⟨fun answered => ?_, fun answered => ?_⟩, counts⟩ <;>
    (rw [goesOn] at answered
     cases answered)

theorem Accounted.right (accounted : Accounted (H, account)) :
    ∀ call ∈ account.last, call.Right ∧
      ∀ lock ∈ H.stage.waitsFor, (lock = .writeFinished ↔ call.Sync) := by
  cases stage : H.stage with
  | body =>
      exact fun call inside => ⟨((accounted_body stage).mp accounted).1 call inside, nofun⟩
  | waitingSync =>
      simp only [Accounted, stage] at accounted
      intro call inside
      obtain ⟨right, counts⟩ := accounted.2.right call inside
      refine ⟨right, ?_⟩
      rintro _ ⟨⟩
      exact iff_of_true rfl (counts.mp trivial)
  | waiting A =>
      simp only [Accounted, stage] at accounted
      intro call inside
      obtain ⟨right, counts⟩ := accounted.2.right call inside
      refine ⟨right, ?_⟩
      rintro _ ⟨⟩
      exact A.lock_eq_writeFinished_iff.trans counts
  | askedSync | returning A =>
      simp only [Accounted, stage] at accounted
      exact fun call inside => ⟨(accounted.2.right call inside).1, nofun⟩
  | pushed A | validating A | valid A | invalid A | processed A =>
      simp only [Accounted, stage] at accounted
      exact fun call inside => ⟨(accounted.right call inside).1, nofun⟩

/-- A commit of a main transaction waits for `write_finished` exactly if it is synchronous,
or asynchronous behind a nested one that counts and is synchronous. -/
theorem commit_waits (h : ι) (s : Handle × Account)
    (reaches : Reaches (accountStep h) anyStep (Handle.init, ⟨[], none⟩) s) :
    ∀ call ∈ s.2.last, call.Right ∧
      ∀ lock ∈ s.1.stage.waitsFor, (lock = .writeFinished ↔ call.Sync) := by
  have accounted : Accounted s := by
    refine reaches.invariant accounted_init fun s s' label accounted _ moved => ?_
    cases label with
    | own next label =>
        simp only [accountStep, Option.map_eq_some_iff] at moved
        obtain ⟨⟨H, op⟩, stepped, rfl⟩ := moved
        exact accounted_step accounted stepped
    | posted lock =>
        simp only [accountStep, Option.some.injEq] at moved
        subst moved
        exact accounted_post accounted lock
  exact accounted.right

/-- An asynchronous commit behind a synchronous nested one waits. -/
theorem commit_waits_nested : ∃ s,
    Reaches (accountStep ()) anyStep (Handle.init, ⟨[], none⟩) s ∧
    s.2.last = some ⟨.async, [.sync, .async], [.writeFinished], some true⟩ ∧
    ∀ call ∈ s.2.last, call.Right ∧
      ∀ lock ∈ s.1.stage.waitsFor, (lock = .writeFinished ↔ call.Sync) := by
  have run : runSteps (accountStep ()) (Handle.init, ⟨[], none⟩)
      [.own 0 .begin, .own 0 .begin, .own 0 (.commitNested .sync), .own 0 .begin,
        .own 0 .begin, .own 0 (.commitNested .sync), .own 0 .abortNested,
        .own 0 .begin, .own 0 (.commitNested .async), .own 0 (.commit .async),
        .own 1 .post, .posted .writeFinished, .own 1 .wake] =
      some ({ Handle.init with stage := .body },
        ⟨[], some ⟨.async, [.sync, .async], [.writeFinished], some true⟩⟩) := by
    decide
  have reaches : Reaches (accountStep ()) anyStep (Handle.init, ⟨[], none⟩) _ :=
    reaches_of_runSteps .start (fun _ _ _ => trivial) run
  exact ⟨_, reaches, rfl, commit_waits () _ reaches⟩

end HybridDatabase.Service
