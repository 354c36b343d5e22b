/-
# Runs over cells as runs over bundles

Every step over cells is matched by a run over objects with a lock each, whose objects are the locks
and whose values are the bundles.  A write is matched by a read of the bundle and a write of it; so
the read set of the run over bundles has locks in it that the handle owns, and the validation passes
them.
-/

import HybridDatabase.Base.Simulation
import HybridDatabase.Stm.Bundles

namespace HybridDatabase.Stm.Cells

open HybridDatabase.Base

universe u v w z

variable {ι : Type u} {Lk : Type v} {Cell : Type w} {Val : Type z}

/-! ## Read sets -/

/-- A read set without some locks that have been acquired. -/
inductive Thin (acquired : List Lk) : List Lk → List Lk → Prop
  | nil : Thin acquired [] []
  | keep (l : Lk) {rest rest' : List Lk} (others : Thin acquired rest rest') :
      Thin acquired (l :: rest) (l :: rest')
  | skip {l : Lk} {rest rest' : List Lk} (owned : l ∈ acquired)
      (others : Thin acquired rest rest') : Thin acquired rest (l :: rest')

variable {acquired acquired' : List Lk} {rs rs' more more' : List Lk} {ts ts' : List (ℕ × ℕ)}
  {r r' pos : ℕ}

theorem Thin.append (thin : Thin acquired rs rs') (last : Thin acquired more more') :
    Thin acquired (rs ++ more) (rs' ++ more') := by
  induction thin with
  | nil => exact last
  | keep l _ ih => exact .keep l ih
  | skip owned _ ih => exact .skip owned ih

theorem Thin.mono (thin : Thin acquired rs rs') (grows : acquired ⊆ acquired') :
    Thin acquired' rs rs' := by
  induction thin with
  | nil => exact .nil
  | keep l _ ih => exact .keep l ih
  | skip owned _ ih => exact .skip (grows owned) ih

/-- Two read sets with the marks of the nested transactions that are open. -/
inductive Marked (acquired : List Lk) :
    List Lk → List Lk → List (ℕ × ℕ) → List (ℕ × ℕ) → Prop
  | main {rs rs' : List Lk} (thin : Thin acquired rs rs') : Marked acquired rs rs' [] []
  | nested {rs rs' : List Lk} {r r' pos : ℕ} {ts ts' : List (ℕ × ℕ)}
      (thin : Thin acquired rs rs') (within : r ≤ rs.length) (within' : r' ≤ rs'.length)
      (older : Marked acquired (rs.take r) (rs'.take r') ts ts') :
      Marked acquired rs rs' ((r, pos) :: ts) ((r', pos) :: ts')

namespace Marked

theorem thin (marked : Marked acquired rs rs' ts ts') : Thin acquired rs rs' := by
  cases marked with
  | main thin => exact thin
  | nested thin => exact thin

/-- More is read. -/
theorem append (marked : Marked acquired rs rs' ts ts') (last : Thin acquired more more') :
    Marked acquired (rs ++ more) (rs' ++ more') ts ts' := by
  cases marked with
  | main thin => exact .main (thin.append last)
  | nested thin within within' older =>
      refine .nested (thin.append last) ?_ ?_ ?_
      · exact within.trans (List.length_append ▸ Nat.le_add_right _ _)
      · exact within'.trans (List.length_append ▸ Nat.le_add_right _ _)
      · rwa [List.take_append_of_le_length within, List.take_append_of_le_length within']

theorem mono (marked : Marked acquired rs rs' ts ts') (grows : acquired ⊆ acquired') :
    Marked acquired' rs rs' ts ts' := by
  induction marked with
  | main thin => exact .main (thin.mono grows)
  | nested thin within within' _ ih => exact .nested (thin.mono grows) within within' ih

/-- A nested transaction begins. -/
theorem begin (marked : Marked acquired rs rs' ts ts') (pos : ℕ) :
    Marked acquired rs rs' ((rs.length, pos) :: ts) ((rs'.length, pos) :: ts') := by
  refine .nested marked.thin le_rfl le_rfl ?_
  rwa [List.take_length, List.take_length]

/-- The marks within a part are marks within the whole. -/
theorem extend (marked : Marked acquired (rs.take r) (rs'.take r') ts ts')
    (thin : Thin acquired rs rs') : Marked acquired rs rs' ts ts' := by
  cases marked with
  | main => exact .main thin
  | nested _ within within' older =>
      rw [List.length_take] at within within'
      rw [List.take_take, List.take_take, Nat.min_eq_left (within.trans (Nat.min_le_left _ _)),
        Nat.min_eq_left (within'.trans (Nat.min_le_left _ _))] at older
      exact .nested thin (within.trans (Nat.min_le_right _ _))
        (within'.trans (Nat.min_le_right _ _)) older

/-- A nested transaction ends. -/
theorem tail (marked : Marked acquired rs rs' ts ts') :
    Marked acquired rs rs' ts.tail ts'.tail := by
  cases marked with
  | main thin => exact .main thin
  | nested thin _ _ older => exact older.extend thin

/-- What the nested transaction has read is forgotten. -/
theorem abort (marked : Marked acquired rs rs' ((r, pos) :: ts) ((r', pos) :: ts')) :
    Marked acquired (rs.take r) (rs'.take r') ((r, pos) :: ts) ((r', pos) :: ts') := by
  cases marked with
  | nested thin within within' older =>
      refine .nested older.thin ?_ ?_ ?_
      · rw [List.length_take, Nat.min_eq_left within]
      · rw [List.length_take, Nat.min_eq_left within']
      · rwa [List.take_take, List.take_take, Nat.min_self, Nat.min_self]

theorem of_main (marked : Marked acquired rs rs' [] ts') : ts' = [] := by
  cases marked
  rfl

theorem of_nested {ts'' : List (ℕ × ℕ)} (marked : Marked acquired rs rs' ((r, pos) :: ts) ts'') :
    ∃ r' ts', ts'' = (r', pos) :: ts' := by
  cases marked
  exact ⟨_, _, rfl⟩

end Marked

/-! ## Logs -/

section Log

variable [DecidableEq Lk] [DecidableEq Cell] {lockOf : Cell → Lk} {m : Cell → Val}
  {log : List (Cell × Val)} {log' : List (Lk × Bundle Cell Val)}

/-- The log over bundles restores what the log over cells does, from the end on. -/
inductive Undoes (lockOf : Cell → Lk) :
    (Cell → Val) → List (Cell × Val) → List (Lk × Bundle Cell Val) → Prop
  | nil (m : Cell → Val) : Undoes lockOf m [] []
  | concat {m : Cell → Val} {log : List (Cell × Val)} {log' : List (Lk × Bundle Cell Val)}
      {c : Cell} {old : Val} (before : Undoes lockOf (Function.update m c old) log log') :
      Undoes lockOf m (log ++ [(c, old)])
        (log' ++ [(lockOf c, bundle lockOf (Function.update m c old) (lockOf c))])

theorem Undoes.length (undoes : Undoes lockOf m log log') : log.length = log'.length := by
  induction undoes with
  | nil => rfl
  | concat _ ih => rw [List.length_append, List.length_append, ih]; rfl

/-- What is undone next. -/
theorem Undoes.last (undoes : Undoes lockOf m log log') : (log = [] ∧ log' = []) ∨
    ∃ rest rest' c old, log = rest ++ [(c, old)] ∧
      log' = rest' ++ [(lockOf c, bundle lockOf (Function.update m c old) (lockOf c))] ∧
      Undoes lockOf (Function.update m c old) rest rest' := by
  cases undoes with
  | nil => exact .inl ⟨rfl, rfl⟩
  | concat before => exact .inr ⟨_, _, _, _, rfl, rfl, before⟩

theorem Undoes.isEmpty (undoes : Undoes lockOf m log log') : log'.isEmpty = log.isEmpty := by
  rw [Bool.eq_iff_iff, List.isEmpty_iff_length_eq_zero, List.isEmpty_iff_length_eq_zero,
    undoes.length]

/-- A cell is overwritten. -/
theorem Undoes.write (undoes : Undoes lockOf m log log') (c : Cell) (value : Val) :
    Undoes lockOf (Function.update m c value) (log ++ [(c, m c)])
      (log' ++ [(lockOf c, bundle lockOf m (lockOf c))]) := by
  have same : Function.update (Function.update m c value) c (m c) = m := by
    rw [Function.update_idem, Function.update_eq_self]
  have before : Undoes lockOf (Function.update (Function.update m c value) c (m c)) log log' := by
    rwa [same]
  have more := before.concat
  rwa [same] at more

/-- What stands in the cells of other locks does not matter. -/
theorem Undoes.frame (undoes : Undoes lockOf m log log') {c : Cell}
    (others : ∀ item ∈ log', item.1 ≠ lockOf c) (value : Val) :
    Undoes lockOf (Function.update m c value) log log' := by
  induction undoes with
  | nil => exact .nil _
  | @concat m log log' d old before ih =>
      have apart : lockOf d ≠ lockOf c :=
        others _ (List.mem_append_right _ (List.mem_singleton_self _))
      have swap : Function.update (Function.update m c value) d old =
          Function.update (Function.update m d old) c value :=
        Function.update_comm (fun same => apart (congrArg lockOf same.symm)) _ _ _
      have same : bundle lockOf (Function.update m d old) (lockOf d) =
          bundle lockOf (Function.update (Function.update m c value) d old) (lockOf d) := by
        rw [swap, bundle_update_of_ne apart]
      rw [same]
      refine .concat ?_
      rw [swap]
      exact ih fun item inside => others item (List.mem_append_left _ inside)

end Log

/-! ## Related states -/

inductive StageSim (lockOf : Cell → Lk) (acquired : List Lk) :
    Stage Lk Cell Val → Stage Lk Lk (Bundle Cell Val) → Prop
  | idle : StageSim lockOf acquired .idle .idle
  | running : StageSim lockOf acquired .running .running
  | reading {c : Cell} {value : Val} {b : Bundle Cell Val} (at_ : b c = some value) :
      StageSim lockOf acquired (.reading c value) (.reading (lockOf c) b)
  | rollingBack (pos : ℕ) (main : Bool) :
      StageSim lockOf acquired (.rollingBack pos main) (.rollingBack pos main)
  | pushing (endTime : ℕ) : StageSim lockOf acquired (.pushing endTime) (.pushing endTime)
  | validating (endTime : ℕ) {rest rest' : List Lk} (thin : Thin acquired rest rest') :
      StageSim lockOf acquired (.validating endTime rest) (.validating endTime rest')
  | unlocking (endTime : ℕ) : StageSim lockOf acquired (.unlocking endTime) (.unlocking endTime)

section Related

variable [DecidableEq Lk] [DecidableEq Cell]

/-- A handle over cells and one over bundles. -/
structure HandleSim (lockOf : Cell → Lk) (m : Cell → Val) (H : Handle Lk Cell Val)
    (H' : Handle Lk Lk (Bundle Cell Val)) : Prop where
  startTime : H'.startTime = H.startTime
  acquiredLocks : H'.acquiredLocks = H.acquiredLocks
  stage : StageSim lockOf H.acquiredLocks H.stage H'.stage
  readSet : H.stage.alive = true →
    Marked H.acquiredLocks H.readSet H'.readSet H.transactions H'.transactions
  log : H.stage.unlocks = false → Undoes lockOf m H.log H'.log
  events : Bundled lockOf H.events H'.events

/-- A transaction over cells and one over bundles. -/
structure TxnSim (lockOf : Cell → Lk) (t : Txn Cell Val) (t' : Txn Lk (Bundle Cell Val)) :
    Prop where
  startTime : t'.startTime = t.startTime
  endTime : t'.endTime = t.endTime
  events : Bundled lockOf t.events t'.events

structure Sim (lockOf : Cell → Lk) (s : State ι Lk Cell Val)
    (s' : State ι Lk Lk (Bundle Cell Val)) : Prop where
  time : s'.time = s.time
  memory : s'.memory = bundle lockOf s.memory
  locks : s'.locks = s.locks
  queue : s'.queue = s.queue
  handles : ∀ h, HandleSim lockOf s.memory (s.handles h) (s'.handles h)
  committed : List.Forall₂ (TxnSim lockOf) s.committed s'.committed
  readers : List.Forall₂ (TxnSim lockOf) s.readers s'.readers
  aborted : List.Forall₂ (TxnSim lockOf) s.aborted s'.aborted

variable {lockOf : Cell → Lk} {m : Cell → Val} {H : Handle Lk Cell Val}
  {H' : Handle Lk Lk (Bundle Cell Val)} {s t : State ι Lk Cell Val}
  {s' : State ι Lk Lk (Bundle Cell Val)} {A : Addresses ι} {h : ι}

omit [DecidableEq Lk] [DecidableEq Cell] in
/-- One transaction more. -/
theorem forall₂_concat {α β : Type*} {R : α → β → Prop} {as : List α} {bs : List β} {a : α} {b : β}
    (all : List.Forall₂ R as bs) (last : R a b) : List.Forall₂ R (as ++ [a]) (bs ++ [b]) :=
  List.rel_append all (.cons last .nil)

theorem HandleSim.cleanup (lockOf : Cell → Lk) (m : Cell → Val) :
    HandleSim lockOf m .cleanup .cleanup :=
  ⟨rfl, rfl, .idle, fun _ => .main .nil, fun _ => .nil _, .nil⟩

theorem HandleSim.txn (sim : HandleSim lockOf m H H') {endTime endTime' : ℕ}
    (same : endTime' = endTime) : TxnSim lockOf (H.txn endTime) (H'.txn endTime') :=
  ⟨sim.startTime, same, sim.events⟩

theorem Sim.lCheck (sim : Sim lockOf s s') (A : Addresses ι) (h : ι) (l : Lk) :
    s'.lCheck A h l = s.lCheck A h l := by
  unfold State.lCheck
  rw [sim.locks, (sim.handles h).startTime]

variable [DecidableEq ι]

/-- A handle changes, and what is no memory. -/
theorem Sim.change (sim : Sim lockOf s s') (h : ι) (same : HandleSim lockOf s.memory H H')
    {time time' : ℕ} {locks locks' : Lk → ℕ} {queue queue' : List ℕ}
    {committed readers aborted : List (Txn Cell Val)}
    {committed' readers' aborted' : List (Txn Lk (Bundle Cell Val))} (sameTime : time' = time)
    (sameLocks : locks' = locks) (sameQueue : queue' = queue)
    (sameCommitted : List.Forall₂ (TxnSim lockOf) committed committed')
    (sameReaders : List.Forall₂ (TxnSim lockOf) readers readers')
    (sameAborted : List.Forall₂ (TxnSim lockOf) aborted aborted') : Sim lockOf
      ⟨time, s.memory, locks, Function.update s.handles h H, queue, committed, readers, aborted⟩
      ⟨time', s'.memory, locks', Function.update s'.handles h H', queue', committed', readers',
        aborted'⟩ where
  time := sameTime
  memory := sim.memory
  locks := sameLocks
  queue := sameQueue
  handles g := by
    show HandleSim lockOf s.memory (Function.update s.handles h H g)
      (Function.update s'.handles h H' g)
    by_cases here : g = h
    · subst here
      rwa [Function.update_self, Function.update_self]
    · rw [Function.update_of_ne here, Function.update_of_ne here]
      exact sim.handles g
  committed := sameCommitted
  readers := sameReaders
  aborted := sameAborted

/-- Only a handle changes. -/
theorem Sim.setHandle (sim : Sim lockOf s s') (h : ι) (same : HandleSim lockOf s.memory H H') :
    Sim lockOf (s.setHandle h H) (s'.setHandle h H') :=
  sim.change h same sim.time sim.locks sim.queue sim.committed sim.readers sim.aborted

end Related

/-! ## Runs over bundles -/

section Runs

variable {Obj : Type v} {V : Type w} [DecidableEq ι] [DecidableEq Obj]
  {A : Addresses ι} {h : ι} {s s' : State ι Obj Obj V} {acquired : List Obj}

omit [DecidableEq Obj] in
theorem handles_setHandle (s : State ι Obj Obj V) (h : ι) (H : Handle Obj Obj V) :
    (s.setHandle h H).handles h = H := Function.update_self ..

omit [DecidableEq Obj] in
theorem setHandle_setHandle (s : State ι Obj Obj V) (h : ι) (H H' : Handle Obj Obj V) :
    (s.setHandle h H).setHandle h H' = s.setHandle h H' := by
  unfold State.setHandle
  rw [Function.update_idem]

omit [DecidableEq Obj] in
theorem same_handle (s : State ι Obj Obj V) (h : ι) : s.setHandle h (s.handles h) = s := by
  unfold State.setHandle
  rw [Function.update_eq_self]

omit [DecidableEq ι] [DecidableEq Obj] in
/-- The check passes the owner. -/
theorem lCheck_of_owned {x : Obj} (owned : s.locks x = A.address h) : s.lCheck A h x = true := by
  unfold State.lCheck
  have even := A.aligned h
  rw [owned, if_neg (by omega)]
  exact decide_eq_true rfl

/-- An object is read, and the check of its lock succeeds. -/
theorem reaches_read (running : (s.handles h).stage = .running) {x : Obj}
    (ok : s.lCheck A h x = true) :
    Reaches (State.step A id) anyStep s (s.setHandle h { s.handles h with
      readSet := (s.handles h).readSet ++ [x]
      events := (s.handles h).events ++ [.read x (s.memory x)] }) := by
  set loading : Handle Obj Obj V := { s.handles h with
    readSet := (s.handles h).readSet ++ [x]
    stage := .reading x (s.memory x) } with hloading
  have first : State.step A id s (h, .load x) = some (s.setHandle h loading) := by
    simp only [State.step, State.load, running]
    rfl
  have same : (s.setHandle h loading).lCheck A h x = true := by
    unfold State.lCheck
    rw [handles_setHandle]
    exact ok
  have second : State.step A id (s.setHandle h loading) (h, .advance) =
      some (s.setHandle h { s.handles h with
        readSet := (s.handles h).readSet ++ [x]
        events := (s.handles h).events ++ [.read x (s.memory x)] }) := by
    have stage : loading.stage = .reading x (s.memory x) := rfl
    simp only [State.step, State.advance, handles_setHandle, stage, id_eq, if_pos same,
      setHandle_setHandle, ← running]
    rfl
  exact (Reaches.single trivial first).trans (.single trivial second)

/-- An object that has been locked is read and written. -/
theorem reaches_write (running : (s.handles h).stage = .running) {x : Obj}
    (owned : s.locks x = A.address h) (value : V) :
    Reaches (State.step A id) anyStep s { s with
      memory := Function.update s.memory x value
      handles := Function.update s.handles h { s.handles h with
        readSet := (s.handles h).readSet ++ [x]
        log := (s.handles h).log ++ [(x, s.memory x)]
        events := (s.handles h).events ++ [.read x (s.memory x)] ++ [.write x value] } } := by
  have read := reaches_read running (lCheck_of_owned owned)
  refine read.trans (.single (l := (h, .write x value)) trivial ?_)
  simp only [State.step, State.write, handles_setHandle, running]
  unfold State.setHandle
  simp only [Function.update_idem]
  exact if_pos owned

/-- Locks of the handle pass the validation. -/
theorem reaches_thin {endTime : ℕ} {rest rest' : List Obj} (thin : Thin acquired rest rest')
    (owned : ∀ x ∈ acquired, s.locks x = A.address h)
    (validating : (s.handles h).stage = .validating endTime rest') :
    ∃ rest'', Reaches (State.step A id) anyStep s
        (s.setHandle h { s.handles h with stage := .validating endTime rest'' }) ∧
      (rest = [] → rest'' = []) ∧
      ∀ x others, rest = x :: others → ∃ others', rest'' = x :: others' ∧
        Thin acquired others others' := by
  induction thin generalizing s with
  | nil =>
      refine ⟨[], ?_, fun _ => rfl, fun x others none => by cases none⟩
      rw [← validating, same_handle]
      exact .start
  | @keep x rest rest' others =>
      refine ⟨x :: rest', ?_, fun none => (by cases none), fun y others' same => ?_⟩
      · rw [← validating, same_handle]
        exact .start
      · cases same
        exact ⟨rest', rfl, others⟩
  | @skip x rest rest' member others ih =>
      have ok : s.lCheck A h x = true := lCheck_of_owned (owned x member)
      set passed : Handle Obj Obj V := { s.handles h with stage := .validating endTime rest' }
        with hpassed
      have first : State.step A id s (h, .advance) = some (s.setHandle h passed) := by
        simp only [State.step, State.advance, validating, State.validate, if_pos ok]
        rfl
      obtain ⟨rest'', reached, empty, more⟩ :=
        ih (s := s.setHandle h passed) owned (by rw [handles_setHandle])
      rw [setHandle_setHandle, handles_setHandle] at reached
      exact ⟨rest'', (Reaches.single trivial first).trans reached, empty, more⟩

end Runs

/-! ## Steps that are matched -/

section Matched

variable [DecidableEq ι] [DecidableEq Lk] [DecidableEq Cell] {lockOf : Cell → Lk}
  {S : Stage Lk Cell Val} {S' : Stage Lk Lk (Bundle Cell Val)} {s t : State ι Lk Cell Val}
  {s' : State ι Lk Lk (Bundle Cell Val)} {A : Addresses ι} {h : ι}
  {init : Lk → Bundle Cell Val}

omit [DecidableEq Lk] [DecidableEq Cell] in
theorem StageSim.of_idle (sim : StageSim lockOf acquired S S') (idle : S = .idle) : S' = .idle := by
  cases sim with
  | idle => rfl
  | _ => cases idle

omit [DecidableEq Lk] [DecidableEq Cell] in
theorem StageSim.of_running (sim : StageSim lockOf acquired S S') (running : S = .running) :
    S' = .running := by
  cases sim with
  | running => rfl
  | _ => cases running

/-- What a running handle has. -/
structure Runs (lockOf : Cell → Lk) (m : Cell → Val) (H : Handle Lk Cell Val)
    (H' : Handle Lk Lk (Bundle Cell Val)) : Prop where
  stage : H'.stage = .running
  startTime : H'.startTime = H.startTime
  acquiredLocks : H'.acquiredLocks = H.acquiredLocks
  readSet : Marked H.acquiredLocks H.readSet H'.readSet H.transactions H'.transactions
  log : Undoes lockOf m H.log H'.log
  events : Bundled lockOf H.events H'.events

omit [DecidableEq ι] in
theorem Sim.runs (sim : Sim lockOf s s') (running : (s.handles h).stage = .running) :
    Runs lockOf s.memory (s.handles h) (s'.handles h) := by
  have same := sim.handles h
  exact ⟨same.stage.of_running running, same.startTime, same.acquiredLocks,
    same.readSet (by rw [running]; rfl), same.log (by rw [running]; rfl), same.events⟩

/-- The run over bundles that matches a step. -/
def Matches (A : Addresses ι) (lockOf : Cell → Lk) (s' : State ι Lk Lk (Bundle Cell Val))
    (t : State ι Lk Cell Val) : Prop :=
  ∃ t', Reaches (State.step A id) anyStep s' t' ∧ Sim lockOf t t'

theorem Sim.trBegin (sim : Sim lockOf s s') (moved : s.trBegin h = some t) :
    Matches A lockOf s' t := by
  simp only [State.trBegin] at moved
  split at moved
  next idle =>
      cases moved
      have same := sim.handles h
      have changed : HandleSim lockOf s.memory
          { s.handles h with startTime := s.time, stage := .running }
          { s'.handles h with startTime := s'.time, stage := .running } :=
        ⟨sim.time, same.acquiredLocks, .running, fun _ => same.readSet (by rw [idle]; rfl),
          fun _ => same.log (by rw [idle]; rfl), same.events⟩
      refine ⟨_, .single (l := (h, .trBegin)) trivial ?_, sim.setHandle h changed⟩
      simp only [State.step, State.trBegin, same.stage.of_idle idle]
  next running =>
      cases moved
      have runs := sim.runs running
      have changed : HandleSim lockOf s.memory
          { s.handles h with
            transactions := ((s.handles h).readSet.length, (s.handles h).log.length) ::
              (s.handles h).transactions
            events := (s.handles h).events ++ [.trBegin] }
          { s'.handles h with
            transactions := ((s'.handles h).readSet.length, (s'.handles h).log.length) ::
              (s'.handles h).transactions
            events := (s'.handles h).events ++ [.trBegin] } := by
        refine ⟨runs.startTime, runs.acquiredLocks, (sim.handles h).stage, fun _ => ?_,
          fun _ => runs.log, runs.events.trBegin⟩
        rw [← runs.log.length]
        exact runs.readSet.begin _
      refine ⟨_, .single (l := (h, .trBegin)) trivial ?_, sim.setHandle h changed⟩
      simp only [State.step, State.trBegin, runs.stage]
  next => cases moved

theorem Sim.load (sim : Sim lockOf s s') {c : Cell} (moved : s.load lockOf h c = some t) :
    Matches A lockOf s' t := by
  simp only [State.load] at moved
  split at moved
  next running =>
      cases moved
      have runs := sim.runs running
      have changed : HandleSim lockOf s.memory
          { s.handles h with
            readSet := (s.handles h).readSet ++ [lockOf c]
            stage := .reading c (s.memory c) }
          { s'.handles h with
            readSet := (s'.handles h).readSet ++ [lockOf c]
            stage := .reading (lockOf c) (s'.memory (lockOf c)) } := by
        refine ⟨runs.startTime, runs.acquiredLocks, .reading ?_,
          fun _ => runs.readSet.append (.keep _ .nil), fun _ => runs.log, runs.events⟩
        rw [sim.memory, bundle_self]
      refine ⟨_, .single (l := (h, .load (lockOf c))) trivial ?_, sim.setHandle h changed⟩
      simp only [State.step, State.load, runs.stage]
      rfl
  next => cases moved

theorem Sim.trUncheckedRead (sim : Sim lockOf s s') {c : Cell}
    (moved : s.trUncheckedRead lockOf h c = some t) : Matches A lockOf s' t := by
  simp only [State.trUncheckedRead] at moved
  split at moved
  next running =>
      cases moved
      have runs := sim.runs running
      have changed : HandleSim lockOf s.memory
          { s.handles h with readSet := (s.handles h).readSet ++ [lockOf c] }
          { s'.handles h with readSet := (s'.handles h).readSet ++ [lockOf c] } :=
        ⟨runs.startTime, runs.acquiredLocks, (sim.handles h).stage,
          fun _ => runs.readSet.append (.keep _ .nil), fun _ => runs.log, runs.events⟩
      refine ⟨_, .single (l := (h, .trUncheckedRead (lockOf c))) trivial ?_,
        sim.setHandle h changed⟩
      simp only [State.step, State.trUncheckedRead, runs.stage]
      rfl
  next => cases moved

theorem Sim.utilLock (sim : Sim lockOf s s') {l : Lk} (moved : s.utilLock A h l = some t) :
    Matches A lockOf s' t := by
  simp only [State.utilLock] at moved
  split at moved
  next running =>
      have runs := sim.runs running
      split at moved
      next free =>
          cases moved
          have changed : HandleSim lockOf s.memory
              { s.handles h with acquiredLocks := l :: (s.handles h).acquiredLocks }
              { s'.handles h with acquiredLocks := l :: (s'.handles h).acquiredLocks } := by
            refine ⟨runs.startTime, congrArg (l :: ·) runs.acquiredLocks, ?_,
              fun _ => runs.readSet.mono (List.subset_cons_self _ _), fun _ => runs.log,
              runs.events⟩
            show StageSim lockOf _ (s.handles h).stage (s'.handles h).stage
            rw [running, runs.stage]
            exact .running
          refine ⟨_, .single (l := (h, .utilLock l)) trivial ?_,
            sim.change h changed sim.time (congrArg (Function.update · l (A.address h)) sim.locks)
              sim.queue sim.committed sim.readers sim.aborted⟩
          have free' : s'.locks l % 2 = 1 ∧ s'.locks l ≤ (s'.handles h).startTime := by
            rwa [sim.locks, runs.startTime]
          simp only [State.step, State.utilLock, runs.stage, if_pos free']
      next taken =>
          cases moved
          refine ⟨s', .single (l := (h, .utilLock l)) trivial ?_, sim⟩
          simp only [State.step, State.utilLock, runs.stage]
          rw [sim.locks, runs.startTime, if_neg taken]
  next => cases moved

omit [DecidableEq Lk] [DecidableEq Cell] [DecidableEq ι] in
theorem StageSim.unlocks (sim : StageSim lockOf acquired S S') : S'.unlocks = S.unlocks := by
  cases sim <;> rfl

/-- A cell is overwritten whose lock the handle has. -/
theorem Sim.overwrite (sim : Sim lockOf s s') (sound : s'.Sound A init) {c : Cell} {value : Val}
    (owned : s'.locks (lockOf c) = A.address h) {H : Handle Lk Cell Val}
    {H' : Handle Lk Lk (Bundle Cell Val)}
    (same : HandleSim lockOf (Function.update s.memory c value) H H') : Sim lockOf
      { s with
        memory := Function.update s.memory c value
        handles := Function.update s.handles h H }
      { s' with
        memory := Function.update s'.memory (lockOf c)
          (bundle lockOf (Function.update s.memory c value) (lockOf c))
        handles := Function.update s'.handles h H' } where
  time := sim.time
  memory := by
    show Function.update s'.memory _ _ = _
    rw [sim.memory]
    exact (bundle_restore lockOf s.memory c value).symm
  locks := sim.locks
  queue := sim.queue
  handles g := by
    show HandleSim lockOf _ (Function.update s.handles h H g) (Function.update s'.handles h H' g)
    by_cases here : g = h
    · subst here
      rwa [Function.update_self, Function.update_self]
    · rw [Function.update_of_ne here, Function.update_of_ne here]
      have other := sim.handles g
      refine ⟨other.startTime, other.acquiredLocks, other.stage, other.readSet, fun locked => ?_,
        other.events⟩
      have logged := (sound.valued.stands g).logged (other.stage.unlocks.trans locked)
      refine (other.log locked).frame (fun item inside apart => here ?_) value
      have mine : s'.Owns h (lockOf c) := sound.locked.owns_of_address owned
      exact sound.locked.unique (logged.owned item inside) (apart ▸ mine)
  committed := sim.committed
  readers := sim.readers
  aborted := sim.aborted

theorem Sim.write (sim : Sim lockOf s s') (sound : s'.Sound A init) {c : Cell} {value : Val}
    (moved : s.write A lockOf h c value = some t) : Matches A lockOf s' t := by
  simp only [State.write] at moved
  split at moved
  next running =>
      obtain ⟨owned, moved⟩ := Option.ite_none_right_eq_some.mp moved
      cases moved
      have runs := sim.runs running
      have owned' : s'.locks (lockOf c) = A.address h := (congrFun sim.locks _).trans owned
      have member : lockOf c ∈ (s.handles h).acquiredLocks :=
        runs.acquiredLocks ▸ sound.locked.owns_of_address owned'
      have changed : HandleSim lockOf (Function.update s.memory c value)
          { s.handles h with
            log := (s.handles h).log ++ [(c, s.memory c)]
            events := (s.handles h).events ++ [.write c value] }
          { s'.handles h with
            readSet := (s'.handles h).readSet ++ [lockOf c]
            log := (s'.handles h).log ++ [(lockOf c, s'.memory (lockOf c))]
            events := (s'.handles h).events ++ [.read (lockOf c) (s'.memory (lockOf c))] ++
              [.write (lockOf c) (bundle lockOf (Function.update s.memory c value) (lockOf c))] } := by
        refine ⟨runs.startTime, runs.acquiredLocks, (sim.handles h).stage, fun _ => ?_,
          fun _ => ?_, ?_⟩
        · have none : Thin (s.handles h).acquiredLocks [] [lockOf c] := .skip member .nil
          have more := runs.readSet.append none
          rwa [List.append_nil] at more
        · rw [sim.memory]
          exact runs.log.write c value
        · rw [bundle_update_self, sim.memory]
          exact runs.events.write c value _
      exact ⟨_, reaches_write runs.stage owned' _, sim.overwrite sound owned' changed⟩
  next => cases moved

omit [DecidableEq ι] in
/-- An end time is drawn, and locks are freed. -/
theorem Sim.ending (sim : Sim lockOf s s') (h : ι) {endTime endTime' : ℕ}
    (same : endTime' = endTime) :
    HandleSim lockOf s.memory { s.handles h with stage := .unlocking endTime }
      { s'.handles h with stage := .unlocking endTime' } := by
  have before := sim.handles h
  refine ⟨before.startTime, before.acquiredLocks, ?_, fun alive => (by cases alive),
    fun locked => (by cases locked), before.events⟩
  rw [same]
  exact .unlocking _

theorem Sim.trCommit (sim : Sim lockOf s s') (moved : s.trCommit h = some t) :
    Matches A lockOf s' t := by
  simp only [State.trCommit] at moved
  split at moved
  next tr transactions running nested =>
      cases moved
      have runs := sim.runs running
      have marked := runs.readSet
      rw [nested] at marked
      obtain ⟨r', ts', nested'⟩ := marked.of_nested
      rw [nested'] at marked
      have changed : HandleSim lockOf s.memory
          { s.handles h with
            transactions := transactions
            events := (s.handles h).events ++ [.trCommit] }
          { s'.handles h with
            transactions := ts'
            events := (s'.handles h).events ++ [.trCommit] } :=
        ⟨runs.startTime, runs.acquiredLocks, (sim.handles h).stage, fun _ => marked.tail,
          fun _ => runs.log, runs.events.trCommit⟩
      refine ⟨_, .single (l := (h, .trCommit)) trivial ?_, sim.setHandle h changed⟩
      simp only [State.step, State.trCommit, runs.stage, nested']
  next running main =>
      have runs := sim.runs running
      have marked := runs.readSet
      rw [main] at marked
      split at moved
      next reader =>
          cases moved
          have later : s'.time + 2 = s.time + 2 := congrArg (· + 2) sim.time
          refine ⟨_, .single (l := (h, .trCommit)) trivial ?_,
            sim.change h (sim.ending h later) later sim.locks sim.queue sim.committed
              (forall₂_concat sim.readers ((sim.handles h).txn later)) sim.aborted⟩
          have reader' := runs.log.isEmpty.trans reader
          simp only [State.step, State.trCommit, runs.stage, marked.of_main, if_pos reader']
      next writer =>
          cases moved
          have changed : HandleSim lockOf s.memory
              { s.handles h with stage := .pushing (s.time + 2) }
              { s'.handles h with stage := .pushing (s'.time + 2) } := by
            refine ⟨runs.startTime, runs.acquiredLocks, ?_, fun _ => runs.readSet,
              fun _ => runs.log, runs.events⟩
            rw [sim.time]
            exact .pushing _
          refine ⟨_, .single (l := (h, .trCommit)) trivial ?_,
            sim.change h changed (congrArg (· + 2) sim.time) sim.locks sim.queue
              sim.committed sim.readers sim.aborted⟩
          have writer' : (s'.handles h).log.isEmpty ≠ true := by rwa [runs.log.isEmpty]
          simp only [State.step, State.trCommit, runs.stage, marked.of_main, if_neg writer']
  next => cases moved

omit [DecidableEq ι] in
theorem Sim.abortMain (sim : Sim lockOf s s') (running : (s.handles h).stage = .running) :
    HandleSim lockOf s.memory (s.handles h).abortMain (s'.handles h).abortMain := by
  have runs := sim.runs running
  exact ⟨runs.startTime, runs.acquiredLocks, .rollingBack 0 true, fun alive => (by cases alive),
    fun _ => runs.log, runs.events⟩

theorem Sim.trAbort (sim : Sim lockOf s s') (moved : s.trAbort h = some t) :
    Matches A lockOf s' t := by
  simp only [State.trAbort] at moved
  split at moved
  next readSet pos transactions running nested =>
      cases moved
      have runs := sim.runs running
      have marked := runs.readSet
      rw [nested] at marked
      obtain ⟨r', ts', nested'⟩ := marked.of_nested
      rw [nested'] at marked
      have changed : HandleSim lockOf s.memory
          { s.handles h with
            readSet := (s.handles h).readSet.take readSet
            stage := .rollingBack pos false }
          { s'.handles h with
            readSet := (s'.handles h).readSet.take r'
            stage := .rollingBack pos false } := by
        refine ⟨runs.startTime, runs.acquiredLocks, .rollingBack pos false, fun _ => ?_,
          fun _ => runs.log, runs.events⟩
        show Marked _ _ _ (s.handles h).transactions (s'.handles h).transactions
        rw [nested, nested']
        exact marked.abort
      refine ⟨_, .single (l := (h, .trAbort)) trivial ?_, sim.setHandle h changed⟩
      simp only [State.step, State.trAbort, runs.stage, nested']
  next running main =>
      cases moved
      have runs := sim.runs running
      have marked := runs.readSet
      rw [main] at marked
      refine ⟨_, .single (l := (h, .trAbort)) trivial ?_, sim.setHandle h (sim.abortMain running)⟩
      simp only [State.step, State.trAbort, runs.stage, marked.of_main]
  next => cases moved

theorem Sim.trHardAbort (sim : Sim lockOf s s') (moved : s.trHardAbort h = some t) :
    Matches A lockOf s' t := by
  simp only [State.trHardAbort] at moved
  split at moved
  next running =>
      cases moved
      have runs := sim.runs running
      refine ⟨_, .single (l := (h, .trHardAbort)) trivial ?_,
        sim.setHandle h (sim.abortMain running)⟩
      simp only [State.step, State.trHardAbort, runs.stage]
  next => cases moved

omit [DecidableEq Lk] [DecidableEq Cell] [DecidableEq ι] in
theorem StageSim.of_rollingBack {main : Bool} (sim : StageSim lockOf acquired S S')
    (rolling : S = .rollingBack pos main) : S' = .rollingBack pos main := by
  cases sim with
  | rollingBack => cases rolling; rfl
  | _ => cases rolling

theorem Sim.rollBack (sim : Sim lockOf s s') (sound : s'.Sound A init) {main : Bool}
    (rolling : (s.handles h).stage = .rollingBack pos main)
    (moved : s.rollBack h pos main = some t) : Matches A lockOf s' t := by
  have same := sim.handles h
  have undoes := same.log (by rw [rolling]; rfl)
  have rolling' := same.stage.of_rollingBack rolling
  simp only [State.rollBack] at moved
  split at moved
  next back =>
      have back' : (s'.handles h).log.length = pos := undoes.length.symm.trans back
      cases main with
      | true =>
          cases moved
          have later : s'.time + 2 = s.time + 2 := congrArg (· + 2) sim.time
          refine ⟨_, .single (l := (h, .advance)) trivial ?_,
            sim.change h (sim.ending h later) later sim.locks sim.queue sim.committed sim.readers
              (forall₂_concat sim.aborted ((sim.handles h).txn later))⟩
          simp only [State.step, State.advance, rolling', State.rollBack, if_pos back']
          rfl
      | false =>
          cases moved
          have changed : HandleSim lockOf s.memory
              { s.handles h with
                transactions := (s.handles h).transactions.tail
                stage := .running
                events := (s.handles h).events ++ [.trAbort] }
              { s'.handles h with
                transactions := (s'.handles h).transactions.tail
                stage := .running
                events := (s'.handles h).events ++ [.trAbort] } :=
            ⟨same.startTime, same.acquiredLocks, .running,
              fun _ => (same.readSet (by rw [rolling]; rfl)).tail, fun _ => undoes,
              same.events.trAbort⟩
          refine ⟨_, .single (l := (h, .advance)) trivial ?_, sim.setHandle h changed⟩
          simp only [State.step, State.advance, rolling', State.rollBack, if_pos back']
          rfl
  next more =>
      obtain ⟨none, -⟩ | ⟨rest, rest', c, old, log, log', before⟩ := undoes.last
      · rw [none] at moved
        cases moved
      · rw [log, List.getLast?_concat, List.dropLast_concat] at moved
        cases moved
        have logged := (sound.valued.stands h).logged (by rw [rolling']; rfl)
        have member : lockOf c ∈ (s'.handles h).acquiredLocks :=
          logged.owned (lockOf c, bundle lockOf (Function.update s.memory c old) (lockOf c))
            (log' ▸ List.mem_append_right _ (List.mem_singleton_self _))
        have changed : HandleSim lockOf (Function.update s.memory c old)
            { s.handles h with log := rest } { s'.handles h with log := rest' } :=
          ⟨same.startTime, same.acquiredLocks, same.stage, same.readSet, fun _ => before,
            same.events⟩
        have more' : ¬ (s'.handles h).log.length = pos := by rwa [← undoes.length]
        refine ⟨_, .single (l := (h, .advance)) trivial ?_,
          sim.overwrite sound (sound.locked.held h _ member) changed⟩
        simp only [State.step, State.advance, rolling', State.rollBack, if_neg more']
        rw [log', List.getLast?_concat, List.dropLast_concat]
        rfl

omit [DecidableEq Lk] [DecidableEq Cell] [DecidableEq ι] in
theorem StageSim.of_validating {endTime : ℕ} (sim : StageSim lockOf acquired S S')
    (validating : S = .validating endTime rs) :
    ∃ rs', S' = .validating endTime rs' ∧ Thin acquired rs rs' := by
  cases sim with
  | validating _ thin => cases validating; exact ⟨_, rfl, thin⟩
  | _ => cases validating

/-- The validation passes the locks that are only in the read set over bundles. -/
theorem Sim.passed (sim : Sim lockOf s s') (sound : s'.Sound A init) {endTime : ℕ}
    (validating : (s.handles h).stage = .validating endTime rs) : ∃ s₁ rs₁,
      Reaches (State.step A id) anyStep s' s₁ ∧ Sim lockOf s s₁ ∧
      (s₁.handles h).stage = .validating endTime rs₁ ∧ (rs = [] → rs₁ = []) ∧
      ∀ l others, rs = l :: others → ∃ others', rs₁ = l :: others' ∧
        Thin (s.handles h).acquiredLocks others others' := by
  have same := sim.handles h
  obtain ⟨rs', validating', thin⟩ := same.stage.of_validating validating
  have owned (l : Lk) (member : l ∈ (s.handles h).acquiredLocks) : s'.locks l = A.address h :=
    sound.locked.held h l (show l ∈ (s'.handles h).acquiredLocks from same.acquiredLocks ▸ member)
  obtain ⟨rs₁, reached, none, some⟩ := reaches_thin thin owned validating'
  have still : Thin (s.handles h).acquiredLocks rs rs₁ := by
    cases rs with
    | nil => rw [none rfl]; exact .nil
    | cons l others =>
        obtain ⟨others', rfl, rest⟩ := some l others rfl
        exact .keep l rest
  have changed : HandleSim lockOf s.memory (s.handles h)
      { s'.handles h with stage := .validating endTime rs₁ } := by
    refine ⟨same.startTime, same.acquiredLocks, ?_, same.readSet, same.log, same.events⟩
    rw [validating]
    exact .validating endTime still
  refine ⟨_, rs₁, reached, ?_, by rw [handles_setHandle], none, some⟩
  have set := sim.setHandle h changed
  unfold State.setHandle at set
  rwa [Function.update_eq_self] at set

theorem Sim.validate (sim : Sim lockOf s s') (sound : s'.Sound A init) {endTime : ℕ}
    (validating : (s.handles h).stage = .validating endTime rs) :
    Matches A lockOf s' (s.validate A h endTime rs) := by
  obtain ⟨s₁, rs₁, reached, sim₁, validating₁, none, some⟩ := sim.passed sound validating
  have same := sim₁.handles h
  cases rs with
  | nil =>
      rw [none rfl] at validating₁
      refine ⟨_, reached.step (l := (h, .advance)) trivial ?_,
        sim₁.change h (sim₁.ending h rfl) sim₁.time sim₁.locks sim₁.queue
          (forall₂_concat sim₁.committed (same.txn rfl)) sim₁.readers sim₁.aborted⟩
      simp only [State.step, State.advance, validating₁, State.validate]
  | cons l others =>
      obtain ⟨others', rfl, thin⟩ := some l others rfl
      have check := sim₁.lCheck A h l
      simp only [State.validate]
      by_cases ok : s.lCheck A h l = true
      · rw [if_pos ok]
        have changed : HandleSim lockOf s.memory
            { s.handles h with stage := .validating endTime others }
            { s₁.handles h with stage := .validating endTime others' } :=
          ⟨same.startTime, same.acquiredLocks, .validating endTime thin,
            fun _ => same.readSet (by rw [validating]; rfl),
            fun _ => same.log (by rw [validating]; rfl), same.events⟩
        refine ⟨_, reached.step (l := (h, .advance)) trivial ?_, sim₁.setHandle h changed⟩
        simp only [State.step, State.advance, validating₁, State.validate,
          if_pos (check.trans ok)]
      · rw [if_neg ok]
        have changed : HandleSim lockOf s.memory (s.handles h).abortMain
            (s₁.handles h).abortMain :=
          ⟨same.startTime, same.acquiredLocks, .rollingBack 0 true, fun alive => (by cases alive),
            fun _ => same.log (by rw [validating]; rfl), same.events⟩
        refine ⟨_, reached.step (l := (h, .advance)) trivial ?_, sim₁.setHandle h changed⟩
        have fails : ¬ s₁.lCheck A h l = true := by rwa [check]
        simp only [State.step, State.advance, validating₁, State.validate,
          if_neg fails]

omit [DecidableEq Lk] [DecidableEq Cell] [DecidableEq ι] in
theorem StageSim.of_unlocking {endTime : ℕ} (sim : StageSim lockOf acquired S S')
    (unlocking : S = .unlocking endTime) : S' = .unlocking endTime := by
  cases sim with
  | unlocking => cases unlocking; rfl
  | _ => cases unlocking

theorem Sim.unlock (sim : Sim lockOf s s') {endTime : ℕ}
    (unlocking : (s.handles h).stage = .unlocking endTime) :
    Matches A lockOf s' (s.unlock A h endTime) := by
  have same := sim.handles h
  have unlocking' := same.stage.of_unlocking unlocking
  cases locks : (s.handles h).acquiredLocks with
  | nil =>
      have now : s.unlock A h endTime = s.setHandle h .cleanup := by
        simp only [State.unlock, locks]
      rw [now]
      have locks' : (s'.handles h).acquiredLocks = [] := same.acquiredLocks.trans locks
      refine ⟨_, .single (l := (h, .advance)) trivial ?_, sim.setHandle h (.cleanup lockOf s.memory)⟩
      simp only [State.step, State.advance, unlocking', State.unlock, locks']
  | cons l acquiredLocks =>
      have now : s.unlock A h endTime = { s with
          locks := if s.locks l = A.address h then Function.update s.locks l endTime else s.locks
          handles := Function.update s.handles h
            { s.handles h with acquiredLocks := acquiredLocks } } := by
        simp only [State.unlock, locks]
      rw [now]
      have locks' : (s'.handles h).acquiredLocks = l :: acquiredLocks :=
        same.acquiredLocks.trans locks
      have changed : HandleSim lockOf s.memory
          { s.handles h with acquiredLocks := acquiredLocks }
          { s'.handles h with acquiredLocks := acquiredLocks } := by
        refine ⟨same.startTime, rfl, ?_, fun alive => ?_, fun locked => ?_, same.events⟩
        · show StageSim lockOf _ (s.handles h).stage (s'.handles h).stage
          rw [unlocking, unlocking']
          exact .unlocking endTime
        · rw [show Stage.alive _ = (s.handles h).stage.alive from rfl, unlocking] at alive
          cases alive
        · rw [show Stage.unlocks _ = (s.handles h).stage.unlocks from rfl, unlocking] at locked
          cases locked
      have freed : (if s'.locks l = A.address h then Function.update s'.locks l endTime
          else s'.locks) =
          if s.locks l = A.address h then Function.update s.locks l endTime else s.locks := by
        rw [sim.locks]
      refine ⟨_, .single (l := (h, .advance)) trivial ?_, sim.change h changed sim.time freed
        sim.queue sim.committed sim.readers sim.aborted⟩
      simp only [State.step, State.advance, unlocking', State.unlock, locks']

omit [DecidableEq Lk] [DecidableEq Cell] [DecidableEq ι] in
theorem StageSim.of_reading {c : Cell} {value : Val} (sim : StageSim lockOf acquired S S')
    (reading : S = .reading c value) :
    ∃ b : Bundle Cell Val, S' = .reading (lockOf c) b ∧ b c = some value := by
  cases sim with
  | reading at_ => cases reading; exact ⟨_, rfl, at_⟩
  | _ => cases reading

omit [DecidableEq Lk] [DecidableEq Cell] [DecidableEq ι] in
theorem StageSim.of_pushing {endTime : ℕ} (sim : StageSim lockOf acquired S S')
    (pushing : S = .pushing endTime) : S' = .pushing endTime := by
  cases sim with
  | pushing => cases pushing; rfl
  | _ => cases pushing

theorem Sim.check (sim : Sim lockOf s s') {c : Cell} {value : Val}
    (reading : (s.handles h).stage = .reading c value)
    (moved : s.advance A lockOf h = some t) : Matches A lockOf s' t := by
  have same := sim.handles h
  obtain ⟨b, reading', at_⟩ := same.stage.of_reading reading
  have check := sim.lCheck A h (lockOf c)
  have changed {events events'} (together : Bundled lockOf events events') :
      HandleSim lockOf s.memory { s.handles h with stage := .running, events := events }
        { s'.handles h with stage := .running, events := events' } :=
    ⟨same.startTime, same.acquiredLocks, .running,
      fun _ => same.readSet (by rw [reading]; rfl), fun _ => same.log (by rw [reading]; rfl),
      together⟩
  simp only [State.advance, reading] at moved
  by_cases ok : s.lCheck A h (lockOf c) = true
  · rw [if_pos ok] at moved
    cases moved
    refine ⟨_, .single (l := (h, .advance)) trivial ?_,
      sim.setHandle h (changed (same.events.read at_))⟩
    simp only [State.step, State.advance, reading', id_eq, if_pos (check.trans ok)]
  · rw [if_neg ok] at moved
    cases moved
    refine ⟨_, .single (l := (h, .advance)) trivial ?_, sim.setHandle h (changed same.events)⟩
    have fails : ¬ s'.lCheck A h (lockOf c) = true := by rwa [check]
    simp only [State.step, State.advance, reading', id_eq, if_neg fails]

theorem Sim.push (sim : Sim lockOf s s') {endTime : ℕ}
    (pushing : (s.handles h).stage = .pushing endTime) : Matches A lockOf s' { s with
      handles := Function.update s.handles h
        { s.handles h with stage := .validating endTime (s.handles h).readSet }
      queue := s.queue ++ [endTime] } := by
  have same := sim.handles h
  have readSet := same.readSet (by rw [pushing]; rfl)
  have changed : HandleSim lockOf s.memory
      { s.handles h with stage := .validating endTime (s.handles h).readSet }
      { s'.handles h with stage := .validating endTime (s'.handles h).readSet } :=
    ⟨same.startTime, same.acquiredLocks, .validating endTime readSet.thin, fun _ => readSet,
      fun _ => same.log (by rw [pushing]; rfl), same.events⟩
  refine ⟨_, .single (l := (h, .advance)) trivial ?_, sim.change h changed sim.time sim.locks
    (congrArg (· ++ [endTime]) sim.queue) sim.committed sim.readers sim.aborted⟩
  simp only [State.step, State.advance, same.stage.of_pushing pushing]

/-- Every step over cells is matched by a run over bundles. -/
theorem Sim.step {action : Action Lk Cell Val} (sim : Sim lockOf s s') (sound : s'.Sound A init)
    (moved : State.step A lockOf s (h, action) = some t) : Matches A lockOf s' t := by
  cases action with
  | trBegin => exact sim.trBegin moved
  | load c => exact sim.load moved
  | trUncheckedRead c => exact sim.trUncheckedRead moved
  | utilLock l => exact sim.utilLock moved
  | write c value => exact sim.write sound moved
  | trCommit => exact sim.trCommit moved
  | trAbort => exact sim.trAbort moved
  | trHardAbort => exact sim.trHardAbort moved
  | advance =>
      have moved : s.advance A lockOf h = some t := moved
      cases stage : (s.handles h).stage with
      | idle | running =>
          simp only [State.advance, stage] at moved
          cases moved
      | reading c value => exact sim.check stage moved
      | rollingBack pos main =>
          simp only [State.advance, stage] at moved
          exact sim.rollBack sound stage moved
      | pushing endTime =>
          simp only [State.advance, stage] at moved
          cases moved
          exact sim.push stage
      | validating endTime rest =>
          simp only [State.advance, stage] at moved
          cases moved
          exact sim.validate sound stage
      | unlocking endTime =>
          simp only [State.advance, stage] at moved
          cases moved
          exact sim.unlock stage

end Matched

end HybridDatabase.Stm.Cells
