/-
# Serial executions over cells

With locks that guard several cells the committed transactions in the order of their end times are a
serial execution too: it leaves what stands in every cell, and the reads of cells that count return
in it what they have returned.  Every read at all returns what has been left by the transactions
that ended before its own began.
-/

import HybridDatabase.Stm.CellRuns
import HybridDatabase.Stm.Nested

namespace HybridDatabase.Stm.Cells

open HybridDatabase.Base

universe u v w z

variable {ι : Type u} {Lk : Type v} {Cell : Type w} {Val : Type z}

/-! ## Orders -/

/-- The transactions that end up to a time stand at the front. -/
theorem filter_eq_take {Obj : Type v} {V : Type w} {txns : List (Txn Obj V)}
    (sorted : ByEndTime txns) (time : ℕ) : txns.filter (fun t => t.endTime ≤ time) =
      txns.take ((txns.map Txn.endTime).countP fun e => e ≤ time) := by
  induction txns with
  | nil => rfl
  | cons t txns ih =>
      obtain ⟨later, others⟩ := List.pairwise_cons.mp sorted
      by_cases early : t.endTime ≤ time
      · have kept : (t :: txns).filter (fun t => t.endTime ≤ time) =
            t :: txns.filter fun t => t.endTime ≤ time :=
          List.filter_cons_of_pos (decide_eq_true early)
        have counted : ((t :: txns).map Txn.endTime).countP (fun e => e ≤ time) =
            (txns.map Txn.endTime).countP (fun e => e ≤ time) + 1 :=
          List.countP_cons_of_pos (decide_eq_true early)
        rw [kept, counted, List.take_succ_cons, ih others]
      · have late : ∀ t' ∈ t :: txns, ¬ decide (t'.endTime ≤ time) = true := by
          intro t' inside soon
          have soon := of_decide_eq_true soon
          rcases List.mem_cons.mp inside with rfl | behind
          · exact early soon
          · exact early ((later t' behind).le.trans soon)
        have none : ((t :: txns).map Txn.endTime).countP (fun e => e ≤ time) = 0 := by
          rw [List.countP_map]
          exact List.countP_eq_zero.mpr late
        rw [List.filter_eq_nil_iff.mpr late, none, List.take_zero]

theorem exists_of_mem {α β : Type*} {R : α → β → Prop} {as : List α} {bs : List β} {a : α}
    (all : List.Forall₂ R as bs) (inside : a ∈ as) : ∃ b ∈ bs, R a b := by
  induction all with
  | nil => cases inside
  | cons first _ ih =>
      rcases List.mem_cons.mp inside with rfl | later
      · exact ⟨_, List.mem_cons_self, first⟩
      · obtain ⟨b, inside, related⟩ := ih later
        exact ⟨b, List.mem_cons_of_mem _ inside, related⟩

section Serial

variable [DecidableEq Lk] [DecidableEq Cell] {lockOf : Cell → Lk} {init : Cell → Val}
  {order : List (Txn Cell Val)} {order' : List (Txn Lk (Bundle Cell Val))}

omit [DecidableEq Lk] in
theorem endTimes_eq (together : List.Forall₂ (TxnSim lockOf) order order') :
    order'.map Txn.endTime = order.map Txn.endTime := by
  induction together with
  | nil => rfl
  | cons first _ ih => rw [List.map_cons, List.map_cons, first.endTime, ih]

/-- The serial executions lead to the same. -/
theorem serial_bundle (together : List.Forall₂ (TxnSim lockOf) order order')
    (reproduced : ∀ (i : ℕ) t', order'[i]? = some t' → ∀ k ∈ (own t'.events).reads,
      Returns (serial (bundle lockOf init) (order'.take i)) t'.events k) (i : ℕ) :
    bundle lockOf (serial init (order.take i)) = serial (bundle lockOf init) (order'.take i) := by
  induction i with
  | zero => rfl
  | succ i ih =>
      rcases Nat.lt_or_ge i order.length with inside | outside
      · have inside' : i < order'.length := together.length_eq ▸ inside
        have related := together.get inside inside'
        rw [List.take_succ_eq_append_getElem inside, List.take_succ_eq_append_getElem inside',
          serial_concat, serial_concat]
        have tracks := related.events.tracks (serial init (order.take i))
        have answers := tracks.answers fun k counts => by
          rw [ih]
          exact reproduced i _ (List.getElem?_eq_getElem inside') k counts
        rw [← ih]
        exact answers.1.bundle
      · have outside' : order'.length ≤ i := together.length_eq ▸ outside
        rw [List.take_of_length_le (outside.trans (Nat.le_succ i)),
          List.take_of_length_le (outside'.trans (Nat.le_succ i))]
        rwa [List.take_of_length_le outside, List.take_of_length_le outside'] at ih

end Serial

/-! ## Runs -/

/-- Where the run over bundles starts. -/
def bundles [DecidableEq Lk] (lockOf : Cell → Lk) (s : State ι Lk Cell Val) :
    State ι Lk Lk (Bundle Cell Val) :=
  ⟨s.time, bundle lockOf s.memory, s.locks, fun _ => .cleanup, [], [], [], []⟩

/-- The committed transactions in the order of their end times are a serial execution: its writes
leave what stands in the cells, and the reads of cells that count return in it what they have
returned.  Every read of a transaction that has ended or is running returns what the transactions
that ended before it began have left. -/
structure Serializable (init : Cell → Val) (order : List (Txn Cell Val)) (lockOf : Cell → Lk)
    [DecidableEq Cell] (s : State ι Lk Cell Val) : Prop where
  perm : order.Perm s.committed
  byEndTime : ByEndTime order
  ended : ∀ t ∈ s.committed ++ s.readers ++ s.aborted, ∀ k,
    Returns (serial init (order.filter fun t' => t'.endTime ≤ t.startTime)) t.events k
  running : ∀ h k, Returns
    (serial init (order.filter fun t => t.endTime ≤ (s.handles h).startTime))
    (s.handles h).events k
  reproduced : ∀ (i : ℕ) t, order[i]? = some t → ∀ k ∈ (own t.events).reads,
    Returns (serial init (order.take i)) t.events k
  free : ∀ c, s.locks (lockOf c) % 2 = 1 → s.memory c = serial init order c
  final : (∀ h, (s.handles h).stage = .idle) → s.memory = serial init order

variable [DecidableEq Lk] [DecidableEq Cell] {lockOf : Cell → Lk} {A : Addresses ι}
  {s t : State ι Lk Cell Val}

omit [DecidableEq Cell] in
theorem bundles_initial (initial : s.Initial) (lockOf : Cell → Lk) :
    (bundles lockOf s).Initial where
  odd := initial.odd
  free := initial.free
  handles _ := rfl
  queue := rfl
  committed := rfl
  readers := rfl
  aborted := rfl

theorem bundles_sim (initial : s.Initial) (lockOf : Cell → Lk) :
    Sim lockOf s (bundles lockOf s) where
  time := rfl
  memory := rfl
  locks := rfl
  queue := initial.queue.symm
  handles h := by
    rw [initial.handles h]
    exact .cleanup lockOf s.memory
  committed := by
    rw [initial.committed]
    exact .nil
  readers := by
    rw [initial.readers]
    exact .nil
  aborted := by
    rw [initial.aborted]
    exact .nil

variable [DecidableEq ι]

/-- A step over cells is matched from wherever a run over bundles has come. -/
theorem matches_step {u v : State ι Lk Cell Val} {u' : State ι Lk Lk (Bundle Cell Val)}
    {action : ι × Action Lk Cell Val} (initial : s.Initial)
    (reached : Reaches (State.step A id) anyStep (bundles lockOf s) u') (sim : Sim lockOf u u')
    (moved : State.step A lockOf u action = some v) : Matches A lockOf u' v :=
  sim.step (State.Sound.of_reaches (bundles_initial initial lockOf) reached) moved

/-- Every run over cells is matched by a run over bundles. -/
theorem refines_bundles (initial : s.Initial)
    (reaches : Reaches (State.step A lockOf) anyStep s t) :
    ∃ t', Reaches (State.step A id) anyStep (bundles lockOf s) t' ∧ Sim lockOf t t' :=
  reaches.simulated (bundles_sim initial lockOf) fun _ _ _ _ reached sim _ moved =>
    matches_step initial reached sim moved

/-- The first component is the lock.  One transaction writes to two cells of a lock, the other one
reads the one that has been left alone and is told that the lock is taken; then it writes to it. -/
def neighbours : List (Bool × Action Bool (Bool × Bool) ℕ) :=
  [(true, .trBegin), (false, .trBegin), (true, .utilLock true), (true, .write (true, true) 7),
    (false, .load (true, false)), (false, .advance), (true, .write (true, true) 8),
    (true, .trUncheckedRead (false, true)), (true, .trCommit), (true, .advance), (true, .advance),
    (true, .advance), (true, .advance), (true, .advance), (false, .trAbort), (false, .advance),
    (false, .advance), (false, .trBegin), (false, .load (true, true)), (false, .advance),
    (false, .utilLock true), (false, .write (true, false) 9), (false, .trCommit),
    (false, .advance), (false, .advance), (false, .advance), (false, .advance), (false, .advance)]

theorem refines_bundles_neighbours : ∃ t, runSteps (State.step State.twoHandles Prod.fst)
    (State.fresh Bool Bool (Bool × Bool)) neighbours = some t ∧ t.committed.length = 2 ∧
      ∃ t', Reaches (State.step State.twoHandles id) anyStep
        (bundles Prod.fst (State.fresh Bool Bool (Bool × Bool))) t' ∧ Sim Prod.fst t t' := by
  have reaches := reaches_of_runSteps (.start (s := State.fresh Bool Bool (Bool × Bool)))
    (fun _ _ _ => trivial)
    (show runSteps (State.step State.twoHandles Prod.fst) _ neighbours = some _ from rfl)
  exact ⟨_, rfl, rfl, refines_bundles (State.fresh_initial _ _ _) reaches⟩

/-- Transactions over cells that share locks are serializable. -/
theorem serializable_cells (initial : s.Initial)
    (reaches : Reaches (State.step A lockOf) anyStep s t) :
    ∃ order, Serializable s.memory order lockOf t := by
  obtain ⟨t', reached, sim⟩ := reaches.simulated (bundles_sim initial lockOf)
    fun _ _ _ _ reached sim _ moved => matches_step initial reached sim moved
  have sound := State.Sound.of_reaches (bundles_initial initial lockOf) reached
  have whole := sound.serial
  obtain ⟨order, perm, together⟩ :
      Relation.Comp List.Perm (List.Forall₂ (TxnSim lockOf)) t.committed t'.order := by
    rw [← List.forall₂_comp_perm_eq_perm_comp_forall₂]
    exact ⟨t'.committed, sim.committed, whole.perm.symm⟩
  have endTimes := endTimes_eq together
  have sorted : ByEndTime order := by
    have sorted := List.pairwise_map.mpr whole.byEndTime
    rw [endTimes] at sorted
    exact List.pairwise_map.mp sorted
  have same (i : ℕ) : bundle lockOf (serial s.memory (order.take i)) =
      serial (bundle lockOf s.memory) (t'.order.take i) :=
    serial_bundle together whole.reproduced i
  have sameAll : bundle lockOf (serial s.memory order) =
      serial (bundle lockOf s.memory) t'.order := by
    have same := same order.length
    rwa [List.take_length, together.length_eq, List.take_length] at same
  have before (time : ℕ) : bundle lockOf
      (serial s.memory (order.filter fun t => t.endTime ≤ time)) =
        serial (bundle lockOf s.memory) (t'.order.filter fun t => t.endTime ≤ time) := by
    rw [filter_eq_take sorted, filter_eq_take whole.byEndTime, endTimes]
    exact same _
  have free (c : Cell) (odd : t.locks (lockOf c) % 2 = 1) :
      t.memory c = serial s.memory order c := by
    have guarded : bundle lockOf t.memory (lockOf c) =
        bundle lockOf (serial s.memory order) (lockOf c) := by
      rw [← sim.memory, sameAll]
      exact whole.free (lockOf c) (by rwa [sim.locks])
    exact eq_of_bundle guarded
  refine ⟨order, perm.symm, sorted, ?_, ?_, ?_, free, ?_⟩
  · intro txn inside
    have all := List.rel_append (List.rel_append sim.committed sim.readers) sim.aborted
    obtain ⟨txn', inside', related⟩ := exists_of_mem all inside
    refine (related.events.returns fun k => ?_).2
    rw [before, ← related.startTime]
    exact whole.ended txn' inside' k
  · intro h
    have related := sim.handles h
    refine (related.events.returns fun k => ?_).2
    rw [before, ← related.startTime]
    exact whole.running h k
  · intro i txn at_
    obtain ⟨inside, rfl⟩ := List.getElem?_eq_some_iff.mp at_
    have inside' : i < t'.order.length := together.length_eq ▸ inside
    have related := together.get inside inside'
    refine ((related.events.tracks _).answers fun k counts => ?_).2
    rw [same]
    exact whole.reproduced i _ (List.getElem?_eq_getElem inside') k counts
  · intro idle
    have idle' (h : ι) : (t'.handles h).stage = .idle := by
      have related := (sim.handles h).stage
      exact related.of_idle (idle h)
    funext c
    exact free c (sim.locks ▸ sound.free_of_idle idle' (lockOf c))

theorem serializable_cells_neighbours : ∃ t, runSteps (State.step State.twoHandles Prod.fst)
    (State.fresh Bool Bool (Bool × Bool)) neighbours = some t ∧ t.committed.length = 2 ∧
      t.aborted.length = 1 ∧ ∃ order, Serializable (fun _ => 0) order Prod.fst t := by
  have reaches := reaches_of_runSteps (.start (s := State.fresh Bool Bool (Bool × Bool)))
    (fun _ _ _ => trivial)
    (show runSteps (State.step State.twoHandles Prod.fst) _ neighbours = some _ from rfl)
  exact ⟨_, rfl, rfl, rfl, serializable_cells (State.fresh_initial _ _ _) reaches⟩

end HybridDatabase.Stm.Cells
