/-
# Flat transactions

Without nested transactions every read counts, and the committed transactions in the order of
their end times are a serial execution that reproduces all they have read.
-/

import HybridDatabase.Stm.Serial

namespace HybridDatabase.Stm

open HybridDatabase.Base

universe u v w

variable {ι : Type u} {Obj : Type v} {Val : Type w}

/-- Without aborts of nested transactions every read counts. -/
theorem mem_reads_of_no_abort {events : List (Event Obj Val)} (no : .trAbort ∉ events) {k : ℕ}
    {x : Obj} {value : Val} (at_ : events[k]? = some (.read x value)) :
    k ∈ (own events).reads := by
  induction events using List.reverseRecOn with
  | nil => cases at_
  | append_singleton events event ih =>
      rw [List.mem_append, not_or] at no
      rw [own_concat]
      rcases Nat.lt_trichotomy k events.length with low | rfl | high
      · rw [List.getElem?_append_left low] at at_
        have older := ih no.1 at_
        cases event with
        | read => exact List.mem_append_left _ older
        | write | trBegin | trCommit => exact older
        | trAbort => exact absurd (List.mem_singleton_self _) no.2
      · rw [List.getElem?_concat_length] at at_
        rw [Option.some.inj at_, ← size_own]
        exact List.mem_append_right _ (List.mem_singleton_self _)
      · have inside := (List.getElem?_eq_some_iff.mp at_).1
        rw [List.length_append, List.length_singleton] at inside
        omega

namespace State

variable [DecidableEq Obj] [DecidableEq ι] {A : Addresses ι} {s s' t : State ι Obj Obj Val} {h : ι}
  {init : Obj → Val}

/-! ## Runs without nested transactions -/

/-- Transactions begin where none is running. -/
def Flat (s : State ι Obj Obj Val) (l : ι × Action Obj Obj Val) : Prop :=
  l.2 = .trBegin → (s.handles l.1).stage = .idle

/-- No transaction is nested, and none has been. -/
structure Unnested (s : State ι Obj Obj Val) : Prop where
  main : ∀ h, (s.handles h).transactions = []
  running : ∀ h, .trAbort ∉ (s.handles h).events
  committed : ∀ t ∈ s.committed, .trAbort ∉ t.events

theorem main_of_step {action : Action Obj Obj Val} (moved : step A id s (h, action) = some s')
    (flat : Flat s (h, action)) (main : (s.handles h).transactions = []) :
    (s'.handles h).transactions = [] := by
  have handle (H : Handle Obj Obj Val) : Function.update s.handles h H h = H :=
    Function.update_self ..
  cases action with
  | trBegin =>
      have idle : (s.handles h).stage = .idle := flat rfl
      simp only [step, State.trBegin, idle, Option.some.injEq] at moved
      simpa [← moved, setHandle, handle] using main
  | load x =>
      simp only [step, State.load] at moved
      split at moved
      next => simpa [← Option.some.inj moved, setHandle, handle] using main
      next => cases moved
  | trUncheckedRead x =>
      simp only [step, State.trUncheckedRead] at moved
      split at moved
      next => simpa [← Option.some.inj moved, setHandle, handle] using main
      next => cases moved
  | utilLock x =>
      simp only [step, State.utilLock] at moved
      split at moved
      next =>
        split at moved
        next => simpa [← Option.some.inj moved, setHandle, handle] using main
        next => simpa [← Option.some.inj moved] using main
      next => cases moved
  | write x value =>
      simp only [step, State.write] at moved
      split at moved
      next =>
        split at moved
        next => simpa [← Option.some.inj moved, setHandle, handle] using main
        next => cases moved
      next => cases moved
  | trCommit =>
      simp only [step, State.trCommit, main] at moved
      split at moved
      next nested => cases nested
      next =>
        split at moved
        next => simp [← Option.some.inj moved]
        next => simp [← Option.some.inj moved]
      next => cases moved
  | trAbort =>
      simp only [step, State.trAbort, main] at moved
      split at moved
      next nested => cases nested
      next => simpa [← Option.some.inj moved, setHandle, handle, Handle.abortMain] using main
      next => cases moved
  | trHardAbort =>
      simp only [step, State.trHardAbort] at moved
      split at moved
      next => simpa [← Option.some.inj moved, setHandle, handle, Handle.abortMain] using main
      next => cases moved
  | advance =>
      have busy : (s.handles h).stage ≠ .running := fun running => by
        simp only [step, State.advance, running] at moved
        cases moved
      have moved : s.advance A id h = some s' := moved
      cases move_of_advance moved with
      | skip => exact main
      | quiet quiet =>
          show (Function.update s.handles h _ h).transactions = []
          rw [handle]
          cases quiet with
          | nested running => exact absurd running busy
          | nestedCommit running => exact absurd running busy
          | nestedUndone =>
              show (s.handles h).transactions.tail = []
              rw [main]
              rfl
          | cleanup => rfl
          | trBegin | load | unchecked | checked | failed | nestedAbort | mainAbort | validated =>
              exact main
      | lock | write | commitReader | draw | push | commit | undo | undone | unlock =>
          show (Function.update s.handles h _ h).transactions = []
          rw [handle]
          exact main
/-- The events of the handle that moves. -/
theorem Unnested.events (unnested : s.Unnested) (valued : Valued init s) (move : Move A s h s') :
    .trAbort ∉ (s'.handles h).events := by
  have running := unnested.running h
  have more {event : Event Obj Val} (other : event ≠ .trAbort) :
      .trAbort ∉ (s.handles h).events ++ [event] := by
    rw [List.mem_append, not_or]
    exact ⟨running, fun last => other (List.mem_singleton.mp last).symm⟩
  cases move with
  | skip => exact running
  | quiet quiet =>
      show .trAbort ∉ (Function.update s.handles h _ h).events
      rw [Function.update_self]
      cases quiet with
      | nested | nestedCommit | checked => exact more nofun
      | trBegin | load | unchecked | failed | nestedAbort | mainAbort | validated => exact running
      | cleanup => exact List.not_mem_nil
      | nestedUndone rolling back =>
          have logged := (valued.stands h).logged (by rw [rolling]; rfl)
          obtain ⟨-, -, nested⟩ := logged.rolling _ _ rolling
          obtain ⟨mark, marks, split, -⟩ := nested rfl
          have levels := logged.levels
          rw [unnested.main h, split] at levels
          cases levels
  | write =>
      show .trAbort ∉ (Function.update s.handles h _ h).events
      rw [Function.update_self]
      exact more nofun
  | lock | commitReader | draw | push | commit | undo | undone | unlock =>
      show .trAbort ∉ (Function.update s.handles h _ h).events
      rw [Function.update_self]
      exact running

theorem Unnested.step {action : Action Obj Obj Val} (unnested : s.Unnested) (valued : Valued init s)
    (flat : Flat s (h, action)) (moved : State.step A id s (h, action) = some s') :
    s'.Unnested where
  main h' := by
    by_cases here : h' = h
    · rw [here]
      exact main_of_step moved flat (unnested.main h)
    · rw [(move_of_step moved).other here]
      exact unnested.main h'
  running h' := by
    by_cases here : h' = h
    · rw [here]
      exact unnested.events valued (move_of_step moved)
    · rw [(move_of_step moved).other here]
      exact unnested.running h'
  committed t inside := by
    rcases (move_of_step moved).committed with same | ⟨endTime, -, more⟩
    · exact unnested.committed t (same ▸ inside)
    · rw [more] at inside
      rcases List.mem_append.mp inside with older | last
      · exact unnested.committed t older
      · rw [List.mem_singleton.mp last]
        exact unnested.running h

theorem Unnested.of_reaches (initial : Initial s) (reaches : Reaches (State.step A id) Flat s s') :
    s'.Unnested ∧ Sound A s.memory s' := by
  induction reaches with
  | start =>
      refine ⟨⟨fun h => ?_, fun h => ?_, fun t inside => ?_⟩, initial.sound⟩
      · rw [initial.handles h]
        rfl
      · rw [initial.handles h]
        exact List.not_mem_nil
      · rw [initial.committed] at inside
        cases inside
  | step before flat moved ih =>
      obtain ⟨unnested, sound⟩ := ih
      exact ⟨unnested.step sound.valued flat moved, sound.move (move_of_step moved)⟩

/-! ## Serial executions -/

/-- Flat transactions are serializable, in any interleaving of their steps. -/
theorem serializable (initial : Initial s) (reaches : Reaches (step A id) Flat s s') :
    Serializable (fun _ _ => True) s.memory s' := by
  obtain ⟨unnested, sound⟩ := Unnested.of_reaches initial reaches
  have counting := sound.serial
  refine ⟨counting.perm, counting.byEndTime, counting.ended, counting.running,
    fun i t at_ k _ x value event => ?_, counting.free, counting.final⟩
  have inside : t ∈ s'.committed := (perm_order s').mem_iff.mp (List.mem_of_getElem? at_)
  exact counting.reproduced i t at_ k
    (mem_reads_of_no_abort (unnested.committed t inside) event) x value event

/-- Two handles. -/
def twoHandles : Addresses Bool where
  address h := if h then 4 else 2
  aligned h := by cases h <;> rfl
  injective h h' same := by
    cases h <;> cases h' <;> first | rfl | cases same

/-- Cells that have not been written to. -/
def fresh (ι : Type u) (Lk : Type v) (Cell : Type w) : State ι Lk Cell ℕ :=
  ⟨1, fun _ => 0, fun _ => 1, fun _ => .cleanup, [], [], [], []⟩

theorem fresh_initial (ι : Type u) (Lk : Type v) (Cell : Type w) : Initial (fresh ι Lk Cell) :=
  ⟨rfl, fun _ => ⟨rfl, Nat.le_refl _⟩, fun _ => rfl, rfl, rfl, rfl, rfl⟩

instance [DecidableEq Val] (s : State ι Obj Obj Val) (l : ι × Action Obj Obj Val) :
    Decidable (Flat s l) :=
  inferInstanceAs (Decidable (_ → _))

/-- The first transaction overwrites what the other one reads while it is rolled back. -/
def overlapping : List (Bool × Action Bool Bool ℕ) :=
  [(true, .trBegin), (false, .trBegin), (true, .utilLock true), (true, .write true 7),
    (false, .load true), (true, .trAbort), (true, .advance), (false, .advance),
    (true, .advance), (true, .advance), (true, .advance), (false, .trAbort), (false, .advance),
    (false, .advance), (true, .trBegin), (true, .load false), (true, .advance),
    (true, .utilLock true), (true, .write true 8), (true, .trCommit), (true, .advance),
    (true, .advance), (true, .advance), (true, .advance), (true, .advance)]

theorem serializable_overlapping : ∃ t,
    runSteps (step twoHandles id) (fresh Bool Bool Bool) overlapping = some t ∧
      t.committed.length = 1 ∧ t.aborted.length = 2 ∧
      Serializable (fun _ _ => True) (fresh Bool Bool Bool).memory t := by
  have reaches := reaches_of_runChecked (.start (s := fresh Bool Bool Bool))
    (show runSteps (fun s l => if Flat s l then step twoHandles id s l else none) _ overlapping =
      some _ from rfl)
  exact ⟨_, rfl, rfl, rfl, serializable (fresh_initial Bool Bool Bool) reaches⟩

end State

end HybridDatabase.Stm
