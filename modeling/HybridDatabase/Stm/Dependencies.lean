/-
# Dependencies and the queue

What a transaction depends on stands before it in the queue.  So the transactions of a prefix of
the queue, executed in its order, are a serial execution that reproduces all of their reads that
count, and it leaves the same as in the order of end times.
-/

import HybridDatabase.Stm.Queue

namespace HybridDatabase.Stm

open HybridDatabase.Base

universe u v w

variable {ι : Type u} {Obj : Type v} {Val : Type w}

namespace State

/-! ## The invariant -/

/-- Who still may write to an object, or has done so, after what a transaction has validated,
stands behind it. -/
structure Ahead (s : State ι Obj Obj Val) (startTime endTime : ℕ) (x : Obj) : Prop where
  pushed : endTime ∈ s.queue
  committed : ∀ t ∈ s.committed, t.Writes x → startTime < t.endTime → t.endTime ≠ endTime →
    Before s.queue endTime t.endTime
  awaits : ∀ e, s.Awaits x e → startTime < e → e ≠ endTime → Before s.queue endTime e

/-- The invariant of dependencies.  Those that overwrite, those that read, and those that
overwrite what has been read stand behind the others. -/
structure Dependent (s : State ι Obj Obj Val) : Prop where
  overwriting : ∀ x e, s.Awaits x e → ∀ t ∈ s.committed, t.Writes x → Before s.queue t.endTime e
  overwritten : ∀ x, ∀ t ∈ s.committed, ∀ t' ∈ s.committed, t.Writes x → t'.Writes x →
    t.endTime < t'.endTime → Before s.queue t.endTime t'.endTime
  reading : ∀ h e x value, s.Pending h e → .read x value ∈ (s.handles h).events →
    ∀ t ∈ s.committed, t.Writes x → t.endTime ≤ (s.handles h).startTime →
      Before s.queue t.endTime e
  read : ∀ t ∈ s.committed, ∀ t' ∈ s.committed, ∀ x value, t.Writes x →
    .read x value ∈ t'.events → t.endTime ≤ t'.startTime → Before s.queue t.endTime t'.endTime
  validated : Validated s.Ahead s

variable {A : Addresses ι} {s s' : State ι Obj Obj Val} {h h' : ι} {x : Obj} {e e' : ℕ}
  {init : Obj → Val}

theorem Initial.dependent (initial : Initial s) : s.Dependent where
  overwriting x e awaits t inside := by
    rw [initial.committed] at inside
    cases inside
  overwritten x t inside := by
    rw [initial.committed] at inside
    cases inside
  reading h e x value pending := by
    rw [Pending, initial.handles h] at pending
    cases pending
  read t inside := by
    rw [initial.committed] at inside
    cases inside
  validated := initial.validated

variable [DecidableEq Obj]

/-- The check of the lock succeeds when the entry is in the queue. -/
theorem Ahead.of_lCheck (locked : Locked A s) (valued : Valued init s)
    (pending : s.Pending h e) (pushed : e ∈ s.queue) (ok : s.lCheck A h x = true) :
    s.Ahead (s.handles h).startTime e x := by
  have not := Stage.not_unlocks_of_pending pending
  refine ⟨pushed, fun t inside writes late _ => ?_, fun e' awaits _ other => ?_⟩
  · exact absurd (valued.committed_of_lCheck locked not ok inside writes) (Nat.not_le_of_lt late)
  · obtain ⟨h', owns, pending'⟩ := awaits
    obtain rfl := locked.owner_of_lCheck ok owns
    exact absurd (Option.some.inj (pending'.symm.trans pending)) other

variable [DecidableEq ι]

theorem Ahead.move {startTime endTime : ℕ} (ahead : s.Ahead startTime endTime x)
    (locked : Locked A s) (valued : Valued init s) (queued : s.Queued) (move : Move A s h s') :
    s'.Ahead startTime endTime x where
  pushed := move.mem_queue ahead.pushed
  committed t inside writes late other := by
    rcases valued.awaits move inside writes with older | awaits
    · exact move.before (ahead.committed t older writes late other)
    · exact move.before (ahead.awaits _ awaits late other)
  awaits e awaits late other := by
    rcases awaits.move locked move with before | drawn
    · exact move.before (ahead.awaits e before late other)
    · exact queued.before move ahead.pushed drawn

/-! ## Moves -/

/-- A transaction that has been committed by now is in the queue already. -/
theorem Queued.mem_of_committed (queued : s.Queued) (move : Move A s h s') {t : Txn Obj Val}
    (inside : t ∈ s'.committed) : t.endTime ∈ s.queue := by
  rcases move.committed with same | ⟨endTime, validated, more⟩
  · exact queued.committed t (same ▸ inside)
  · rw [more] at inside
    rcases List.mem_append.mp inside with older | last
    · exact queued.committed t older
    · rw [List.mem_singleton.mp last]
      exact queued.validating h endTime [] validated

/-- A handle does and reads nothing more after its end time has been drawn. -/
theorem Move.same_of_pending (move : Move A s h s') (before : s.Pending h' e)
    (pending : s'.Pending h' e) : (s'.handles h').events = (s.handles h').events ∧
      (s'.handles h').startTime = (s.handles h').startTime := by
  by_cases here : h' = h
  · subst here
    cases move with
    | skip => exact ⟨rfl, rfl⟩
    | quiet quiet =>
        have pending : (Function.update s.handles h' _ h').stage.pending = some e := pending
        show (Function.update s.handles h' _ h').events = _ ∧
          (Function.update s.handles h' _ h').startTime = _
        rw [Function.update_self] at pending ⊢
        cases quiet with
        | nested running | nestedCommit running | unchecked _ running =>
            rw [Pending, running] at before
            cases before
        | validated => exact ⟨rfl, rfl⟩
        | trBegin | load | checked | failed | nestedAbort | mainAbort | nestedUndone | cleanup =>
            cases pending
    | write _ _ running =>
        rw [Pending, running] at before
        cases before
    | lock | commitReader | draw | push | commit | undo | undone | unlock =>
        show (Function.update s.handles h' _ h').events = _ ∧
          (Function.update s.handles h' _ h').startTime = _
        rw [Function.update_self]
        exact ⟨rfl, rfl⟩
  · rw [move.other here]
    exact ⟨rfl, rfl⟩

/-- A transaction that ends by the time another one began, which has read what it writes to, had
been committed before. -/
theorem Seen.committed {startTime : ℕ} {events : List (Event Obj Val)}
    (seen : s.Seen init startTime events) (valued : Valued init s) (move : Move A s h s')
    {t : Txn Obj Val} {value : Val} (read : .read x value ∈ events) (inside : t ∈ s'.committed)
    (writes : t.Writes x) (early : t.endTime ≤ startTime) : t ∈ s.committed := by
  rcases valued.mem_committed move inside writes with older | ends
  · exact older
  · exact absurd ((seen.stable x value read).later _ ends) (by omega)

namespace Dependent

theorem overwriting_move (dependent : s.Dependent) (sound : Sound A init s) (queued : s.Queued)
    (move : Move A s h s') (awaits : s'.Awaits x e) {t : Txn Obj Val} (inside : t ∈ s'.committed)
    (writes : t.Writes x) : Before s'.queue t.endTime e := by
  obtain ⟨h', owns, pending⟩ := awaits
  rcases move.pending pending with before | drawn
  · rcases move.owns sound.locked owns with owned | running
    · rcases move.committed with same | ⟨endTime, validated, more⟩
      · exact move.before (dependent.overwriting x e ⟨h', owned, before⟩ t (same ▸ inside) writes)
      · rw [more] at inside
        rcases List.mem_append.mp inside with older | last
        · exact move.before (dependent.overwriting x e ⟨h', owned, before⟩ t older writes)
        · rw [List.mem_singleton.mp last] at writes
          obtain rfl := sound.locked.unique owned (sound.valued.owns_of_writes validated writes)
          exact absurd pending (move.not_pending more)
    · rw [Pending, running] at pending
      cases pending
  · exact queued.before move (queued.mem_of_committed move inside) drawn

theorem overwritten_move (dependent : s.Dependent) (sound : Sound A init s)
    (move : Move A s h s') {t t' : Txn Obj Val} (inside : t ∈ s'.committed)
    (inside' : t' ∈ s'.committed) (writes : t.Writes x) (writes' : t'.Writes x)
    (later : t.endTime < t'.endTime) : Before s'.queue t.endTime t'.endTime := by
  apply move.before
  rcases sound.valued.awaits move inside writes with older | awaits
  · rcases sound.valued.awaits move inside' writes' with older' | awaits'
    · exact dependent.overwritten x t older t' older' writes writes' later
    · exact dependent.overwriting x _ awaits' t older writes
  · obtain ⟨h', owns, pending⟩ := awaits
    rcases sound.valued.awaits move inside' writes' with older' | ⟨h'', owns', pending'⟩
    · have bound := (sound.valued.stands h').bound x owns t' older' writes'
      rw [Handle.bound_of_not_unlocks (Stage.not_unlocks_of_pending pending)] at bound
      have started := ((sound.locked.timed h').ended _ (Stage.ended_of_pending pending)).1
      omega
    · obtain rfl := sound.locked.unique owns owns'
      have same := Option.some.inj (pending.symm.trans pending')
      omega

theorem reading_move (dependent : s.Dependent) (sound : Sound A init s) (queued : s.Queued)
    (move : Move A s h s') {value : Val} (pending : s'.Pending h' e)
    (read : .read x value ∈ (s'.handles h').events) {t : Txn Obj Val} (inside : t ∈ s'.committed)
    (writes : t.Writes x) (early : t.endTime ≤ (s'.handles h').startTime) :
    Before s'.queue t.endTime e := by
  rcases move.pending pending with before | drawn
  · obtain ⟨events, startTime⟩ := move.same_of_pending before pending
    rw [events] at read
    rw [startTime] at early
    have older := (sound.read.running h').committed sound.valued move read inside writes early
    exact move.before (dependent.reading h' e x value before read t older writes early)
  · exact queued.before move (queued.mem_of_committed move inside) drawn

theorem read_move (dependent : s.Dependent) (sound : Sound A init s) (move : Move A s h s')
    {t t' : Txn Obj Val} {value : Val} (inside : t ∈ s'.committed) (inside' : t' ∈ s'.committed)
    (writes : t.Writes x) (read : .read x value ∈ t'.events)
    (early : t.endTime ≤ t'.startTime) : Before s'.queue t.endTime t'.endTime := by
  apply move.before
  have ofOlder (older' : t' ∈ s.committed) : Before s.queue t.endTime t'.endTime := by
    have seen := sound.read.ended t' (List.mem_append_left _ (List.mem_append_left _ older'))
    exact dependent.read t (seen.committed sound.valued move read inside writes early) t' older' x
      value writes read early
  rcases move.committed with same | ⟨endTime, validated, more⟩
  · exact ofOlder (same ▸ inside')
  · rw [more] at inside'
    rcases List.mem_append.mp inside' with older' | last
    · exact ofOlder older'
    · rw [List.mem_singleton.mp last] at read early ⊢
      have older := (sound.read.running h).committed sound.valued move read inside writes early
      exact dependent.reading h endTime x value (by rw [Pending, validated]; rfl) read t older
        writes early

theorem move (dependent : s.Dependent) (sound : Sound A init s) (queued : s.Queued)
    (move : Move A s h s') : s'.Dependent where
  overwriting _ _ awaits _ := dependent.overwriting_move sound queued move awaits
  overwritten _ _ inside _ := dependent.overwritten_move sound move inside
  reading _ _ _ _ pending read _ := dependent.reading_move sound queued move pending read
  read _ inside _ inside' _ _ := dependent.read_move sound move inside inside'
  validated := dependent.validated.move sound.covers
    (fun e x rest validating ok => .of_lCheck sound.locked sound.valued
      (by rw [Pending, validating]; rfl) (queued.validating h e _ validating) ok)
    (fun _ _ _ ahead => ahead.move sound.locked sound.valued queued move) move

end Dependent

end State

end HybridDatabase.Stm
