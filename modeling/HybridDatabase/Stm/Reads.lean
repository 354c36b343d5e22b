/-
# What reads return

A read that succeeds returns what stands in the object at the begin of the transaction, with
the writes of the transaction itself; and what stood there at that time does not change any
more, because every transaction that still has the lock, or acquires it, ends later.
-/

import HybridDatabase.Stm.Values

namespace HybridDatabase.Stm

open HybridDatabase.Base

universe u v w

variable {ι : Type u} {Obj : Type v} {Val : Type w}

/-! ## Snapshots -/

section Snapshot

variable [DecidableEq Obj] {txns txns' : List (Txn Obj Val)} {x : Obj}

/-- What the transactions that have ended by some time have left. -/
def snapshot (init : Obj → Val) (txns : List (Txn Obj Val)) (time : ℕ) : Obj → Val :=
  serial init (txns.filter fun t => t.endTime ≤ time)

theorem writers_filter (p : Txn Obj Val → Bool) :
    writers x (txns.filter p) = (writers x txns).filter p := by
  rw [writers, writers, List.filter_filter, List.filter_filter]
  exact List.filter_congr fun t _ => Bool.and_comm ..

/-- All transactions that write to the object have ended. -/
theorem snapshot_eq_serial {init : Obj → Val} {time : ℕ}
    (ended : ∀ t ∈ txns, t.Writes x → t.endTime ≤ time) :
    snapshot init txns time x = serial init txns x := by
  apply serial_eq_of_writers
  rw [writers_filter]
  refine List.filter_eq_self.mpr fun t inside => ?_
  obtain ⟨inside, writes⟩ := mem_writers.mp inside
  exact decide_eq_true (ended t inside writes)

/-- Transactions that end later do not matter. -/
theorem snapshot_concat {init : Obj → Val} {time : ℕ} {t : Txn Obj Val}
    (later : t.Writes x → time < t.endTime) :
    snapshot init (txns ++ [t]) time x = snapshot init txns time x := by
  rw [snapshot, List.filter_append]
  by_cases early : t.endTime ≤ time
  · have last : [t].filter (fun t => t.endTime ≤ time) = [t] :=
      List.filter_cons_of_pos (decide_eq_true early)
    rw [last, serial_concat]
    exact run_of_not_writes fun writes => absurd (later writes) (Nat.not_lt_of_le early)
  · have last : [t].filter (fun t => t.endTime ≤ time) = [] :=
      List.filter_cons_of_neg (by simpa using early)
    rw [last, List.append_nil, snapshot]

end Snapshot

namespace State

variable {A : Addresses ι} {s s' : State ι Obj Obj Val} {h h' : ι} {x : Obj} {value : Val}
  {startTime : ℕ} {events : List (Event Obj Val)}

/-! ## The invariant -/

/-- No transaction that writes to the object can end by that time any more. -/
structure Stable (s : State ι Obj Obj Val) (startTime : ℕ) (x : Obj) : Prop where
  started : startTime ≤ s.time
  later : ∀ e, s.Ends x e → startTime < e

/-- The check of the lock would succeed now, or after the owner has freed it. -/
def Readable (s : State ι Obj Obj Val) (h : ι) (x : Obj) : Prop :=
  (s.locks x % 2 = 1 ∧ s.locks x ≤ (s.handles h).startTime) ∨ s.Owns h x ∨
    ∃ e ≤ (s.handles h).startTime, s.Ends x e

section Invariant

variable [DecidableEq Obj] (init : Obj → Val)

/-- The reads of a transaction that has begun at that time. -/
structure Seen (s : State ι Obj Obj Val) (startTime : ℕ) (events : List (Event Obj Val)) :
    Prop where
  stable : ∀ x value, Event.read x value ∈ events → s.Stable startTime x
  value : ∀ k x value, events[k]? = some (.read x value) →
    value = apply (snapshot init s.committed startTime) (own (events.take k)).writes x

/-- The invariant of reads. -/
structure Read (s : State ι Obj Obj Val) : Prop where
  loaded : ∀ h x value, (s.handles h).stage = .reading x value → s.Readable h x →
    value = s.memory x
  running : ∀ h, s.Seen init (s.handles h).startTime (s.handles h).events
  ended : ∀ t ∈ s.committed ++ s.readers ++ s.aborted, s.Seen init t.startTime t.events

end Invariant

/-! ## Stability -/

variable [DecidableEq Obj] {init : Obj → Val}

/-- Another event. -/
theorem Seen.concat (seen : s.Seen init startTime events) (event : Event Obj Val)
    (read : ∀ x value, event = .read x value → s.Stable startTime x ∧
      value = apply (snapshot init s.committed startTime) (own events).writes x) :
    s.Seen init startTime (events ++ [event]) where
  stable x value inside := by
    rcases List.mem_append.mp inside with older | last
    · exact seen.stable x value older
    · exact (read x value (List.mem_singleton.mp last).symm).1
  value k x value at_ := by
    rcases Nat.lt_trichotomy k events.length with low | rfl | high
    · rw [List.getElem?_append_left low] at at_
      rw [List.take_append_of_le_length (Nat.le_of_lt low)]
      exact seen.value k x value at_
    · rw [List.getElem?_concat_length] at at_
      rw [List.take_left]
      exact (read x value (Option.some.inj at_)).2
    · have inside := (List.getElem?_eq_some_iff.mp at_).1
      rw [List.length_append, List.length_singleton] at inside
      omega

/-! ## Reads that succeed -/

/-- The value that a read returns, when the check of the lock succeeds. -/
theorem Read.checked (read : s.Read init) (locked : Locked A s) (valued : Valued init s)
    (reading : (s.handles h).stage = .reading x value) (ok : s.lCheck A h x = true) :
    s.Stable (s.handles h).startTime x ∧
      value = apply (snapshot init s.committed (s.handles h).startTime)
        (s.handles h).writes x := by
  have started := (locked.timed h).started
  have not : (s.handles h).stage.unlocks = false := by rw [reading]; rfl
  have stands := valued.stands h
  have logged := stands.logged not
  have snapshot : snapshot init s.committed (s.handles h).startTime x = serial init s.committed x :=
    snapshot_eq_serial fun _ => valued.committed_of_lCheck locked not ok
  refine ⟨⟨started, fun e ends => ?_⟩, ?_⟩
  · obtain ⟨h', owns, ended⟩ := ends
    rw [locked.owner_of_lCheck ok owns, Ended, reading] at ended
    cases ended
  · rcases locked.lCheck_iff.mp ok with ⟨free, old⟩ | owns
    · have untouched : x ∉ (s.handles h).writes.map Prod.fst := fun written =>
        absurd (locked.not_free (logged.owns_of_writes (by rw [reading]; rfl) written)) (by omega)
      rw [read.loaded h x value reading (.inl ⟨free, old⟩), apply_of_notMem untouched,
        valued.free x free, base]
      exact snapshot.symm
    · have made : (s.handles h).made = (s.handles h).writes := by
        rw [Handle.made, logged.whole (by rw [reading]; rfl), List.take_length]
      rw [read.loaded h x value reading (.inr (.inl owns)), stands.made x owns not, made]
      exact apply_congr snapshot.symm

theorem Read.quiet (read : s.Read init) (locked : Locked A s) (valued : Valued init s)
    {H : Handle Obj Obj Val} (quiet : Quiet A s h H) : s.Seen init H.startTime H.events := by
  have seen := read.running h
  cases quiet with
  | trBegin idle =>
      rw [show (s.handles h).events = [] from
        congrArg Handle.events ((locked.timed h).idle idle)]
      exact ⟨fun _ _ inside => (nomatch inside), fun _ _ _ at_ => (nomatch at_)⟩
  | nested | nestedCommit | nestedUndone => exact seen.concat _ fun _ _ same => (nomatch same)
  | load | unchecked | failed | nestedAbort | mainAbort | validated => exact seen
  | checked reading ok =>
      refine seen.concat _ fun x value same => ?_
      obtain ⟨rfl, rfl⟩ := Event.read.inj same
      exact read.checked locked valued reading ok
  | cleanup => exact ⟨fun _ _ inside => (nomatch inside), fun _ _ _ at_ => (nomatch at_)⟩

theorem Initial.read (initial : Initial s) : s.Read s.memory where
  loaded h x value reading := by
    rw [initial.handles h] at reading
    cases reading
  running h := by
    rw [initial.handles h]
    exact ⟨fun _ _ inside => (nomatch inside), fun _ _ _ at_ => (nomatch at_)⟩
  ended t inside := by
    rw [initial.committed, initial.readers, initial.aborted] at inside
    cases inside

variable [DecidableEq ι]

theorem Stable.move (stable : s.Stable startTime x) (locked : Locked A s) (move : Move A s h s') :
    s'.Stable startTime x where
  started := Nat.le_trans stable.started move.time_mono
  later _ ends := (ends.move locked move).elim (stable.later _)
    (Nat.lt_of_le_of_lt stable.started)

theorem Stable.snapshot (stable : s.Stable startTime x) (valued : Valued init s)
    (move : Move A s h s') :
    snapshot init s'.committed startTime x = snapshot init s.committed startTime x := by
  rcases move.committed with same | ⟨endTime, validated, more⟩
  · rw [same]
  · rw [more]
    exact snapshot_concat fun writes => stable.later _ (valued.ends_of_writes validated writes)

theorem Seen.move (seen : s.Seen init startTime events) (locked : Locked A s)
    (valued : Valued init s) (move : Move A s h s') : s'.Seen init startTime events where
  stable x value inside := (seen.stable x value inside).move locked move
  value k x value at_ := by
    have stable := seen.stable x value (List.mem_of_getElem? at_)
    rw [seen.value k x value at_]
    exact apply_congr (stable.snapshot valued move).symm

/-! ## Moves -/

/-- Where a check would succeed after the move of another handle, it would have succeeded before,
and the value is the same. -/
theorem Readable.move (readable : s'.Readable h' x) (locked : Locked A s)
    (valued : Valued init s) (move : Move A s h s') (other : h' ≠ h) :
    s.Readable h' x ∧ s'.memory x = s.memory x := by
  have started := (locked.timed h').started
  rw [Readable, Owns, move.other other] at readable
  have memory := valued.memory locked move x
  rcases readable with ⟨free, old⟩ | owns | ⟨e, old, ends⟩
  · have same : s'.memory x = s.memory x := by
      apply memory.resolve_right
      rintro ⟨owns, -, same⟩
      rw [same] at free
      exact absurd (locked.not_free owns) (by omega)
    refine ⟨?_, same⟩
    rcases move.locks locked free with kept | ends
    · exact .inl (kept ▸ ⟨free, old⟩)
    · exact .inr (.inr ⟨_, old, ends⟩)
  · refine ⟨.inr (.inl owns), memory.resolve_right ?_⟩
    rintro ⟨owns', -⟩
    exact other (locked.unique owns owns')
  · have ends := (ends.move locked move).resolve_right (by omega)
    refine ⟨.inr (.inr ⟨e, old, ends⟩), memory.resolve_right ?_⟩
    rintro ⟨owns, running, -⟩
    obtain ⟨h'', owns', ended⟩ := ends
    exact running e (locked.unique owns' owns ▸ ended)

/-- A value that a handle has just loaded stands in memory. -/
theorem Move.loaded (move : Move A s h s') (reading : (s'.handles h).stage = .reading x value) :
    s' = s ∨ value = s'.memory x := by
  cases move with
  | skip => exact .inl rfl
  | quiet quiet =>
      have reading : (Function.update s.handles h _ h).stage = .reading x value := reading
      rw [Function.update_self] at reading
      cases quiet with
      | load y running =>
          obtain ⟨rfl, rfl⟩ := Stage.reading.inj reading
          exact .inr rfl
      | nested running | nestedCommit running | unchecked _ running =>
          cases running.symm.trans reading
      | trBegin | checked | failed | nestedAbort | mainAbort | validated | nestedUndone
      | cleanup => cases reading
  | lock _ stage | write _ _ stage | undo stage | unlock stage =>
      have reading : (Function.update s.handles h _ h).stage = .reading x value := reading
      rw [Function.update_self] at reading
      cases stage.symm.trans reading
  | commitReader | draw | push | commit | undone =>
      have reading : (Function.update s.handles h _ h).stage = .reading x value := reading
      rw [Function.update_self] at reading
      cases reading

/-- The reads of the handle that moves. -/
theorem Read.mover (read : s.Read init) (locked : Locked A s) (valued : Valued init s)
    (move : Move A s h s') : s.Seen init (s'.handles h).startTime (s'.handles h).events := by
  have seen := read.running h
  cases move with
  | skip => exact seen
  | quiet quiet =>
      show s.Seen init (Function.update s.handles h _ h).startTime
        (Function.update s.handles h _ h).events
      rw [Function.update_self]
      exact read.quiet locked valued quiet
  | write x value =>
      show s.Seen init (Function.update s.handles h _ h).startTime
        (Function.update s.handles h _ h).events
      rw [Function.update_self]
      exact seen.concat _ fun _ _ same => (nomatch same)
  | lock | commitReader | draw | push | commit | undo | undone | unlock =>
      show s.Seen init (Function.update s.handles h _ h).startTime
        (Function.update s.handles h _ h).events
      rw [Function.update_self]
      exact seen

/-- The transactions that have ended are those from before, or that of the handle. -/
theorem Move.recorded (move : Move A s h s') {t : Txn Obj Val}
    (inside : t ∈ s'.committed ++ s'.readers ++ s'.aborted) :
    t ∈ s.committed ++ s.readers ++ s.aborted ∨ ∃ e, t = (s.handles h).txn e := by
  cases move with
  | skip | quiet | lock | write | draw | push | undo | unlock => exact .inl inside
  | commitReader | commit | undone =>
      simp only [List.mem_append, List.mem_singleton] at inside ⊢
      tauto

theorem Read.move (read : s.Read init) (locked : Locked A s) (valued : Valued init s)
    (move : Move A s h s') : s'.Read init where
  loaded h' x value reading readable := by
    by_cases here : h' = h
    · subst here
      rcases move.loaded reading with rfl | loaded
      · exact read.loaded h' x value reading readable
      · exact loaded
    · rw [move.other here] at reading
      obtain ⟨readable, same⟩ := readable.move locked valued move here
      exact (read.loaded h' x value reading readable).trans same.symm
  running h' := by
    by_cases here : h' = h
    · rw [here]
      exact (read.mover locked valued move).move locked valued move
    · rw [move.other here]
      exact (read.running h').move locked valued move
  ended t inside := by
    refine Seen.move ?_ locked valued move
    rcases move.recorded inside with before | ⟨e, rfl⟩
    · exact read.ended t before
    · exact read.running h

end State

end HybridDatabase.Stm
