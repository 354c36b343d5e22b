/-
# The order of the output queue

End times are drawn before the entries are pushed, so that the queue may have them in another
order.  Still an entry stands behind those that its transaction depends on: when its end time
is drawn, the transactions it has read from, or whose locks it has acquired, are in the queue;
and a transaction that overwrites what another one has validated draws its end time after that.
-/

import HybridDatabase.Stm.Nested

namespace HybridDatabase.Stm

open HybridDatabase.Base

universe u v w

variable {ι : Type u} {Obj : Type v} {Val : Type w}

/-! ## Before -/

/-- The first time stands in the queue, and the second one not in front of it. -/
def Before (queue : List ℕ) (e e' : ℕ) : Prop :=
  ∃ front back, queue = front ++ back ∧ e ∈ front ∧ e' ∉ front

namespace Before

variable {queue front back : List ℕ} {e e' : ℕ}

theorem append (before : Before queue e e') (more : List ℕ) : Before (queue ++ more) e e' := by
  obtain ⟨front, back, rfl, inside, outside⟩ := before
  exact ⟨front, back ++ more, List.append_assoc .., inside, outside⟩

theorem of_notMem (inside : e ∈ queue) (outside : e' ∉ queue) (more : List ℕ) :
    Before (queue ++ more) e e' :=
  ⟨queue, more, rfl, inside, outside⟩

/-- What stands before an entry is in front of each of its places. -/
theorem mem_front (before : Before queue e e') (split : queue = front ++ e' :: back) :
    e ∈ front := by
  obtain ⟨front', back', rfl, inside, outside⟩ := before
  rcases List.append_eq_append_iff.mp split with ⟨middle, rfl, -⟩ | ⟨middle, rfl, rest⟩
  · exact List.mem_append_left _ inside
  · cases middle with
    | nil => rwa [List.append_nil] at inside
    | cons first middle =>
        obtain ⟨rfl, -⟩ := List.cons.inj rest
        exact absurd (List.mem_append_right _ List.mem_cons_self) outside

/-- What stands in front of an entry is not behind it. -/
theorem not_of_mem_front (split : queue = front ++ e :: back) (once : e ∉ front)
    (inside : e' ∈ front) : ¬ Before queue e e' := by
  intro before
  obtain ⟨first, rest, rfl⟩ := List.append_of_mem inside
  rw [List.append_assoc] at split
  exact once (List.mem_append_left _ (before.mem_front split))

/-- The entries of a queue, each of which stands there once, are not behind later ones. -/
theorem pairwise (split : queue = front ++ back) (nodup : queue.Nodup) :
    front.Pairwise fun e e' => ¬ Before queue e' e := by
  induction front using List.reverseRecOn generalizing back with
  | nil => exact List.Pairwise.nil
  | append_singleton front last ih =>
      rw [List.append_assoc] at split
      refine List.pairwise_append.mpr ⟨ih split, List.pairwise_singleton _ _, ?_⟩
      intro e inside e' here
      rw [List.mem_singleton.mp here]
      refine not_of_mem_front split (fun twice => ?_) inside
      rw [split] at nodup
      exact (List.nodup_append.mp nodup).2.2 last twice last List.mem_cons_self rfl

end Before

/-- A transaction depends on another one: it has overwritten what the other one has written or
read, or has read what the other one has written. -/
inductive Depends (t t' : Txn Obj Val) : Prop
  | overwrites (x : Obj) (first : x ∈ (own t.events).writes.map Prod.fst)
      (second : x ∈ (own t'.events).writes.map Prod.fst) (later : t.endTime < t'.endTime)
  | reads (x : Obj) (value : Val) (writes : x ∈ (own t.events).writes.map Prod.fst)
      (read : .read x value ∈ t'.events) (seen : t.endTime ≤ t'.startTime)
  | overwritesRead (x : Obj) (value : Val) (k : ℕ) (counts : k ∈ (own t.events).reads)
      (read : t.events[k]? = some (.read x value))
      (writes : x ∈ (own t'.events).writes.map Prod.fst) (unseen : t.startTime < t'.endTime)

namespace State

variable {A : Addresses ι} {s s' : State ι Obj Obj Val} {h h' : ι} {x : Obj} {e e' : ℕ}

/-! ## What is in the queue -/

/-- A handle that has the lock of the object is going to commit with that end time. -/
def Awaits (s : State ι Obj Obj Val) (x : Obj) (endTime : ℕ) : Prop :=
  ∃ h, s.Owns h x ∧ s.Pending h endTime

/-- The invariant of the queue. -/
structure Queued (s : State ι Obj Obj Val) : Prop where
  nodup : s.queue.Nodup
  late : ∀ e ∈ s.queue, e ≤ s.time
  pushing : ∀ h e, (s.handles h).stage = .pushing e → e ∉ s.queue
  validating : ∀ h e rest, (s.handles h).stage = .validating e rest → e ∈ s.queue
  committed : ∀ t ∈ s.committed, t.endTime ∈ s.queue

theorem Initial.queued (initial : Initial s) : s.Queued where
  nodup := by
    rw [initial.queue]
    exact List.nodup_nil
  late e inside := by
    rw [initial.queue] at inside
    cases inside
  pushing h e pushing := by
    rw [initial.handles h] at pushing
    cases pushing
  validating h e rest validating := by
    rw [initial.handles h] at validating
    cases validating
  committed t inside := by
    rw [initial.committed] at inside
    cases inside

variable [DecidableEq ι] [DecidableEq Obj] {init : Obj → Val}

/-- The queue only grows. -/
theorem Move.queue (move : Move A s h s') : s'.queue = s.queue ∨
    ∃ e, (s.handles h).stage = .pushing e ∧ s'.queue = s.queue ++ [e] := by
  cases move with
  | skip | quiet | lock | write | commitReader | draw | commit | undo | undone | unlock =>
      exact .inl rfl
  | push pushing => exact .inr ⟨_, pushing, rfl⟩

theorem Move.queue_append (move : Move A s h s') : ∃ more, s'.queue = s.queue ++ more := by
  rcases move.queue with same | ⟨e, -, more⟩
  · exact ⟨[], same.trans (List.append_nil _).symm⟩
  · exact ⟨[e], more⟩

theorem Move.mem_queue (move : Move A s h s') (inside : e ∈ s.queue) : e ∈ s'.queue := by
  obtain ⟨more, grown⟩ := move.queue_append
  exact grown ▸ List.mem_append_left _ inside

theorem Move.before (move : Move A s h s') (before : Before s.queue e e') :
    Before s'.queue e e' := by
  obtain ⟨more, grown⟩ := move.queue_append
  exact grown ▸ before.append more

/-- What is in the queue stands before what is drawn later. -/
theorem Queued.before (queued : s.Queued) (move : Move A s h s') (inside : e ∈ s.queue)
    (drawn : s.time < e') : Before s'.queue e e' := by
  obtain ⟨more, grown⟩ := move.queue_append
  rw [grown]
  exact .of_notMem inside (fun pushed => absurd (queued.late e' pushed) (by omega)) more

theorem Awaits.move (awaits : s'.Awaits x e) (locked : Locked A s) (move : Move A s h s') :
    s.Awaits x e ∨ s.time < e := by
  obtain ⟨h', owns, pending⟩ := awaits
  rcases move.pending pending with before | late
  · rcases move.owns locked owns with owned | running
    · exact .inl ⟨h', owned, before⟩
    · rw [Pending, running] at pending
      cases pending
  · exact .inr late

/-- The handle that commits had the locks of what it has written to. -/
theorem Valued.awaits (valued : Valued init s) (move : Move A s h s') {t : Txn Obj Val}
    (inside : t ∈ s'.committed) (writes : t.Writes x) :
    t ∈ s.committed ∨ s.Awaits x t.endTime := by
  rcases move.committed with same | ⟨endTime, validated, more⟩
  · exact .inl (same ▸ inside)
  · rw [more] at inside
    rcases List.mem_append.mp inside with before | last
    · exact .inl before
    · obtain rfl := List.mem_singleton.mp last
      exact .inr ⟨h, valued.owns_of_writes validated writes, by rw [Pending, validated]; rfl⟩

/-- What has been validated is in the queue. -/
theorem Move.validating (move : Move A s h s') (queued : s.Queued) {rest : List Obj}
    (validating : (s'.handles h).stage = .validating e rest) : e ∈ s'.queue := by
  cases move with
  | skip => exact queued.validating h e rest validating
  | quiet quiet =>
      have validating : (Function.update s.handles h _ h).stage = .validating e rest := validating
      rw [Function.update_self] at validating
      cases quiet with
      | nested running | nestedCommit running | unchecked _ running =>
          cases running.symm.trans validating
      | validated before =>
          obtain ⟨rfl, rfl⟩ := Stage.validating.inj validating
          exact queued.validating h _ _ before
      | trBegin | load | checked | failed | nestedAbort | mainAbort | nestedUndone | cleanup =>
          cases validating
  | lock _ stage | write _ _ stage | undo stage | unlock stage =>
      have validating : (Function.update s.handles h _ h).stage = .validating e rest := validating
      rw [Function.update_self] at validating
      cases stage.symm.trans validating
  | push =>
      have validating : (Function.update s.handles h _ h).stage = .validating e rest := validating
      rw [Function.update_self] at validating
      obtain ⟨rfl, -⟩ := Stage.validating.inj validating
      exact List.mem_append_right _ (List.mem_singleton_self _)
  | commitReader | draw | commit | undone =>
      have validating : (Function.update s.handles h _ h).stage = .validating e rest := validating
      rw [Function.update_self] at validating
      cases validating

/-- The end time of a handle that is about to push is one from before, or has been drawn now. -/
theorem Move.pushing (move : Move A s h s') (pushing : (s'.handles h).stage = .pushing e) :
    s'.queue = s.queue ∧ ((s.handles h).stage = .pushing e ∨ s.time < e) := by
  cases move with
  | skip => exact ⟨rfl, .inl pushing⟩
  | quiet quiet =>
      have pushing : (Function.update s.handles h _ h).stage = .pushing e := pushing
      rw [Function.update_self] at pushing
      cases quiet with
      | nested running | nestedCommit running | unchecked _ running =>
          cases running.symm.trans pushing
      | trBegin | load | checked | failed | nestedAbort | mainAbort | validated | nestedUndone
      | cleanup => cases pushing
  | lock _ stage | write _ _ stage | undo stage | unlock stage =>
      have pushing : (Function.update s.handles h _ h).stage = .pushing e := pushing
      rw [Function.update_self] at pushing
      cases stage.symm.trans pushing
  | draw =>
      have pushing : (Function.update s.handles h _ h).stage = .pushing e := pushing
      rw [Function.update_self] at pushing
      obtain rfl := Stage.pushing.inj pushing
      exact ⟨rfl, .inr (Nat.lt_add_of_pos_right (by omega))⟩
  | commitReader | push | commit | undone =>
      have pushing : (Function.update s.handles h _ h).stage = .pushing e := pushing
      rw [Function.update_self] at pushing
      cases pushing

theorem Queued.move (queued : s.Queued) (locked : Locked A s) (distinct : s.Distinct)
    (move : Move A s h s') : s'.Queued where
  nodup := by
    rcases move.queue with same | ⟨e, pushing, more⟩
    · exact same ▸ queued.nodup
    · rw [more]
      refine List.nodup_append.mpr ⟨queued.nodup, List.pairwise_singleton _ _, ?_⟩
      rintro a inside b last rfl
      exact queued.pushing h e pushing (List.mem_singleton.mp last ▸ inside)
  late e inside := by
    refine Nat.le_trans ?_ move.time_mono
    rcases move.queue with same | ⟨e', pushing, more⟩
    · exact queued.late e (same ▸ inside)
    · rw [more] at inside
      rcases List.mem_append.mp inside with older | last
      · exact queued.late e older
      · rw [List.mem_singleton.mp last]
        exact ((locked.timed h).ended e' (by rw [pushing]; rfl)).2.1
  pushing h' e pushing inside := by
    by_cases here : h' = h
    · rw [here] at pushing
      obtain ⟨same, before | late⟩ := move.pushing pushing
      · exact queued.pushing h e before (same ▸ inside)
      · exact absurd (queued.late e (same ▸ inside)) (by omega)
    · rw [move.other here] at pushing
      rcases move.queue with same | ⟨e', pushing', more⟩
      · exact queued.pushing h' e pushing (same ▸ inside)
      · rw [more] at inside
        rcases List.mem_append.mp inside with older | last
        · exact queued.pushing h' e pushing older
        · rw [List.mem_singleton.mp last] at pushing
          exact here (distinct.unique h' h e' (by rw [Ended, pushing]; rfl)
            (by rw [Ended, pushing']; rfl))
  validating h' e rest validating := by
    by_cases here : h' = h
    · rw [here] at validating
      exact move.validating queued validating
    · rw [move.other here] at validating
      exact move.mem_queue (queued.validating h' e rest validating)
  committed t inside := by
    apply move.mem_queue
    rcases move.committed with same | ⟨endTime, validated, more⟩
    · exact queued.committed t (same ▸ inside)
    · rw [more] at inside
      rcases List.mem_append.mp inside with older | last
      · exact queued.committed t older
      · rw [List.mem_singleton.mp last]
        exact queued.validating h endTime [] validated

end State

end HybridDatabase.Stm
