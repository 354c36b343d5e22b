/-
# Locks and times

A lock that is not free is that of the one handle that has acquired it.  Versions and times
never pass the clock, and a transaction ends after it has begun.
-/

import HybridDatabase.Stm.Moves

namespace HybridDatabase.Stm

open HybridDatabase.Base

universe u v w

variable {ι : Type u} {Obj : Type v} {Val : Type w}

namespace State

/-! ## The invariant -/

/-- The handle has the lock of the object. -/
def Owns (s : State ι Obj Obj Val) (h : ι) (x : Obj) : Prop := x ∈ (s.handles h).acquiredLocks

/-- The handle has drawn an end time. -/
def Ended (s : State ι Obj Obj Val) (h : ι) (endTime : ℕ) : Prop :=
  (s.handles h).stage.ended = some endTime

/-- What holds of a handle and the clock. -/
structure Timed (time : ℕ) (H : Handle Obj Obj Val) : Prop where
  started : H.startTime ≤ time
  ended : ∀ e, H.stage.ended = some e → H.startTime < e ∧ e ≤ time ∧ e % 2 = 1
  idle : H.stage = .idle → H = .cleanup

/-- The invariant of locks and times. -/
structure Locked (A : Addresses ι) (s : State ι Obj Obj Val) : Prop where
  odd : s.time % 2 = 1
  timed : ∀ h, Timed s.time (s.handles h)
  held : ∀ h x, s.Owns h x → s.locks x = A.address h
  nodup : ∀ h, (s.handles h).acquiredLocks.Nodup
  owner : ∀ x, s.locks x % 2 = 0 → ∃ h, s.Owns h x
  version : ∀ x, s.locks x % 2 = 1 → s.locks x ≤ s.time

variable {A : Addresses ι} {s s' : State ι Obj Obj Val} {h h' : ι} {x : Obj} {e : ℕ}

theorem Timed.mono {time time' : ℕ} {H : Handle Obj Obj Val} (timed : Timed time H)
    (later : time ≤ time') : Timed time' H :=
  ⟨Nat.le_trans timed.started later, fun e ended =>
    ⟨(timed.ended e ended).1, Nat.le_trans (timed.ended e ended).2.1 later,
      (timed.ended e ended).2.2⟩, timed.idle⟩

namespace Locked

theorem not_free (locked : Locked A s) (owns : s.Owns h x) : s.locks x % 2 = 0 :=
  locked.held h x owns ▸ A.aligned h

/-- A lock has one owner. -/
theorem unique (locked : Locked A s) (owns : s.Owns h x) (owns' : s.Owns h' x) : h = h' :=
  A.injective ((locked.held h x owns).symm.trans (locked.held h' x owns'))

theorem owns_of_address (locked : Locked A s) (owned : s.locks x = A.address h) : s.Owns h x := by
  obtain ⟨h', owns⟩ := locked.owner x (owned ▸ A.aligned h)
  obtain rfl : h' = h := A.injective ((locked.held h' x owns).symm.trans owned)
  exact owns

theorem free_or_owns (locked : Locked A s) (x : Obj) :
    s.locks x % 2 = 1 ∨ ∃ h, s.Owns h x := by
  rcases Nat.mod_two_eq_zero_or_one (s.locks x) with even | odd
  · exact .inr (locked.owner x even)
  · exact .inl odd

end Locked

/-- `l_check` succeeds for a version that is old enough, or for the owner. -/
theorem Locked.lCheck_iff (locked : Locked A s) : s.lCheck A h x = true ↔
    (s.locks x % 2 = 1 ∧ s.locks x ≤ (s.handles h).startTime) ∨ s.Owns h x := by
  unfold lCheck
  split
  next free =>
      rw [decide_eq_true_iff]
      refine ⟨fun old => .inl ⟨free, old⟩, fun either => either.elim And.right fun owns => ?_⟩
      exact absurd (locked.not_free owns) (by omega)
  next taken =>
      rw [decide_eq_true_iff]
      refine ⟨fun owned => .inr (locked.owns_of_address owned), fun either => ?_⟩
      exact either.elim (fun free => absurd free.1 taken) (locked.held h x)

/-- Where the check succeeds, no other handle has the lock. -/
theorem Locked.owner_of_lCheck (locked : Locked A s) (ok : s.lCheck A h x = true)
    (owns : s.Owns h' x) : h' = h := by
  rcases locked.lCheck_iff.mp ok with ⟨free, -⟩ | owned
  · exact absurd (locked.not_free owns) (by omega)
  · exact locked.unique owns owned

/-! ## Moves -/

/-- What a quiet move keeps. -/
structure Kept (s : State ι Obj Obj Val) (H H' : Handle Obj Obj Val) : Prop where
  acquiredLocks : H'.acquiredLocks = H.acquiredLocks
  ended : ∀ e, H'.stage.ended = some e → H.stage.ended = some e ∧ H'.startTime = H.startTime
  timed : Timed s.time H'

theorem Quiet.kept {H : Handle Obj Obj Val} (quiet : Quiet A s h H)
    (timed : Timed s.time (s.handles h)) : Kept s (s.handles h) H := by
  cases quiet with
  | trBegin idle =>
      exact ⟨rfl, fun _ ended => (nomatch ended), Nat.le_refl _, fun _ ended => (nomatch ended),
        fun idle => (nomatch idle)⟩
  | nested running | nestedCommit running | unchecked _ running =>
      exact ⟨rfl, fun _ ended => ⟨ended, rfl⟩, timed.started, timed.ended,
        fun idle => (nomatch running.symm.trans idle)⟩
  | load | checked | failed | nestedAbort | mainAbort | nestedUndone =>
      exact ⟨rfl, fun _ ended => (nomatch ended), timed.started, fun _ ended => (nomatch ended),
        fun idle => (nomatch idle)⟩
  | @validated endTime x rest validating ok =>
      have same : (s.handles h).stage.ended = some endTime := by rw [validating]; rfl
      exact ⟨rfl, fun e ended => ⟨same.trans ended, rfl⟩, timed.started,
        fun e ended => timed.ended e (same.trans ended), fun idle => (nomatch idle)⟩
  | cleanup unlocking free =>
      exact ⟨free.symm, fun _ ended => (nomatch ended), Nat.zero_le _,
        fun _ ended => (nomatch ended), fun _ => rfl⟩

/-- A stage with the end time that has been drawn. -/
theorem Locked.timed_drawn (locked : Locked A s) (h : ι) {stage : Stage Obj Obj Val}
    (drawn : ∀ e, stage.ended = some e → e = s.time + 2) (busy : stage ≠ .idle) :
    Timed (s.time + 2) { s.handles h with stage := stage } := by
  have started := (locked.timed h).started
  have odd := locked.odd
  refine ⟨Nat.le_add_right_of_le started, fun e ended => ?_, fun idle => absurd idle busy⟩
  obtain rfl := drawn e ended
  show (s.handles h).startTime < s.time + 2 ∧ _
  omega

theorem Initial.locked (initial : Initial s) : Locked A s where
  odd := initial.odd
  timed h := by
    rw [initial.handles h]
    exact ⟨Nat.zero_le _, fun _ ended => (nomatch ended), fun _ => rfl⟩
  held h x owns := by
    rw [Owns, initial.handles h] at owns
    cases owns
  nodup h := by
    rw [initial.handles h]
    exact List.nodup_nil
  owner x taken := by
    rw [(initial.free x).1] at taken
    cases taken
  version x _ := (initial.free x).2

variable [DecidableEq ι]

namespace Locked

/-- A handle gets another record, with the same locks. -/
theorem setHandle (locked : Locked A s) {H : Handle Obj Obj Val} {time : ℕ} {memory : Obj → Val}
    {queue : List ℕ} {committed readers aborted : List (Txn Obj Val)}
    (odd : time % 2 = 1) (later : s.time ≤ time)
    (acquiredLocks : H.acquiredLocks = (s.handles h).acquiredLocks) (timed : Timed time H) :
    Locked A ⟨time, memory, s.locks, Function.update s.handles h H, queue, committed, readers,
      aborted⟩ := by
  have same : ∀ h', (Function.update s.handles h H h').acquiredLocks =
      (s.handles h').acquiredLocks := by
    intro h'
    by_cases here : h' = h
    · rw [here, Function.update_self, acquiredLocks]
    · rw [Function.update_of_ne here]
  refine ⟨odd, fun h' => ?_, fun h' x owns => ?_, fun h' => ?_, fun x taken => ?_,
    fun x free => Nat.le_trans (locked.version x free) later⟩
  · by_cases here : h' = h
    · show Timed time (Function.update s.handles h H h')
      rw [here, Function.update_self]
      exact timed
    · show Timed time (Function.update s.handles h H h')
      rw [Function.update_of_ne here]
      exact (locked.timed h').mono later
  · have owns : x ∈ (Function.update s.handles h H h').acquiredLocks := owns
    rw [same h'] at owns
    exact locked.held h' x owns
  · show (Function.update s.handles h H h').acquiredLocks.Nodup
    exact same h' ▸ locked.nodup h'
  · obtain ⟨h', owns⟩ := locked.owner x taken
    exact ⟨h', show x ∈ (Function.update s.handles h H h').acquiredLocks from
      (same h').symm ▸ owns⟩

variable [DecidableEq Obj]

/-- A lock that is acquired. -/
theorem lock (locked : Locked A s) (x : Obj) (running : (s.handles h).stage = .running)
    (free : s.locks x % 2 = 1) : Locked A { s with
      locks := Function.update s.locks x (A.address h)
      handles := Function.update s.handles h
        { s.handles h with acquiredLocks := x :: (s.handles h).acquiredLocks } } := by
  have timed := locked.timed h
  have unowned : ∀ h', ¬ s.Owns h' x := fun h' owns => by
    have := locked.not_free owns
    omega
  refine ⟨locked.odd, fun h' => ?_, fun h' y owns => ?_, fun h' => ?_, fun y taken => ?_,
    fun y free' => ?_⟩
  · by_cases here : h' = h
    · show Timed s.time (Function.update s.handles h _ h')
      rw [here, Function.update_self]
      exact ⟨timed.started, timed.ended, fun idle => (nomatch running.symm.trans idle)⟩
    · show Timed s.time (Function.update s.handles h _ h')
      rw [Function.update_of_ne here]
      exact locked.timed h'
  · have owns : y ∈ (Function.update s.handles h _ h').acquiredLocks := owns
    show Function.update s.locks x (A.address h) y = A.address h'
    by_cases here : h' = h
    · subst here
      rw [Function.update_self] at owns
      rcases List.mem_cons.mp owns with rfl | older
      · exact Function.update_self ..
      · have other : y ≠ x := fun same => unowned _ (same ▸ older)
        rw [Function.update_of_ne other]
        exact locked.held _ y older
    · rw [Function.update_of_ne here] at owns
      have other : y ≠ x := fun same => unowned _ (same ▸ owns)
      rw [Function.update_of_ne other]
      exact locked.held h' y owns
  · show (Function.update s.handles h _ h').acquiredLocks.Nodup
    by_cases here : h' = h
    · subst here
      rw [Function.update_self]
      exact List.nodup_cons.mpr ⟨unowned _, locked.nodup _⟩
    · rw [Function.update_of_ne here]
      exact locked.nodup h'
  · have taken : Function.update s.locks x (A.address h) y % 2 = 0 := taken
    by_cases here : y = x
    · refine ⟨h, show y ∈ (Function.update s.handles h _ h).acquiredLocks from ?_⟩
      rw [Function.update_self, here]
      exact List.mem_cons_self
    · rw [Function.update_of_ne here] at taken
      obtain ⟨h', owns⟩ := locked.owner y taken
      refine ⟨h', show y ∈ (Function.update s.handles h _ h').acquiredLocks from ?_⟩
      by_cases same : h' = h
      · subst same
        rw [Function.update_self]
        exact List.mem_cons_of_mem _ owns
      · rw [Function.update_of_ne same]
        exact owns
  · have free' : Function.update s.locks x (A.address h) y % 2 = 1 := free'
    show Function.update s.locks x (A.address h) y ≤ s.time
    by_cases here : y = x
    · rw [here, Function.update_self, A.aligned h] at free'
      cases free'
    · rw [Function.update_of_ne here] at free' ⊢
      exact locked.version y free'

/-- A lock that is freed. -/
theorem unlock (locked : Locked A s) {endTime : ℕ} {x : Obj} {rest : List Obj}
    (unlocking : (s.handles h).stage = .unlocking endTime)
    (acquired : (s.handles h).acquiredLocks = x :: rest) : Locked A { s with
      locks := if s.locks x = A.address h then Function.update s.locks x endTime else s.locks
      handles := Function.update s.handles h { s.handles h with acquiredLocks := rest } } := by
  have timed := locked.timed h
  obtain ⟨-, late, odd⟩ := timed.ended endTime (by rw [unlocking]; rfl)
  have owns : s.Owns h x := by
    rw [Owns, acquired]
    exact List.mem_cons_self
  rw [if_pos (locked.held h x owns)]
  have nodup := locked.nodup h
  rw [acquired] at nodup
  obtain ⟨absent, nodup⟩ := List.nodup_cons.mp nodup
  refine ⟨locked.odd, fun h' => ?_, fun h' y owns' => ?_, fun h' => ?_, fun y taken => ?_,
    fun y free' => ?_⟩
  · by_cases here : h' = h
    · show Timed s.time (Function.update s.handles h _ h')
      rw [here, Function.update_self]
      exact ⟨timed.started, timed.ended, fun idle => (nomatch unlocking.symm.trans idle)⟩
    · show Timed s.time (Function.update s.handles h _ h')
      rw [Function.update_of_ne here]
      exact locked.timed h'
  · have owns' : y ∈ (Function.update s.handles h _ h').acquiredLocks := owns'
    show Function.update s.locks x endTime y = A.address h'
    by_cases here : h' = h
    · subst here
      rw [Function.update_self] at owns'
      have other : y ≠ x := fun same => absent (same ▸ owns')
      rw [Function.update_of_ne other]
      exact locked.held _ y (show y ∈ _ from acquired ▸ List.mem_cons_of_mem x owns')
    · rw [Function.update_of_ne here] at owns'
      have other : y ≠ x := fun same => here (locked.unique (same ▸ owns') owns)
      rw [Function.update_of_ne other]
      exact locked.held h' y owns'
  · show (Function.update s.handles h _ h').acquiredLocks.Nodup
    by_cases here : h' = h
    · subst here
      rw [Function.update_self]
      exact nodup
    · rw [Function.update_of_ne here]
      exact locked.nodup h'
  · have taken : Function.update s.locks x endTime y % 2 = 0 := taken
    by_cases here : y = x
    · rw [here, Function.update_self, odd] at taken
      cases taken
    · rw [Function.update_of_ne here] at taken
      obtain ⟨h', owns'⟩ := locked.owner y taken
      refine ⟨h', show y ∈ (Function.update s.handles h _ h').acquiredLocks from ?_⟩
      by_cases same : h' = h
      · subst same
        rw [Function.update_self]
        have inside : y ∈ x :: rest := acquired ▸ owns'
        exact (List.mem_cons.mp inside).resolve_left here
      · rw [Function.update_of_ne same]
        exact owns'
  · have free' : Function.update s.locks x endTime y % 2 = 1 := free'
    show Function.update s.locks x endTime y ≤ s.time
    by_cases here : y = x
    · rw [here, Function.update_self]
      exact late
    · rw [Function.update_of_ne here] at free' ⊢
      exact locked.version y free'

theorem move (locked : Locked A s) (move : Move A s h s') : Locked A s' := by
  have odd : (s.time + 2) % 2 = 1 := by have := locked.odd; omega
  have later : s.time ≤ s.time + 2 := Nat.le_add_right _ _
  have timed := locked.timed h
  cases move with
  | skip => exact locked
  | quiet quiet =>
      have kept := quiet.kept timed
      exact locked.setHandle locked.odd (Nat.le_refl _) kept.acquiredLocks kept.timed
  | lock x running free old => exact locked.lock x running free
  | write x value running owned =>
      exact locked.setHandle locked.odd (Nat.le_refl _) rfl
        ⟨timed.started, timed.ended, fun idle => (nomatch running.symm.trans idle)⟩
  | commitReader | draw | undone =>
      exact locked.setHandle odd later rfl (locked.timed_drawn h
        (fun e ended => (Option.some.inj ended).symm) fun idle => (nomatch idle))
  | push pushing =>
      have same : (s.handles h).stage.ended = _ := congrArg Stage.ended pushing
      exact locked.setHandle locked.odd (Nat.le_refl _) rfl ⟨timed.started,
        fun e ended => timed.ended e (same.trans ended), fun idle => (nomatch idle)⟩
  | commit validated =>
      have same : (s.handles h).stage.ended = _ := congrArg Stage.ended validated
      exact locked.setHandle locked.odd (Nat.le_refl _) rfl ⟨timed.started,
        fun e ended => timed.ended e (same.trans ended), fun idle => (nomatch idle)⟩
  | undo rolling log above =>
      exact locked.setHandle locked.odd (Nat.le_refl _) rfl
        ⟨timed.started, timed.ended, fun idle => (nomatch rolling.symm.trans idle)⟩
  | unlock unlocking acquired => exact locked.unlock unlocking acquired

end Locked

/-! ## What ends -/

/-- A handle that has the lock of the object ends its transaction at that time. -/
def Ends (s : State ι Obj Obj Val) (x : Obj) (endTime : ℕ) : Prop :=
  ∃ h, s.Owns h x ∧ s.Ended h endTime

variable [DecidableEq Obj]

theorem Move.time_mono (move : Move A s h s') : s.time ≤ s'.time := by
  cases move with
  | skip | quiet | lock | write | push | commit | undo | unlock => exact Nat.le_refl _
  | commitReader | draw | undone => exact Nat.le_add_right _ _

/-- End times are drawn from the clock. -/
theorem Move.ended (move : Move A s h s') (locked : Locked A s) (ended : s'.Ended h' e) :
    s.Ended h' e ∨ s.time < e := by
  by_cases here : h' = h
  · subst here
    have timed := locked.timed h'
    cases move with
    | skip => exact .inl ended
    | quiet quiet =>
        have ended : (Function.update s.handles h' _ h').stage.ended = some e := ended
        rw [Function.update_self] at ended
        exact .inl ((quiet.kept timed).ended e ended).1
    | lock | write | undo | unlock =>
        have ended : (Function.update s.handles h' _ h').stage.ended = some e := ended
        rw [Function.update_self] at ended
        exact .inl ended
    | commitReader | draw | undone =>
        have ended : (Function.update s.handles h' _ h').stage.ended = some e := ended
        rw [Function.update_self] at ended
        obtain rfl := Option.some.inj ended
        exact .inr (Nat.lt_add_of_pos_right (by omega))
    | push stage | commit stage =>
        have ended : (Function.update s.handles h' _ h').stage.ended = some e := ended
        rw [Function.update_self] at ended
        exact .inl ((congrArg Stage.ended stage).trans ended)
  · rw [Ended, move.other here] at ended
    exact .inl ended

/-- Locks are acquired by handles that run. -/
theorem Move.owns (move : Move A s h s') (locked : Locked A s) (owns : s'.Owns h' x) :
    s.Owns h' x ∨ (s'.handles h').stage = .running := by
  by_cases here : h' = h
  · subst here
    cases move with
    | skip => exact .inl owns
    | quiet quiet =>
        have owns : x ∈ (Function.update s.handles h' _ h').acquiredLocks := owns
        rw [Function.update_self, (quiet.kept (locked.timed h')).acquiredLocks] at owns
        exact .inl owns
    | lock y running =>
        refine .inr ?_
        show (Function.update s.handles h' _ h').stage = .running
        rw [Function.update_self]
        exact running
    | write | undo | commitReader | draw | undone | push | commit =>
        have owns : x ∈ (Function.update s.handles h' _ h').acquiredLocks := owns
        rw [Function.update_self] at owns
        exact .inl owns
    | unlock unlocking acquired =>
        have owns : x ∈ (Function.update s.handles h' _ h').acquiredLocks := owns
        rw [Function.update_self] at owns
        exact .inl (show x ∈ _ from acquired ▸ List.mem_cons_of_mem _ owns)
  · rw [Owns, move.other here] at owns
    exact .inl owns

/-- What ends after a move ends already, or later than all that was before. -/
theorem Ends.move (ends : s'.Ends x e) (locked : Locked A s) (move : Move A s h s') :
    s.Ends x e ∨ s.time < e := by
  obtain ⟨h', owns, ended⟩ := ends
  rcases move.ended locked ended with before | late
  · rcases move.owns locked owns with owned | running
    · exact .inl ⟨h', owned, before⟩
    · rw [Ended, running] at ended
      cases ended
  · exact .inr late

/-- A lock that is free after a move was free, or its owner has ended. -/
theorem Move.locks (move : Move A s h s') (locked : Locked A s) (free : s'.locks x % 2 = 1) :
    s'.locks x = s.locks x ∨ s.Ends x (s'.locks x) := by
  cases move with
  | skip | quiet | write | commitReader | draw | push | commit | undo | undone => exact .inl rfl
  | lock y running =>
      have free : Function.update s.locks y (A.address h) x % 2 = 1 := free
      by_cases here : x = y
      · rw [here, Function.update_self, A.aligned h] at free
        cases free
      · exact .inl (Function.update_of_ne here ..)
  | @unlock endTime y rest unlocking acquired =>
      have owns : s.Owns h y := show y ∈ _ from acquired ▸ List.mem_cons_self
      rw [if_pos (locked.held h y owns)]
      by_cases here : x = y
      · subst here
        refine .inr ⟨h, owns, ?_⟩
        show (s.handles h).stage.ended = some (Function.update s.locks x endTime x)
        rw [Function.update_self, unlocking]
        rfl
      · exact .inl (Function.update_of_ne here ..)

end State

end HybridDatabase.Stm
