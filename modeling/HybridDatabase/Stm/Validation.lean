/-
# Validation

The read set of a handle has all objects whose reads count.  What has been validated is not
changed by a transaction that ends between the begin and the end of this one: when the lock is
checked, whoever could still end earlier would have it.
-/

import HybridDatabase.Stm.Order

namespace HybridDatabase.Stm

open HybridDatabase.Base

universe u v w

variable {ι : Type u} {Obj : Type v} {Val : Type w}

/-! ## Read sets -/

namespace Stage

/-- The transaction can still be committed. -/
def alive {Lk : Type u} {Cell : Type v} : Stage Lk Cell Val → Bool
  | .rollingBack _ true | .unlocking _ => false
  | _ => true

theorem alive_of_whole {stage : Stage Obj Obj Val} (whole : stage.whole = true) :
    stage.alive = true := by
  cases stage with
  | idle | running | reading | pushing | validating => rfl
  | rollingBack | unlocking => cases whole

end Stage

variable {events : List (Event Obj Val)} {reads reads' : List ℕ} {readSet readSet' : List Obj}

/-- The objects of the reads at these places are in the read set. -/
def Covered (events : List (Event Obj Val)) (reads : List ℕ) (readSet : List Obj) : Prop :=
  ∀ k ∈ reads, ∀ x value, events[k]? = some (.read x value) → x ∈ readSet

theorem Covered.mono (covered : Covered events reads readSet) (fewer : reads' ⊆ reads)
    (more : readSet ⊆ readSet') : Covered events reads' readSet' :=
  fun k inside x value at_ => more (covered k (fewer inside) x value at_)

/-- What stands at the places that count stays with more events. -/
theorem Covered.concat (covered : Covered events reads readSet) (fewer : reads ⊆ (own events).reads)
    (event : Event Obj Val) : Covered (events ++ [event]) reads readSet := by
  intro k inside x value at_
  obtain ⟨y, value', here⟩ := exists_of_mem_reads (fewer inside)
  rw [List.getElem?_append_left (List.getElem?_eq_some_iff.mp here).1] at at_
  exact covered k inside x value at_

/-- The read set of a handle, and what of it belongs to the nested transactions. -/
structure Covers (H : Handle Obj Obj Val) : Prop where
  reading : ∀ x value, H.stage = .reading x value → x ∈ H.readSet
  whole : H.stage.whole = true → Covered H.events (own H.events).reads H.readSet
  levels : H.stage.alive = true → ∀ (i : ℕ) (tr m : ℕ × ℕ), H.transactions[i]? = some tr →
    (own H.events).marks[i]? = some m →
      Covered H.events ((own H.events).reads.take m.1) (H.readSet.take tr.1)

theorem covers_cleanup : Covers (.cleanup : Handle Obj Obj Val) where
  reading _ _ reading := (nomatch reading)
  whole _ _ inside := (nomatch inside)
  levels _ _ _ _ at_ := (nomatch at_)

namespace Covers

variable {H : Handle Obj Obj Val}

/-- Another stage. -/
theorem of_stage (covers : Covers H) {stage : Stage Obj Obj Val}
    (reading : ∀ x value, stage ≠ .reading x value)
    (whole : stage.whole = true → H.stage.whole = true)
    (alive : stage.alive = true → H.stage.alive = true) : Covers { H with stage := stage } where
  reading x value same := absurd same (reading x value)
  whole still := covers.whole (whole still)
  levels still := covers.levels (alive still)

/-- Another event that changes neither the reads nor the marks. -/
theorem concat (covers : Covers H) (whole : H.stage.whole = true) (event : Event Obj Val)
    (reads : (own (H.events ++ [event])).reads = (own H.events).reads)
    (marks : (own (H.events ++ [event])).marks = (own H.events).marks)
    (log : List (Obj × Val)) :
    Covers { H with
      log := log
      events := H.events ++ [event] } where
  reading := covers.reading
  whole _ := by
    show Covered (H.events ++ [event]) (own (H.events ++ [event])).reads _
    rw [reads]
    exact (covers.whole whole).concat (fun _ inside => inside) event
  levels still i tr m at_ mark := by
    have mark : (own (H.events ++ [event])).marks[i]? = some m := mark
    rw [marks] at mark
    show Covered (H.events ++ [event]) ((own (H.events ++ [event])).reads.take m.1) _
    rw [reads]
    exact (covers.levels still i tr m at_ mark).concat (fun _ => List.mem_of_mem_take) event

/-- A nested transaction begins. -/
theorem nested (covers : Covers H) (running : H.stage = .running) :
    Covers { H with
      transactions := (H.readSet.length, H.log.length) :: H.transactions
      events := H.events ++ [.trBegin] } := by
  have whole := covers.whole (by rw [running]; rfl)
  have added : own (H.events ++ [.trBegin]) = (own H.events).add .trBegin := own_concat _ _
  have reads : (own (H.events ++ [.trBegin])).reads = (own H.events).reads := by rw [added]; rfl
  refine ⟨fun x value reading => (nomatch running.symm.trans reading), fun _ => ?_, ?_⟩
  · show Covered (H.events ++ [.trBegin]) (own (H.events ++ [.trBegin])).reads _
    rw [reads]
    exact whole.concat (fun _ inside => inside) _
  · intro still i tr m at_ mark
    have mark : (own (H.events ++ [.trBegin])).marks[i]? = some m := mark
    rw [added] at mark
    show Covered (H.events ++ [.trBegin]) ((own (H.events ++ [.trBegin])).reads.take m.1) _
    rw [reads]
    refine Covered.concat ?_ (fun _ => List.mem_of_mem_take) _
    cases i with
    | zero =>
        obtain rfl := Option.some.inj at_
        obtain rfl := Option.some.inj mark
        rw [List.take_length, List.take_length]
        exact whole
    | succ i => exact covers.levels still i tr m at_ mark

/-- A nested transaction is committed. -/
theorem nestedCommit (covers : Covers H) (running : H.stage = .running) {tr : ℕ × ℕ}
    {rest : List (ℕ × ℕ)} (transactions : H.transactions = tr :: rest) :
    Covers { H with
      transactions := rest
      events := H.events ++ [.trCommit] } := by
  have whole := covers.whole (by rw [running]; rfl)
  have added : own (H.events ++ [.trCommit]) = (own H.events).add .trCommit := own_concat _ _
  have reads : (own (H.events ++ [.trCommit])).reads = (own H.events).reads := by rw [added]; rfl
  refine ⟨fun x value reading => (nomatch running.symm.trans reading), fun _ => ?_, ?_⟩
  · show Covered (H.events ++ [.trCommit]) (own (H.events ++ [.trCommit])).reads _
    rw [reads]
    exact whole.concat (fun _ inside => inside) _
  · intro still i tr' m at_ mark
    have mark : (own (H.events ++ [.trCommit])).marks[i]? = some m := mark
    have mark : (own H.events).marks.tail[i]? = some m := by rwa [added] at mark
    rw [List.getElem?_tail] at mark
    show Covered (H.events ++ [.trCommit]) ((own (H.events ++ [.trCommit])).reads.take m.1) _
    rw [reads]
    refine Covered.concat ?_ (fun _ => List.mem_of_mem_take) _
    exact covers.levels still (i + 1) tr' m (transactions ▸ at_) mark

/-- An object is added to the read set. -/
theorem load (covers : Covers H) (running : H.stage = .running) (x : Obj) (value : Val) :
    Covers { H with
      readSet := H.readSet ++ [x]
      stage := .reading x value } where
  reading y value' same := by
    obtain ⟨rfl, -⟩ := Stage.reading.inj same
    exact List.mem_append_right _ (List.mem_singleton_self _)
  whole _ := (covers.whole (by rw [running]; rfl)).mono (fun _ inside => inside)
    fun _ => List.mem_append_left _
  levels _ i tr m at_ mark := (covers.levels (by rw [running]; rfl) i tr m at_ mark).mono
    (fun _ inside => inside) (by
      rw [List.take_append]
      exact fun _ => List.mem_append_left _)

/-- An object is added to the read set, and that is all. -/
theorem unchecked (covers : Covers H) (running : H.stage = .running) (x : Obj) :
    Covers { H with readSet := H.readSet ++ [x] } where
  reading y value same := (nomatch running.symm.trans same)
  whole still := (covers.whole still).mono (fun _ inside => inside)
    fun _ => List.mem_append_left _
  levels still i tr m at_ mark := (covers.levels still i tr m at_ mark).mono
    (fun _ inside => inside) (by
      rw [List.take_append]
      exact fun _ => List.mem_append_left _)

/-- A read succeeds. -/
theorem checked (covers : Covers H) {x : Obj} {value : Val} (reading : H.stage = .reading x value) :
    Covers { H with
      stage := .running
      events := H.events ++ [.read x value] } := by
  have whole := covers.whole (by rw [reading]; rfl)
  have added : own (H.events ++ [.read x value]) = (own H.events).add (.read x value) :=
    own_concat _ _
  have reads : (own (H.events ++ [.read x value])).reads =
      (own H.events).reads ++ [H.events.length] := by
    rw [added, ← size_own]
    rfl
  refine ⟨fun x value reading => (nomatch reading), fun _ => ?_, ?_⟩
  · show Covered (H.events ++ [.read x value]) (own (H.events ++ [.read x value])).reads _
    rw [reads]
    intro k inside y value' at_
    rcases List.mem_append.mp inside with older | last
    · exact whole.concat (fun _ inside => inside) _ k older y value' at_
    · rw [List.mem_singleton.mp last, List.getElem?_concat_length] at at_
      obtain ⟨rfl, -⟩ := Event.read.inj (Option.some.inj at_)
      exact covers.reading x value reading
  · intro _ i tr m at_ mark
    have mark : (own (H.events ++ [.read x value])).marks[i]? = some m := mark
    have mark : (own H.events).marks[i]? = some m := by rwa [added] at mark
    have within := (sorted_own H.events).within m (List.mem_of_getElem? mark)
    show Covered (H.events ++ [.read x value]) ((own (H.events ++ [.read x value])).reads.take m.1) _
    rw [reads, List.take_append_of_le_length within.1]
    exact (covers.levels (by rw [reading]; rfl) i tr m at_ mark).concat
      (fun _ => List.mem_of_mem_take) _

/-- A transaction that is not committed any more. -/
theorem of_dead (dead : H.stage.alive = false) (reading : ∀ x value, H.stage ≠ .reading x value) :
    Covers H where
  reading x value same := absurd same (reading x value)
  whole still := (nomatch dead.symm.trans (Stage.alive_of_whole still))
  levels still := (nomatch dead.symm.trans still)

/-- A nested transaction is aborted: what the read set had at its begin stays. -/
theorem nestedAbort (covers : Covers H) (running : H.stage = .running) {mark : ℕ × ℕ}
    {tr : ℕ × ℕ} {marks rest : List (ℕ × ℕ)} (split : (own H.events).marks = mark :: marks)
    (transactions : H.transactions = tr :: rest) (pos : ℕ) : Covers { H with
      readSet := H.readSet.take tr.1
      stage := .rollingBack pos false } where
  reading x value reading := (nomatch reading)
  whole still := (nomatch still)
  levels still i tr' m at_ here := by
    have alive : H.stage.alive = true := by rw [running]; rfl
    have newest := covers.levels alive 0 tr mark (by rw [transactions]; rfl) (by rw [split]; rfl)
    have older := covers.levels alive i tr' m at_ here
    have order : m.1 ≤ mark.1 := by
      have order := (sorted_own H.events).order
      rw [split] at order
      have here : (mark :: marks)[i]? = some m := split ▸ here
      rcases List.mem_cons.mp (List.mem_of_getElem? here) with rfl | inside
      · exact Nat.le_refl _
      · exact ((List.pairwise_cons.mp order).1 m inside).1
    intro k inside x value event
    show x ∈ (H.readSet.take tr.1).take tr'.1
    rw [List.take_take]
    rcases Nat.le_total tr'.1 tr.1 with less | more
    · rw [Nat.min_eq_left less]
      exact older k inside x value event
    · rw [Nat.min_eq_right more]
      exact newest k (List.take_subset_take_left _ order inside) x value event

/-- A nested transaction has been rolled back. -/
theorem nestedUndone (covers : Covers H) {pos : ℕ} {mark : ℕ × ℕ} {tr : ℕ × ℕ}
    {marks rest : List (ℕ × ℕ)} (rolling : H.stage = .rollingBack pos false)
    (split : (own H.events).marks = mark :: marks) (transactions : H.transactions = tr :: rest) :
    Covers { H with
      transactions := H.transactions.tail
      stage := .running
      events := H.events ++ [.trAbort] } := by
  have alive : H.stage.alive = true := by rw [rolling]; rfl
  have newest := covers.levels alive 0 tr mark (by rw [transactions]; rfl) (by rw [split]; rfl)
  have added : own (H.events ++ [.trAbort]) = (own H.events).add .trAbort := own_concat _ _
  have reads : (own (H.events ++ [.trAbort])).reads = (own H.events).reads.take mark.1 := by
    rw [added, Own.add, split]
    rfl
  refine ⟨?_, fun _ => ?_, ?_⟩
  · rintro x value ⟨⟩
  · show Covered (H.events ++ [.trAbort]) (own (H.events ++ [.trAbort])).reads _
    rw [reads]
    exact (newest.mono (fun _ inside => inside) (List.take_subset _ _)).concat
      (fun _ => List.mem_of_mem_take) _
  · intro _ i tr' m at_ here
    have here : (own (H.events ++ [.trAbort])).marks[i]? = some m := here
    have here : (own H.events).marks.tail[i]? = some m := by rwa [added] at here
    have at_ : H.transactions.tail[i]? = some tr' := at_
    rw [List.getElem?_tail] at here at_
    show Covered (H.events ++ [.trAbort]) ((own (H.events ++ [.trAbort])).reads.take m.1) _
    rw [reads, List.take_take]
    refine Covered.concat ?_ (fun _ => List.mem_of_mem_take) _
    exact (covers.levels alive (i + 1) tr' m at_ here).mono
      (List.take_subset_take_left _ (Nat.min_le_left _ _)) fun _ inside => inside

end Covers

namespace State

/-- What holds of the times of a transaction and of what it has validated: the part of the read
set in front of the rest, and the reads that count of a transaction that has been committed. -/
structure Validated (holds : ℕ → ℕ → Obj → Prop) (s : State ι Obj Obj Val) : Prop where
  done : ∀ h e rest, (s.handles h).stage = .validating e rest →
    ∃ done, (s.handles h).readSet = done ++ rest ∧
      ∀ x ∈ done, holds (s.handles h).startTime e x
  committed : ∀ t ∈ s.committed, ∀ k ∈ (own t.events).reads, ∀ x value,
    t.events[k]? = some (.read x value) → holds t.startTime t.endTime x

theorem Initial.validated {s : State ι Obj Obj Val} {holds : ℕ → ℕ → Obj → Prop}
    (initial : Initial s) : Validated holds s where
  done h e rest validating := by
    rw [initial.handles h] at validating
    cases validating
  committed t inside := by
    rw [initial.committed] at inside
    cases inside

variable [DecidableEq Obj] {A : Addresses ι} {s s' : State ι Obj Obj Val} {h h' : ι} {x : Obj}
  {e : ℕ} {init base : Obj → Val}

theorem Quiet.covers {H : Handle Obj Obj Val} (quiet : Quiet A s h H)
    (covers : Covers (s.handles h))
    (timed : Timed s.time (s.handles h))
    (logged : (s.handles h).stage.unlocks = false → Logged base (s.handles h)) : Covers H := by
  cases quiet with
  | trBegin idle =>
      rw [timed.idle idle]
      exact ⟨fun _ _ reading => (nomatch reading), fun _ _ inside => (nomatch inside),
        fun _ _ _ _ at_ => (nomatch at_)⟩
  | nested running => exact covers.nested running
  | nestedCommit running transactions => exact covers.nestedCommit running transactions
  | load x running => exact covers.load running x _
  | unchecked x running => exact covers.unchecked running x
  | checked reading ok => exact covers.checked reading
  | failed reading =>
      exact covers.of_stage (fun _ _ reading => (nomatch reading)) (fun _ => by rw [reading]; rfl)
        fun _ => by rw [reading]; rfl
  | nestedAbort running transactions =>
      have levels := (logged (by rw [running]; rfl)).levels
      rw [transactions, List.map_cons] at levels
      obtain ⟨mark, marks, split, -⟩ := List.map_eq_cons_iff.mp levels.symm
      exact covers.nestedAbort running split transactions _
  | mainAbort => exact .of_dead rfl fun _ _ reading => (nomatch reading)
  | validated validating ok =>
      exact covers.of_stage (fun _ _ reading => (nomatch reading))
        (fun _ => by rw [validating]; rfl) fun _ => by rw [validating]; rfl
  | nestedUndone rolling back =>
      have logged := logged (by rw [rolling]; rfl)
      obtain ⟨-, -, nested⟩ := logged.rolling _ _ rolling
      obtain ⟨mark, marks, split, -⟩ := nested rfl
      have levels := logged.levels
      rw [split, List.map_cons] at levels
      obtain ⟨tr, rest, transactions, -⟩ := List.map_eq_cons_iff.mp levels
      exact covers.nestedUndone rolling split transactions
  | cleanup => exact covers_cleanup

theorem Move.covers [DecidableEq ι] (move : Move A s h s') (covers : Covers (s.handles h))
    (timed : Timed s.time (s.handles h))
    (logged : (s.handles h).stage.unlocks = false → Logged base (s.handles h)) :
    Covers (s'.handles h) := by
  cases move with
  | skip => exact covers
  | quiet quiet =>
      show Covers (Function.update s.handles h _ h)
      rw [Function.update_self]
      exact quiet.covers covers timed logged
  | lock =>
      show Covers (Function.update s.handles h _ h)
      rw [Function.update_self]
      exact ⟨covers.reading, covers.whole, covers.levels⟩
  | write y value running =>
      show Covers (Function.update s.handles h _ h)
      rw [Function.update_self]
      exact covers.concat (by rw [running]; rfl) _ (by rw [own_concat]; rfl)
        (by rw [own_concat]; rfl) _
  | commitReader running =>
      show Covers (Function.update s.handles h _ h)
      rw [Function.update_self]
      exact .of_dead rfl fun _ _ reading => (nomatch reading)
  | draw running | push running =>
      show Covers (Function.update s.handles h _ h)
      rw [Function.update_self]
      exact covers.of_stage (fun _ _ reading => (nomatch reading)) (fun _ => by rw [running]; rfl)
        fun _ => by rw [running]; rfl
  | commit | undone =>
      show Covers (Function.update s.handles h _ h)
      rw [Function.update_self]
      exact .of_dead rfl fun _ _ reading => (nomatch reading)
  | undo | unlock =>
      show Covers (Function.update s.handles h _ h)
      rw [Function.update_self]
      exact ⟨covers.reading, covers.whole, covers.levels⟩

/-! ## What has been validated -/

/-- No transaction that writes to the object ends between the two times. -/
structure Apart (s : State ι Obj Obj Val) (startTime endTime : ℕ) (x : Obj) : Prop where
  drawn : endTime ≤ s.time
  committed : ∀ t ∈ s.committed, t.Writes x → startTime < t.endTime → endTime ≤ t.endTime
  ends : ∀ e, s.Ends x e → startTime < e → endTime ≤ e

/-- The check of the lock succeeds after the end time has been drawn. -/
theorem Apart.of_lCheck (locked : Locked A s) (valued : Valued init s) (drawn : s.Pending h e) (ok : s.lCheck A h x = true) :
    s.Apart (s.handles h).startTime e x := by
  have ended : s.Ended h e := Stage.ended_of_pending drawn
  have not := Stage.not_unlocks_of_pending drawn
  refine ⟨((locked.timed h).ended e ended).2.1, fun t inside writes late => ?_, fun e' ends _ => ?_⟩
  · exact absurd (valued.committed_of_lCheck locked not ok inside writes) (Nat.not_le_of_lt late)
  · obtain ⟨h', owns, ended'⟩ := ends
    obtain rfl := locked.owner_of_lCheck ok owns
    exact Nat.le_of_eq (Option.some.inj (ended.symm.trans ended'))

variable [DecidableEq ι]

theorem Apart.move {startTime endTime : ℕ} (apart : s.Apart startTime endTime x)
    (locked : Locked A s) (valued : Valued init s) (move : Move A s h s') :
    s'.Apart startTime endTime x where
  drawn := Nat.le_trans apart.drawn move.time_mono
  committed t inside writes late := by
    rcases valued.mem_committed move inside writes with older | ends
    · exact apart.committed t older writes late
    · exact apart.ends _ ends late
  ends e ends late := by
    rcases ends.move locked move with older | drawn
    · exact apart.ends e older late
    · exact Nat.le_trans apart.drawn (Nat.le_of_lt drawn)

variable {holds holds' : ℕ → ℕ → Obj → Prop}

/-- What a handle has validated after its own move. -/
theorem Move.done (move : Move A s h s') (validated : Validated holds s)
    (checked : ∀ e x rest, (s.handles h).stage = .validating e (x :: rest) →
      s.lCheck A h x = true → holds (s.handles h).startTime e x) {rest : List Obj}
    (validating : (s'.handles h).stage = .validating e rest) :
    ∃ done, (s'.handles h).readSet = done ++ rest ∧
      ∀ x ∈ done, holds (s'.handles h).startTime e x := by
  cases move with
  | skip => exact validated.done h e rest validating
  | quiet quiet =>
      have validating : (Function.update s.handles h _ h).stage = .validating e rest := validating
      show ∃ done, (Function.update s.handles h _ h).readSet = done ++ rest ∧
        ∀ x ∈ done, holds (Function.update s.handles h _ h).startTime e x
      rw [Function.update_self] at validating ⊢
      cases quiet with
      | nested running | nestedCommit running | unchecked _ running =>
          cases running.symm.trans validating
      | @validated e' x rest' before ok =>
          obtain ⟨rfl, rfl⟩ := Stage.validating.inj validating
          obtain ⟨done, split, held⟩ := validated.done h _ _ before
          refine ⟨done ++ [x], by rw [split, List.append_assoc]; rfl, fun y inside => ?_⟩
          rcases List.mem_append.mp inside with older | last
          · exact held y older
          · rw [List.mem_singleton.mp last]
            exact checked _ x _ before ok
      | trBegin | load | checked | failed | nestedAbort | mainAbort | nestedUndone | cleanup =>
          cases validating
  | lock _ stage | write _ _ stage | undo stage | unlock stage =>
      have validating : (Function.update s.handles h _ h).stage = .validating e rest := validating
      rw [Function.update_self] at validating
      cases stage.symm.trans validating
  | push =>
      have validating : (Function.update s.handles h _ h).stage = .validating e rest := validating
      show ∃ done, (Function.update s.handles h _ h).readSet = done ++ rest ∧
        ∀ x ∈ done, holds (Function.update s.handles h _ h).startTime e x
      rw [Function.update_self] at validating ⊢
      obtain ⟨rfl, rfl⟩ := Stage.validating.inj validating
      exact ⟨[], rfl, fun _ inside => (nomatch inside)⟩
  | commitReader | draw | commit | undone =>
      have validating : (Function.update s.handles h _ h).stage = .validating e rest := validating
      rw [Function.update_self] at validating
      cases validating

/-- A move keeps what holds of the objects that have been validated, and it holds where the check
succeeds. -/
theorem Validated.move (validated : Validated holds s) (covers : ∀ h, Covers (s.handles h))
    (checked : ∀ e x rest, (s.handles h).stage = .validating e (x :: rest) →
      s.lCheck A h x = true → holds (s.handles h).startTime e x)
    (kept : ∀ startTime e x, holds startTime e x → holds' startTime e x) (move : Move A s h s') :
    Validated holds' s' where
  done h' e rest validating := by
    by_cases here : h' = h
    · rw [here] at validating ⊢
      obtain ⟨done, split, held⟩ := move.done validated checked validating
      exact ⟨done, split, fun x inside => kept _ _ _ (held x inside)⟩
    · rw [move.other here] at validating ⊢
      obtain ⟨done, split, held⟩ := validated.done h' e rest validating
      exact ⟨done, split, fun x inside => kept _ _ _ (held x inside)⟩
  committed t inside k counts x value at_ := by
    apply kept _ _ _
    rcases move.committed with same | ⟨endTime, stage, more⟩
    · exact validated.committed t (same ▸ inside) k counts x value at_
    · rw [more] at inside
      rcases List.mem_append.mp inside with older | last
      · exact validated.committed t older k counts x value at_
      · obtain rfl := List.mem_singleton.mp last
        obtain ⟨done, split, held⟩ := validated.done h _ _ stage
        rw [List.append_nil] at split
        have covered := (covers h).whole (by rw [stage]; rfl)
        exact held x (split ▸ covered k counts x value at_)

end State

end HybridDatabase.Stm
