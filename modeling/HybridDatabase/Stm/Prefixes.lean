/-
# The beginning of the queue

The transactions that have been committed, as far as they are in some beginning of the queue:
executed in the order of the queue they are a serial execution, and what they leave is the same
as in the order of end times.
-/

import HybridDatabase.Stm.Dependencies

namespace HybridDatabase.Stm

open HybridDatabase.Base

universe u v w

variable {ι : Type u} {Obj : Type v} {Val : Type w}

/-- What stands in front of an element of a mapped list comes from what stands in front. -/
theorem split_filterMap {α : Type u} {β : Type v} {f : α → Option β} {l : List α} {i : ℕ} {b : β}
    (at_ : (l.filterMap f)[i]? = some b) : ∃ front a back, l = front ++ a :: back ∧
      f a = some b ∧ (l.filterMap f).take i = front.filterMap f := by
  induction l generalizing i with
  | nil => cases at_
  | cons first l ih =>
      cases here : f first with
      | none =>
          rw [List.filterMap_cons_none here] at at_ ⊢
          obtain ⟨front, a, back, rfl, same, taken⟩ := ih at_
          exact ⟨first :: front, a, back, rfl, same, by rw [List.filterMap_cons_none here, taken]⟩
      | some b' =>
          rw [List.filterMap_cons_some here] at at_ ⊢
          cases i with
          | zero => exact ⟨[], first, l, rfl, here.trans at_, rfl⟩
          | succ i =>
              obtain ⟨front, a, back, rfl, same, taken⟩ := ih at_
              exact ⟨first :: front, a, back, rfl, same, by
                rw [List.filterMap_cons_some here, List.take_succ_cons, taken]⟩

/-- Two orders by end times of the same transactions are one. -/
theorem ByEndTime.eq_of_mem_iff {txns txns' : List (Txn Obj Val)} (first : ByEndTime txns)
    (second : ByEndTime txns') (same : ∀ t, t ∈ txns ↔ t ∈ txns') : txns = txns' := by
  have nodup {txns : List (Txn Obj Val)} (sorted : ByEndTime txns) : txns.Nodup :=
    sorted.imp fun less same => absurd (congrArg Txn.endTime same) (Nat.ne_of_lt less)
  exact first.eq_of_perm second
    ((List.perm_ext_iff_of_nodup (nodup first) (nodup second)).mpr same)

namespace State

variable {s s' : State ι Obj Obj Val} {h : ι} {x : Obj} {e : ℕ} {front back : List ℕ}

/-- The committed transactions of some entries, in their order. -/
def inQueue (s : State ι Obj Obj Val) (entries : List ℕ) : List (Txn Obj Val) :=
  entries.filterMap fun e => s.committed.find? fun t => t.endTime = e

/-- A committed transaction is found by its end time. -/
theorem Distinct.find_iff (distinct : s.Distinct) {t : Txn Obj Val} :
    s.committed.find? (fun t => t.endTime = e) = some t ↔ t ∈ s.committed ∧ t.endTime = e := by
  refine ⟨fun found => ⟨List.mem_of_find?_eq_some found, by simpa using List.find?_some found⟩,
    fun ⟨inside, same⟩ => ?_⟩
  cases found : s.committed.find? fun t => t.endTime = e with
  | none => exact absurd (decide_eq_true same) (List.find?_eq_none.mp found t inside)
  | some t' =>
      have other : t'.endTime = e := by simpa using List.find?_some found
      rw [List.inj_on_of_nodup_map distinct.nodup (List.mem_of_find?_eq_some found) inside
        (other.trans same.symm)]

theorem Distinct.mem_inQueue (distinct : s.Distinct) {t : Txn Obj Val} :
    t ∈ s.inQueue front ↔ t ∈ s.committed ∧ t.endTime ∈ front := by
  rw [inQueue, List.mem_filterMap]
  constructor
  · rintro ⟨e, inside, found⟩
    obtain ⟨member, rfl⟩ := distinct.find_iff.mp found
    exact ⟨member, inside⟩
  · rintro ⟨member, inside⟩
    exact ⟨t.endTime, inside, distinct.find_iff.mpr ⟨member, rfl⟩⟩

/-! ## Dependencies between committed transactions -/

/-- What another transaction depends on stands before it. -/
theorem Dependent.before (dependent : s.Dependent) {t t' : Txn Obj Val} (inside : t ∈ s.committed)
    (inside' : t' ∈ s.committed) (other : t'.endTime ≠ t.endTime) (depends : Depends t t') :
    Before s.queue t.endTime t'.endTime := by
  cases depends with
  | overwrites x writes writes' later =>
      exact dependent.overwritten x t inside t' inside' writes writes' later
  | reads x value writes read seen =>
      exact dependent.read t inside t' inside' x value writes read seen
  | overwritesRead x value k counts read writes unseen =>
      exact (dependent.validated.committed t inside k counts x value read).committed t' inside'
        writes unseen other

variable [DecidableEq Obj] {A : Addresses ι} {init : Obj → Val}

/-- For one object the order of the queue is that of the end times. -/
theorem Dependent.writers_inQueue (dependent : s.Dependent) (distinct : s.Distinct)
    (queued : s.Queued) (split : s.queue = front ++ back) (x : Obj) :
    ByEndTime (writers x (s.inQueue front)) := by
  have nodup : front.Nodup := (List.nodup_append.mp (split ▸ queued.nodup)).1
  refine List.pairwise_filter.mpr (List.pairwise_filterMap.mpr ?_)
  refine List.Pairwise.imp₂ (fun e e' behind other t found t' found' writes writes' => ?_)
    (Before.pairwise split queued.nodup) nodup
  obtain ⟨inside, rfl⟩ := distinct.find_iff.mp found
  obtain ⟨inside', rfl⟩ := distinct.find_iff.mp found'
  rcases Nat.lt_trichotomy t.endTime t'.endTime with less | same | more
  · exact less
  · exact absurd same other
  · exact absurd (dependent.overwritten x t' inside' t inside (of_decide_eq_true writes')
      (of_decide_eq_true writes) more) behind

/-- Of one object, what stands in front of an entry whose transaction has read it are the
transactions that ended by the begin of that one. -/
theorem Dependent.writers_front (dependent : s.Dependent) (sound : Sound A init s)
    (queued : s.Queued) {t : Txn Obj Val} (split : s.queue = front ++ t.endTime :: back)
    (inside : t ∈ s.committed) {k : ℕ} {value : Val} (counts : k ∈ (own t.events).reads)
    (read : t.events[k]? = some (.read x value)) :
    writers x (s.inQueue front) =
      (writers x s.order).filter fun t' => t'.endTime ≤ t.startTime := by
  have distinct := sound.distinct
  have first := dependent.writers_inQueue distinct queued split x
  have second : ByEndTime ((writers x s.order).filter fun t' => t'.endTime ≤ t.startTime) :=
    (distinct.byEndTime.writers x).filter _
  have once : t.endTime ∉ front := fun twice => by
    have nodup := queued.nodup
    rw [split] at nodup
    exact (List.nodup_append.mp nodup).2.2 _ twice _ List.mem_cons_self rfl
  refine first.eq_of_mem_iff second fun t' => ?_
  rw [List.mem_filter, mem_writers, mem_writers, distinct.mem_inQueue, decide_eq_true_iff,
    (perm_order s).mem_iff]
  constructor
  · rintro ⟨⟨member, before⟩, writes⟩
    refine ⟨⟨member, writes⟩, ?_⟩
    by_contra late
    have other : t'.endTime ≠ t.endTime := fun same => once (same ▸ before)
    exact Before.not_of_mem_front split once before (dependent.before inside member other
      (.overwritesRead x value k counts read writes (by omega)))
  · rintro ⟨⟨member, writes⟩, early⟩
    exact ⟨⟨member, (dependent.read t' member t inside x value writes
      (List.mem_of_getElem? read) early).mem_front split⟩, writes⟩

/-! ## The transactions of a beginning of the queue -/

/-- What holds of the queue: a transaction stands behind those it depends on, and the transactions
in a beginning of the queue are a serial execution. -/
structure Replayable (init : Obj → Val) (s : State ι Obj Obj Val) : Prop where
  before : ∀ t ∈ s.committed, ∀ t' ∈ s.committed, t'.endTime ≠ t.endTime → Depends t t' →
    Before s.queue t.endTime t'.endTime
  inside : ∀ t ∈ s.committed, t.endTime ∈ s.queue
  reproduced : ∀ front back, s.queue = front ++ back → ∀ (i : ℕ) t, (s.inQueue front)[i]? = some t →
    ∀ k ∈ (own t.events).reads, Returns (serial init ((s.inQueue front).take i)) t.events k
  leaves : ∀ front back, s.queue = front ++ back → serial init (s.inQueue front) =
    serial init (s.order.filter fun t => t.endTime ∈ front)

theorem Dependent.replays (dependent : s.Dependent) (sound : Sound A init s)
    (queued : s.Queued) : Replayable init s where
  before t inside t' inside' := dependent.before inside inside'
  inside := queued.committed
  reproduced front back split i t at_ k counts x value read := by
    obtain ⟨front', e, back', rfl, found, taken⟩ := split_filterMap at_
    obtain ⟨member, rfl⟩ := sound.distinct.find_iff.mp found
    rw [List.append_assoc] at split
    have seen := sound.read.ended t (List.mem_append_left _ (List.mem_append_left _ member))
    rw [sound.returns_snapshot seen k x value read]
    refine apply_congr (serial_eq_of_writers ?_)
    rw [writers_filter, inQueue, taken]
    exact (dependent.writers_front sound queued split member counts read).symm
  leaves front back split := by
    funext x
    apply serial_eq_of_writers
    refine (dependent.writers_inQueue sound.distinct queued split x).eq_of_mem_iff
      (ByEndTime.writers (sound.distinct.byEndTime.filter _) x) fun t => ?_
    rw [mem_writers, mem_writers, sound.distinct.mem_inQueue, List.mem_filter,
      (perm_order s).mem_iff, decide_eq_true_iff]

variable [DecidableEq ι]

/-- The entries of the output queue respect the dependencies of the transactions, in any
interleaving. -/
theorem replayable (initial : Initial s) (reaches : Reaches (step A id) anyStep s s') :
    Replayable s.memory s' := by
  have all : s'.Dependent ∧ s'.Queued ∧ Sound A s.memory s' := by
    induction reaches with
    | start => exact ⟨initial.dependent, initial.queued, initial.sound⟩
    | step before met moved ih =>
        obtain ⟨dependent, queued, sound⟩ := ih
        have move := move_of_step moved
        exact ⟨dependent.move sound queued move,
          queued.move sound.locked sound.distinct move, sound.move move⟩
  exact all.1.replays all.2.2 all.2.1

/-- The second transaction draws its end time first, and pushes its entry last. -/
def crossing : List (Bool × Action Bool Bool ℕ) :=
  [(true, .trBegin), (false, .trBegin), (true, .utilLock true), (true, .write true 7),
    (false, .utilLock false), (false, .write false 8), (true, .trCommit), (false, .trCommit),
    (false, .advance), (true, .advance), (true, .advance), (true, .advance), (true, .advance),
    (false, .advance), (false, .advance), (false, .advance), (true, .trBegin),
    (true, .load false), (true, .advance), (true, .utilLock true), (true, .write true 9),
    (true, .trCommit), (true, .advance), (true, .advance), (true, .advance)]

theorem replayable_crossing : ∃ t,
    runSteps (step twoHandles id) (fresh Bool Bool Bool) crossing = some t ∧
    t.queue = [5, 3, 7] ∧ Replayable (fresh Bool Bool Bool).memory t := by
  have reaches := reaches_of_runSteps (.start (s := fresh Bool Bool Bool)) (fun _ _ _ => trivial)
    (show runSteps (step twoHandles id) _ crossing = some _ from rfl)
  exact ⟨_, rfl, rfl, replayable (fresh_initial Bool Bool Bool) reaches⟩

end State

end HybridDatabase.Stm
