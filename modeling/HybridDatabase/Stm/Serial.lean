/-
# Serial executions

In the order of their end times the committed transactions are a serial execution: it leaves
what stands in memory, and every read that counts returns in it what it has returned.  Every
read at all, also of a transaction that is aborted, returns what the serial execution has left
at the begin of its transaction.
-/

import HybridDatabase.Stm.Validation
import Mathlib.Data.List.Sort

namespace HybridDatabase.Stm

open HybridDatabase.Base

universe u v w

variable {ι : Type u} {Obj : Type v} {Val : Type w}

/-! ## Orders -/

section Order

variable [DecidableEq Obj] {txns order : List (Txn Obj Val)} {t : Txn Obj Val} {x : Obj}
  {init : Obj → Val} {events : List (Event Obj Val)} {k : ℕ}

/-- If the event is a read, it returns what stands in memory, with the writes of the transaction
before it. -/
def Returns (m : Obj → Val) (events : List (Event Obj Val)) (k : ℕ) : Prop :=
  ∀ x value, events[k]? = some (.read x value) →
    value = apply m (own (events.take k)).writes x

theorem ByEndTime.writers (sorted : ByEndTime order) (x : Obj) : ByEndTime (writers x order) :=
  List.Pairwise.filter _ sorted

/-- For one object the order of commits is that of the end times. -/
theorem serial_eq_of_perm (perm : order.Perm txns) (sorted : ByEndTime order)
    (writes : ByEndTime (writers x txns)) : serial init order x = serial init txns x :=
  serial_eq_of_writers ((sorted.writers x).eq_of_perm writes (perm.filter _))

theorem snapshot_eq_of_perm {time : ℕ} (perm : order.Perm txns) (sorted : ByEndTime order)
    (writes : ByEndTime (writers x txns)) :
    snapshot init order time x = snapshot init txns time x := by
  apply serial_eq_of_writers
  rw [writers_filter, writers_filter]
  exact congrArg _ ((sorted.writers x).eq_of_perm writes (perm.filter _))

end Order

namespace State

/-- The committed transactions in the order of their end times. -/
def order (s : State ι Obj Obj Val) : List (Txn Obj Val) :=
  s.committed.mergeSort fun t t' => t.endTime ≤ t'.endTime

theorem perm_order (s : State ι Obj Obj Val) : s.order.Perm s.committed := List.mergeSort_perm _ _

theorem Distinct.byEndTime {s : State ι Obj Obj Val} (distinct : s.Distinct) :
    ByEndTime s.order := by
  have trans : ∀ t t' t'' : Txn Obj Val, decide (t.endTime ≤ t'.endTime) = true →
      decide (t'.endTime ≤ t''.endTime) = true → decide (t.endTime ≤ t''.endTime) = true := by
    intro t t' t'' first second
    exact decide_eq_true (Nat.le_trans (of_decide_eq_true first) (of_decide_eq_true second))
  have total : ∀ t t' : Txn Obj Val,
      (decide (t.endTime ≤ t'.endTime) || decide (t'.endTime ≤ t.endTime)) = true := by
    intro t t'
    exact Bool.or_eq_true_iff.mpr
      ((Nat.le_total t.endTime t'.endTime).imp decide_eq_true decide_eq_true)
  have sorted := List.pairwise_mergeSort trans total s.committed
  have nodup : (s.order.map Txn.endTime).Nodup :=
    ((perm_order s).map Txn.endTime).nodup_iff.mpr distinct.nodup
  refine List.Pairwise.imp₂ (fun t t' le ne => ?_) sorted (List.pairwise_map.mp nodup)
  exact Nat.lt_of_le_of_ne (of_decide_eq_true le) ne

variable [DecidableEq Obj] {A : Addresses ι} {s s' t : State ι Obj Obj Val} {h : ι}
  {init : Obj → Val}

/-! ## The invariant of all -/

/-- All invariants. -/
structure Sound (A : Addresses ι) (init : Obj → Val) (s : State ι Obj Obj Val) : Prop where
  locked : Locked A s
  valued : Valued init s
  read : s.Read init
  distinct : s.Distinct
  covers : ∀ h, Covers (s.handles h)
  validated : Validated s.Apart s

theorem Initial.sound (initial : Initial s) : Sound A s.memory s where
  locked := initial.locked
  valued := initial.valued
  read := initial.read
  distinct := initial.distinct
  covers h := by
    rw [initial.handles h]
    exact covers_cleanup
  validated := initial.validated

namespace Sound

theorem move [DecidableEq ι] (sound : Sound A init s) (move : Move A s h s') : Sound A init s' where
  locked := sound.locked.move move
  valued := sound.valued.move sound.locked move
  read := sound.read.move sound.locked sound.valued move
  distinct := sound.distinct.move sound.locked move
  covers h' := by
    by_cases here : h' = h
    · rw [here]
      exact move.covers (sound.covers h) (sound.locked.timed h) (sound.valued.stands h).logged
    · rw [move.other here]
      exact sound.covers h'
  validated := sound.validated.move sound.covers
    (fun _ _ _ validating ok => .of_lCheck sound.locked sound.valued
      (by rw [Pending, validating]; rfl) ok)
    (fun _ _ _ apart => apart.move sound.locked sound.valued move) move

theorem of_reaches [DecidableEq ι] {ok : State ι Obj Obj Val → ι × Action Obj Obj Val → Prop}
    (initial : Initial s) (reaches : Reaches (step A id) ok s s') : Sound A s.memory s' :=
  reaches.invariant initial.sound fun _ _ _ sound _ moved => sound.move (move_of_step moved)

/-! ## What the serial execution returns -/

/-- Every read returns what has been left by the transactions that ended before its own began. -/
theorem returns_snapshot (sound : Sound A init s) {startTime : ℕ} {events : List (Event Obj Val)}
    (seen : s.Seen init startTime events) (k : ℕ) :
    Returns (snapshot init s.order startTime) events k := by
  intro x value at_
  rw [seen.value k x value at_]
  exact apply_congr (snapshot_eq_of_perm (perm_order s) sound.distinct.byEndTime
    (sound.valued.sorted x)).symm

/-- A read that counts returns what the transactions that end before its own have left. -/
theorem returns_serial (sound : Sound A init s) {i : ℕ} {t : Txn Obj Val}
    (at_ : s.order[i]? = some t) {k : ℕ} (counts : k ∈ (own t.events).reads) :
    Returns (serial init (s.order.take i)) t.events k := by
  have inside : t ∈ s.committed := (perm_order s).mem_iff.mp (List.mem_of_getElem? at_)
  have sorted := sound.distinct.byEndTime
  have seen := sound.read.ended t (List.mem_append_left _ (List.mem_append_left _ inside))
  intro x value event
  have apart := sound.validated.committed t inside k counts x value event
  rw [sound.returns_snapshot seen k x value event]
  refine apply_congr (serial_eq_of_writers ?_)
  rw [sorted.take_eq_filter at_, writers_filter, writers_filter]
  refine List.filter_congr fun t' writer => ?_
  obtain ⟨member, writes⟩ := mem_writers.mp writer
  have apart := apart.committed t' ((perm_order s).mem_iff.mp member) writes
  have later := sound.distinct.started t inside
  rw [decide_eq_decide]
  omega

/-- A free object holds what the serial execution has left. -/
theorem memory_eq_serial (sound : Sound A init s) {x : Obj} (free : s.locks x % 2 = 1) :
    s.memory x = serial init s.order x := by
  rw [sound.valued.free x free, base]
  exact (serial_eq_of_perm (perm_order s) sound.distinct.byEndTime (sound.valued.sorted x)).symm

/-- Where no transaction is running, every object is free. -/
theorem free_of_idle (sound : Sound A init s) (idle : ∀ h, (s.handles h).stage = .idle) (x : Obj) :
    s.locks x % 2 = 1 := by
  rcases sound.locked.free_or_owns x with free | ⟨h, owns⟩
  · exact free
  · rw [Owns, (sound.locked.timed h).idle (idle h)] at owns
    cases owns

end Sound

/-- The committed transactions in the order of their end times are a serial execution that
reproduces the reads that count, and every read of a transaction that has ended or is running
returns what the transactions that ended before it began have left. -/
structure Serializable (counts : Txn Obj Val → ℕ → Prop) (init : Obj → Val)
    (s : State ι Obj Obj Val) : Prop where
  perm : s.order.Perm s.committed
  byEndTime : ByEndTime s.order
  ended : ∀ t ∈ s.committed ++ s.readers ++ s.aborted, ∀ k,
    Returns (serial init (s.order.filter fun t' => t'.endTime ≤ t.startTime)) t.events k
  running : ∀ h k, Returns
    (serial init (s.order.filter fun t => t.endTime ≤ (s.handles h).startTime))
    (s.handles h).events k
  reproduced : ∀ (i : ℕ) t, s.order[i]? = some t → ∀ k, counts t k →
    Returns (serial init (s.order.take i)) t.events k
  free : ∀ x, s.locks x % 2 = 1 → s.memory x = serial init s.order x
  final : (∀ h, (s.handles h).stage = .idle) → s.memory = serial init s.order

theorem Sound.serial (sound : Sound A init s) :
    Serializable (fun t k => k ∈ (own t.events).reads) init s where
  perm := perm_order s
  byEndTime := sound.distinct.byEndTime
  ended t inside := sound.returns_snapshot (sound.read.ended t inside)
  running h := sound.returns_snapshot (sound.read.running h)
  reproduced _ _ at_ _ counts := sound.returns_serial at_ counts
  free _ := sound.memory_eq_serial
  final idle := funext fun x => sound.memory_eq_serial (sound.free_of_idle idle x)

end State

end HybridDatabase.Stm
