/-
# What stands in memory

Where no handle has the lock, memory is what the committed transactions have left.  Where a
handle has it, memory is that with the writes the handle has made; its log holds what stood in
the object before each of them.
-/

import HybridDatabase.Stm.Locks

namespace HybridDatabase.Stm

open HybridDatabase.Base

universe u v w

variable {ι : Type u} {Obj : Type v} {Val : Type w}

namespace Handle

/-- The writes that count. -/
def writes (H : Handle Obj Obj Val) : List (Obj × Val) := (own H.events).writes

/-- The writes that stand in memory. -/
def made (H : Handle Obj Obj Val) : List (Obj × Val) := H.writes.take H.log.length

/-- No other transaction that has written to an object of the handle ended later. -/
def bound (H : Handle Obj Obj Val) : ℕ :=
  match H.stage with
  | .unlocking endTime => endTime
  | _ => H.startTime

end Handle

theorem Handle.bound_of_not_unlocks {H : Handle Obj Obj Val} (not : H.stage.unlocks = false) :
    H.bound = H.startTime := by
  unfold bound
  split
  next unlocking =>
      rw [unlocking] at not
      cases not
  next => rfl

section Invariant

variable [DecidableEq Obj]

/-- The log belongs to the writes: the item at a position is that of the write there, and holds
what stood in the object before. -/
structure Logged (base : Obj → Val) (H : Handle Obj Obj Val) : Prop where
  owned : ∀ item ∈ H.log, item.1 ∈ H.acquiredLocks
  short : H.log.length ≤ H.writes.length
  item : ∀ i x old, H.log[i]? = some (x, old) →
    (∃ value, H.writes[i]? = some (x, value)) ∧ old = apply base (H.writes.take i) x
  whole : H.stage.whole = true → H.log.length = H.writes.length
  levels : H.transactions.map Prod.snd = (own H.events).marks.map Prod.snd
  rolling : ∀ pos main, H.stage = .rollingBack pos main → pos ≤ H.log.length ∧
    (main = true → pos = 0) ∧
    (main = false → ∃ mark marks, (own H.events).marks = mark :: marks ∧ mark.2 = pos)

namespace State

/-- What the committed transactions have left. -/
def base (init : Obj → Val) (s : State ι Obj Obj Val) : Obj → Val := serial init s.committed

/-- What stands in the objects of a handle. -/
structure Stands (base memory : Obj → Val) (committed : List (Txn Obj Val))
    (H : Handle Obj Obj Val) : Prop where
  logged : H.stage.unlocks = false → Logged base H
  made : ∀ x ∈ H.acquiredLocks, H.stage.unlocks = false → memory x = apply base H.made x
  ended : ∀ x ∈ H.acquiredLocks, H.stage.unlocks = true → memory x = base x
  bound : ∀ x ∈ H.acquiredLocks, ∀ t ∈ committed, t.Writes x → t.endTime ≤ H.bound

/-- The invariant of memory. -/
structure Valued (init : Obj → Val) (s : State ι Obj Obj Val) : Prop where
  stands : ∀ h, Stands (s.base init) s.memory s.committed (s.handles h)
  free : ∀ x, s.locks x % 2 = 1 → s.memory x = s.base init x
  version : ∀ x, s.locks x % 2 = 1 → ∀ t ∈ s.committed, t.Writes x → t.endTime ≤ s.locks x
  sorted : ∀ x, ByEndTime (writers x s.committed)

end State

end Invariant

/-! ## The log -/

section Log

variable [DecidableEq Obj] {base base' : Obj → Val} {H H' : Handle Obj Obj Val} {x : Obj}
  {value : Val}

namespace Logged

/-- The objects that have been written to are owned. -/
theorem owns_of_made (logged : Logged base H) (written : x ∈ H.made.map Prod.fst) :
    x ∈ H.acquiredLocks := by
  obtain ⟨⟨y, value⟩, inside, rfl⟩ := List.mem_map.mp written
  obtain ⟨i, at_⟩ := List.mem_iff_getElem?.mp inside
  have low : i < H.log.length := by
    have := (List.getElem?_eq_some_iff.mp at_).1
    rw [Handle.made, List.length_take] at this
    omega
  have item : H.log[i]? = some (H.log[i].1, H.log[i].2) := List.getElem?_eq_getElem low
  obtain ⟨⟨value', same⟩, -⟩ := logged.item i _ _ item
  rw [Handle.made, List.getElem?_take_of_lt low, same] at at_
  obtain ⟨rfl, -⟩ := Prod.mk.inj (Option.some.inj at_)
  exact logged.owned H.log[i] (List.getElem_mem low)

/-- Where all writes stand in memory, every object that is written to is owned. -/
theorem owns_of_writes (logged : Logged base H) (whole : H.stage.whole = true)
    (written : x ∈ H.writes.map Prod.fst) : x ∈ H.acquiredLocks := by
  apply logged.owns_of_made
  rwa [Handle.made, logged.whole whole, List.take_length]

/-- Other committed values, but not in the objects of the handle. -/
theorem congr (logged : Logged base H) (same : ∀ x ∈ H.acquiredLocks, base' x = base x) :
    Logged base' H where
  owned := logged.owned
  short := logged.short
  item i x old at_ := by
    obtain ⟨written, before⟩ := logged.item i x old at_
    exact ⟨written, before.trans (apply_congr (same x
      (logged.owned _ (List.mem_of_getElem? at_))).symm)⟩
  whole := logged.whole
  levels := logged.levels
  rolling := logged.rolling

/-- A write. -/
theorem write (logged : Logged base H) (running : H.stage = .running) (owns : x ∈ H.acquiredLocks)
    (old : Val) (before : old = apply base H.made x) (value : Val) :
    Logged base { H with
      log := H.log ++ [(x, old)]
      events := H.events ++ [.write x value] } := by
  have whole := logged.whole (by rw [running]; rfl)
  have made : H.made = H.writes := by rw [Handle.made, whole, List.take_length]
  rw [made] at before
  have events : own (H.events ++ [.write x value]) = (own H.events).add (.write x value) :=
    own_concat _ _
  have writes : Handle.writes { H with
      log := H.log ++ [(x, old)]
      events := H.events ++ [.write x value] } = H.writes ++ [(x, value)] :=
    congrArg Own.writes events
  constructor
  · intro item inside
    rcases List.mem_append.mp inside with older | last
    · exact logged.owned item older
    · rw [List.mem_singleton.mp last]
      exact owns
  · rw [writes, List.length_append, List.length_append, whole]
    exact Nat.le_refl _
  · intro i y old' at_
    rw [writes]
    have at_ : (H.log ++ [(x, old)])[i]? = some (y, old') := at_
    rcases Nat.lt_trichotomy i H.log.length with low | rfl | high
    · rw [List.getElem?_append_left low] at at_
      obtain ⟨⟨value', written⟩, before'⟩ := logged.item i y old' at_
      rw [List.getElem?_append_left (whole ▸ low), List.take_append_of_le_length (by omega)]
      exact ⟨⟨value', written⟩, before'⟩
    · rw [List.getElem?_concat_length] at at_
      obtain ⟨rfl, rfl⟩ := Prod.mk.inj (Option.some.inj at_)
      rw [whole, List.getElem?_concat_length, List.take_left]
      exact ⟨⟨value, rfl⟩, before⟩
    · have inside := (List.getElem?_eq_some_iff.mp at_).1
      rw [List.length_append, List.length_singleton] at inside
      omega
  · intro _
    rw [writes, List.length_append, List.length_append, whole]
    rfl
  · show H.transactions.map Prod.snd = (own (H.events ++ [.write x value])).marks.map Prod.snd
    rw [events]
    exact logged.levels
  · exact fun pos main rolling => (nomatch running.symm.trans rolling)

theorem made_write (logged : Logged base H) (running : H.stage = .running) (old value : Val) :
    Handle.made { H with
      log := H.log ++ [(x, old)]
      events := H.events ++ [.write x value] } = H.made ++ [(x, value)] := by
  have whole := logged.whole (by rw [running]; rfl)
  show (own (H.events ++ [.write x value])).writes.take (H.log ++ [(x, old)]).length = _
  have length : (H.log ++ [(x, old)]).length = (H.writes ++ [(x, value)]).length := by
    rw [List.length_append, List.length_append, whole]
    rfl
  rw [own_concat, length, Handle.made, whole, List.take_length]
  exact List.take_length

/-- A round of a rollback. -/
theorem undo (logged : Logged base H) {pos : ℕ} {main : Bool} {rest : List (Obj × Val)} {old : Val}
    (rolling : H.stage = .rollingBack pos main) (log : H.log = rest ++ [(x, old)])
    (above : rest.length + 1 ≠ pos) : Logged base { H with log := rest } := by
  have length : H.log.length = rest.length + 1 := by
    rw [log, List.length_append, List.length_singleton]
  have short := logged.short
  constructor
  · exact fun item inside => logged.owned item (log ▸ List.mem_append_left _ inside)
  · show rest.length ≤ H.writes.length
    omega
  · intro i y old' at_
    have at_ : rest[i]? = some (y, old') := at_
    apply logged.item i y old'
    rw [log, List.getElem?_append_left (List.getElem?_eq_some_iff.mp at_).1]
    exact at_
  · intro whole
    have whole : H.stage.whole = true := whole
    rw [rolling] at whole
    cases whole
  · exact logged.levels
  · intro pos' main' rolling'
    obtain ⟨rfl, rfl⟩ := Stage.rollingBack.inj (rolling.symm.trans rolling')
    obtain ⟨le, isMain, nested⟩ := logged.rolling pos main rolling
    refine ⟨?_, isMain, nested⟩
    show pos ≤ rest.length
    omega

/-- The same log and the same writes. -/
theorem of_writes (logged : Logged base H) (log : H'.log = H.log)
    (acquiredLocks : H'.acquiredLocks = H.acquiredLocks) (writes : H'.writes = H.writes)
    (whole : H'.stage.whole = true → H.log.length = H.writes.length)
    (levels : H'.transactions.map Prod.snd = (own H'.events).marks.map Prod.snd)
    (rolling : ∀ pos main, H'.stage = .rollingBack pos main → pos ≤ H.log.length ∧
      (main = true → pos = 0) ∧
      (main = false → ∃ mark marks, (own H'.events).marks = mark :: marks ∧ mark.2 = pos)) :
    Logged base H' where
  owned := by
    rw [log, acquiredLocks]
    exact logged.owned
  short := by
    rw [log, writes]
    exact logged.short
  item := by
    rw [log, writes]
    exact logged.item
  whole := by
    rw [log, writes]
    exact whole
  levels := levels
  rolling := by
    rw [log]
    exact rolling

/-- The writes of an aborted nested transaction do not count. -/
theorem writes_nestedUndone (logged : Logged base H) {pos : ℕ}
    (rolling : H.stage = .rollingBack pos false) : Handle.writes { H with
      transactions := H.transactions.tail
      stage := .running
      events := H.events ++ [.trAbort] } = H.writes.take pos := by
  obtain ⟨-, -, nested⟩ := logged.rolling pos false rolling
  obtain ⟨mark, marks, levels, at_⟩ := nested rfl
  show (own (H.events ++ [.trAbort])).writes = _
  rw [own_concat, Own.add, levels]
  exact congrArg (H.writes.take ·) at_

/-- The end of the rollback of a nested transaction. -/
theorem nestedUndone (logged : Logged base H) {pos : ℕ}
    (rolling : H.stage = .rollingBack pos false) (back : H.log.length = pos) :
    Logged base { H with
      transactions := H.transactions.tail
      stage := .running
      events := H.events ++ [.trAbort] } := by
  have writes := logged.writes_nestedUndone rolling
  have short := logged.short
  constructor
  · exact logged.owned
  · rw [writes, List.length_take]
    show H.log.length ≤ _
    omega
  · intro i x old item
    have inside := (List.getElem?_eq_some_iff.mp item).1
    have low : i < pos := back ▸ inside
    obtain ⟨written, before⟩ := logged.item i x old item
    rw [writes, List.getElem?_take_of_lt low, List.take_take, Nat.min_eq_left (Nat.le_of_lt low)]
    exact ⟨written, before⟩
  · intro _
    rw [writes, List.length_take]
    show H.log.length = _
    omega
  · show H.transactions.tail.map Prod.snd = (own (H.events ++ [.trAbort])).marks.map Prod.snd
    rw [own_concat, List.map_tail, logged.levels, ← List.map_tail]
    rfl
  · exact fun _ _ rolling => (nomatch rolling)

/-- What is undone stood in the object before the write. -/
theorem made_undo (logged : Logged base H) {rest : List (Obj × Val)} {old : Val}
    (log : H.log = rest ++ [(x, old)]) : ∃ value,
      H.made = H.writes.take rest.length ++ [(x, value)] ∧
        old = apply base (H.writes.take rest.length) x := by
  have at_ : H.log[rest.length]? = some (x, old) := by rw [log, List.getElem?_concat_length]
  obtain ⟨⟨value, written⟩, before⟩ := logged.item _ _ _ at_
  refine ⟨value, ?_, before⟩
  obtain ⟨inside, here⟩ := List.getElem?_eq_some_iff.mp written
  rw [Handle.made, log, List.length_append, List.length_singleton,
    List.take_succ_eq_append_getElem inside, here]

end Logged

/-- An idle handle. -/
theorem logged_cleanup (base : Obj → Val) : Logged base (.cleanup : Handle Obj Obj Val) where
  owned _ inside := (nomatch inside)
  short := Nat.le_refl 0
  item _ _ _ at_ := (nomatch at_)
  whole _ := rfl
  levels := rfl
  rolling _ _ rolling := (nomatch rolling)

end Log

namespace State

variable [DecidableEq Obj] {A : Addresses ι} {s s' : State ι Obj Obj Val} {h : ι}
  {init : Obj → Val} {base : Obj → Val}

/-- What a quiet move keeps: the log belongs to the writes, and as long as the handle has locks
the same writes stand in memory. -/
structure KeptValues (base : Obj → Val) (H H' : Handle Obj Obj Val) : Prop where
  logged : Logged base H'
  unlocks : H'.stage.unlocks = false
  made : H'.acquiredLocks ≠ [] → H.stage.unlocks = false ∧ H'.made = H.made ∧ H'.bound = H.bound

theorem KeptValues.of_writes {H H' : Handle Obj Obj Val} (logged : Logged base H)
    (not : H.stage.unlocks = false) (not' : H'.stage.unlocks = false) (log : H'.log = H.log)
    (acquiredLocks : H'.acquiredLocks = H.acquiredLocks) (writes : H'.writes = H.writes)
    (startTime : H'.startTime = H.startTime)
    (whole : H'.stage.whole = true → H.log.length = H.writes.length)
    (levels : H'.transactions.map Prod.snd = (own H'.events).marks.map Prod.snd)
    (rolling : ∀ pos main, H'.stage = .rollingBack pos main → pos ≤ H.log.length ∧
      (main = true → pos = 0) ∧
      (main = false → ∃ mark marks, (own H'.events).marks = mark :: marks ∧ mark.2 = pos)) :
    KeptValues base H H' where
  logged := logged.of_writes log acquiredLocks writes whole levels rolling
  unlocks := not'
  made _ := by
    refine ⟨not, ?_, ?_⟩
    · rw [Handle.made, Handle.made, log, writes]
    · rw [Handle.bound_of_not_unlocks not, Handle.bound_of_not_unlocks not', startTime]

/-- Another stage in which the writes stand in memory. -/
theorem KeptValues.of_stage {H : Handle Obj Obj Val} (logged : Logged base H)
    (not : H.stage.unlocks = false) (whole : H.stage.whole = true) {stage : Stage Obj Obj Val}
    (not' : stage.unlocks = false) (rolling : ∀ pos main, stage ≠ .rollingBack pos main) :
    KeptValues base H { H with stage := stage } :=
  .of_writes logged not not' rfl rfl rfl rfl (fun _ => logged.whole whole) logged.levels
    fun pos main back => absurd back (rolling pos main)

theorem Quiet.keptValues {H : Handle Obj Obj Val} (quiet : Quiet A s h H)
    (timed : Timed s.time (s.handles h))
    (logged : (s.handles h).stage.unlocks = false → Logged base (s.handles h)) :
    KeptValues base (s.handles h) H := by
  cases quiet with
  | trBegin idle =>
      have fresh := timed.idle idle
      refine ⟨?_, rfl, fun locks => absurd (congrArg Handle.acquiredLocks fresh) locks⟩
      rw [fresh]
      exact (logged_cleanup base).of_writes rfl rfl rfl (fun _ => rfl) rfl
        fun _ _ rolling => (nomatch rolling)
  | nested running =>
      have not : (s.handles h).stage.unlocks = false := by rw [running]; rfl
      have whole := (logged not).whole (by rw [running]; rfl)
      have events := own_concat (s.handles h).events .trBegin
      have writes : (own ((s.handles h).events ++ [.trBegin])).writes =
          (own (s.handles h).events).writes := by
        rw [events]
        rfl
      refine .of_writes (logged not) not not rfl rfl writes rfl
        (fun _ => whole) ?_ fun _ _ rolling => (nomatch running.symm.trans rolling)
      show (s.handles h).log.length :: (s.handles h).transactions.map Prod.snd =
        (own ((s.handles h).events ++ [.trBegin])).marks.map Prod.snd
      rw [events, whole, (logged not).levels]
      rfl
  | nestedCommit running transactions =>
      have not : (s.handles h).stage.unlocks = false := by rw [running]; rfl
      have whole := (logged not).whole (by rw [running]; rfl)
      have events := own_concat (s.handles h).events .trCommit
      have writes : (own ((s.handles h).events ++ [.trCommit])).writes =
          (own (s.handles h).events).writes := by
        rw [events]
        rfl
      refine .of_writes (logged not) not not rfl rfl writes rfl
        (fun _ => whole) ?_ fun _ _ rolling => (nomatch running.symm.trans rolling)
      have levels := congrArg List.tail (logged not).levels
      rw [← List.map_tail, ← List.map_tail, transactions] at levels
      show _ = (own ((s.handles h).events ++ [.trCommit])).marks.map Prod.snd
      rw [events]
      exact levels
  | load x running =>
      have not : (s.handles h).stage.unlocks = false := by rw [running]; rfl
      have whole := (logged not).whole (by rw [running]; rfl)
      exact .of_writes (logged not) not rfl rfl rfl rfl rfl (fun _ => whole) (logged not).levels
        fun _ _ rolling => (nomatch rolling)
  | unchecked x running =>
      have not : (s.handles h).stage.unlocks = false := by rw [running]; rfl
      have whole := (logged not).whole (by rw [running]; rfl)
      exact .of_writes (logged not) not not rfl rfl rfl rfl (fun _ => whole) (logged not).levels
        fun _ _ rolling => (nomatch running.symm.trans rolling)
  | @checked x value reading ok =>
      have not : (s.handles h).stage.unlocks = false := by rw [reading]; rfl
      have whole := (logged not).whole (by rw [reading]; rfl)
      have events := own_concat (s.handles h).events (.read x value)
      have writes : (own ((s.handles h).events ++ [.read x value])).writes =
          (own (s.handles h).events).writes := by
        rw [events]
        rfl
      refine .of_writes (logged not) not rfl rfl rfl writes rfl
        (fun _ => whole) ?_ fun _ _ rolling => (nomatch rolling)
      show _ = (own ((s.handles h).events ++ [.read x value])).marks.map Prod.snd
      rw [events]
      exact (logged not).levels
  | failed reading =>
      have not : (s.handles h).stage.unlocks = false := by rw [reading]; rfl
      have whole := (logged not).whole (by rw [reading]; rfl)
      exact .of_writes (logged not) not rfl rfl rfl rfl rfl (fun _ => whole) (logged not).levels
        fun _ _ rolling => (nomatch rolling)
  | @nestedAbort readSet pos rest running transactions =>
      have not : (s.handles h).stage.unlocks = false := by rw [running]; rfl
      have whole := (logged not).whole (by rw [running]; rfl)
      have levels := (logged not).levels
      refine .of_writes (logged not) not rfl rfl rfl rfl rfl (fun whole => (nomatch whole)) levels
        fun pos' main rolling => ?_
      obtain ⟨rfl, rfl⟩ := Stage.rollingBack.inj rolling
      rw [transactions, List.map_cons] at levels
      obtain ⟨mark, marks, split, at_, -⟩ := List.map_eq_cons_iff.mp levels.symm
      refine ⟨?_, fun main => (nomatch main), fun _ => ⟨mark, marks, split, at_⟩⟩
      have within := (sorted_own (s.handles h).events).within mark (split ▸ List.mem_cons_self)
      rw [whole]
      exact Nat.le_trans (Nat.le_of_eq at_.symm) within.2
  | mainAbort stage =>
      have both : (s.handles h).stage.unlocks = false ∧ (s.handles h).stage.whole = true := by
        rcases stage with running | ⟨endTime, rest, validating⟩
        · rw [running]
          exact ⟨rfl, rfl⟩
        · rw [validating]
          exact ⟨rfl, rfl⟩
      refine .of_writes (logged both.1) both.1 rfl rfl rfl rfl rfl (fun whole => (nomatch whole))
        (logged both.1).levels fun pos main rolling => ?_
      obtain ⟨rfl, rfl⟩ := Stage.rollingBack.inj rolling
      exact ⟨Nat.zero_le _, fun _ => rfl, fun nested => (nomatch nested)⟩
  | validated validating ok =>
      have not : (s.handles h).stage.unlocks = false := by rw [validating]; rfl
      have whole := (logged not).whole (by rw [validating]; rfl)
      exact .of_writes (logged not) not rfl rfl rfl rfl rfl (fun _ => whole) (logged not).levels
        fun _ _ rolling => (nomatch rolling)
  | @nestedUndone pos rolling back =>
      have not : (s.handles h).stage.unlocks = false := by rw [rolling]; rfl
      have writes := (logged not).writes_nestedUndone rolling
      refine ⟨(logged not).nestedUndone rolling back, rfl, fun _ => ⟨not, ?_,
        (Handle.bound_of_not_unlocks not).symm⟩⟩
      rw [Handle.made, Handle.made, writes]
      show (Handle.writes _ |>.take pos).take (s.handles h).log.length = _
      rw [back, List.take_take, Nat.min_self]
  | cleanup unlocking free =>
      exact ⟨logged_cleanup base, rfl, fun locks => absurd rfl locks⟩

/-! ## Moves -/

theorem Initial.valued (initial : Initial s) : Valued s.memory s where
  stands h := by
    rw [initial.handles h]
    exact ⟨fun _ => logged_cleanup _, fun _ inside => (nomatch inside),
      fun _ inside => (nomatch inside), fun _ inside => (nomatch inside)⟩
  free x _ := by
    rw [base, initial.committed]
    rfl
  version x _ t inside := by
    rw [initial.committed] at inside
    cases inside
  sorted x := by
    rw [initial.committed]
    exact List.Pairwise.nil

/-- A handle whose objects stay as they are. -/
theorem Stands.congr {base' memory memory' : Obj → Val} {committed committed' : List (Txn Obj Val)}
    {H : Handle Obj Obj Val} (stands : Stands base memory committed H)
    (sameBase : ∀ x ∈ H.acquiredLocks, base' x = base x)
    (sameMemory : ∀ x ∈ H.acquiredLocks, memory' x = memory x)
    (older : ∀ x ∈ H.acquiredLocks, ∀ t ∈ committed', t.Writes x → t ∈ committed) :
    Stands base' memory' committed' H where
  logged not := (stands.logged not).congr sameBase
  made x owns not := by
    rw [sameMemory x owns, stands.made x owns not]
    exact apply_congr (sameBase x owns).symm
  ended x owns unlocks := by rw [sameMemory x owns, stands.ended x owns unlocks, sameBase x owns]
  bound x owns t inside writes := stands.bound x owns t (older x owns t inside writes) writes

theorem Stands.kept {memory : Obj → Val} {committed : List (Txn Obj Val)}
    {H H' : Handle Obj Obj Val}
    (stands : Stands base memory committed H) (kept : KeptValues base H H')
    (acquiredLocks : H'.acquiredLocks = H.acquiredLocks) :
    Stands base memory committed H' where
  logged _ := kept.logged
  made x owns _ := by
    obtain ⟨not, made, -⟩ := kept.made (List.ne_nil_of_mem owns)
    rw [made]
    exact stands.made x (acquiredLocks ▸ owns) not
  ended _ _ unlocks := (nomatch kept.unlocks.symm.trans unlocks)
  bound x owns := by
    obtain ⟨-, -, bound⟩ := kept.made (List.ne_nil_of_mem owns)
    rw [bound]
    exact stands.bound x (acquiredLocks ▸ owns)

/-- The locks are going to be freed, with nothing left in the log. -/
theorem Stands.unlocking {memory : Obj → Val} {committed : List (Txn Obj Val)}
    {H : Handle Obj Obj Val} (stands : Stands base memory committed H)
    (not : H.stage.unlocks = false) (log : H.log = []) {endTime : ℕ}
    (later : H.startTime ≤ endTime) :
    Stands base memory committed { H with stage := .unlocking endTime } where
  logged not := (nomatch not)
  made x owns not := (nomatch not)
  ended x owns _ := by
    rw [stands.made x owns not, Handle.made, log]
    rfl
  bound x owns t inside writes := by
    have bound := stands.bound x owns t inside writes
    rw [Handle.bound_of_not_unlocks not] at bound
    exact Nat.le_trans bound later

namespace Valued

variable [DecidableEq ι]

/-- A handle gets another record. -/
theorem setHandle (valued : Valued init s) {H : Handle Obj Obj Val} {time : ℕ}
    {queue : List ℕ} {readers aborted : List (Txn Obj Val)}
    (stands : Stands (s.base init) s.memory s.committed H) :
    Valued init ⟨time, s.memory, s.locks, Function.update s.handles h H, queue, s.committed,
      readers, aborted⟩ where
  stands h' := by
    by_cases here : h' = h
    · show Stands _ _ _ (Function.update s.handles h H h')
      rw [here, Function.update_self]
      exact stands
    · show Stands _ _ _ (Function.update s.handles h H h')
      rw [Function.update_of_ne here]
      exact valued.stands h'
  free := valued.free
  version := valued.version
  sorted := valued.sorted

/-- A lock that is acquired. -/
theorem lock (valued : Valued init s) (locked : Locked A s) (x : Obj)
    (running : (s.handles h).stage = .running) (free : s.locks x % 2 = 1)
    (old : s.locks x ≤ (s.handles h).startTime) : Valued init { s with
      locks := Function.update s.locks x (A.address h)
      handles := Function.update s.handles h
        { s.handles h with acquiredLocks := x :: (s.handles h).acquiredLocks } } := by
  have not : (s.handles h).stage.unlocks = false := by rw [running]; rfl
  have stands := valued.stands h
  have logged := stands.logged not
  have taken : ∀ y, Function.update s.locks x (A.address h) y % 2 = 1 →
      Function.update s.locks x (A.address h) y = s.locks y := by
    intro y free'
    by_cases here : y = x
    · rw [here, Function.update_self, A.aligned h] at free'
      cases free'
    · exact Function.update_of_ne here ..
  refine ⟨fun h' => ?_, fun y free' => ?_, fun y free' => ?_, valued.sorted⟩
  · show Stands _ _ _ (Function.update s.handles h _ h')
    by_cases here : h' = h
    · rw [here, Function.update_self]
      refine ⟨fun _ => ⟨fun item inside => List.mem_cons_of_mem _ (logged.owned item inside),
        logged.short, logged.item, logged.whole, logged.levels, logged.rolling⟩,
        fun y owns _ => ?_, fun _ _ unlocks => (nomatch not.symm.trans unlocks),
        fun y owns t inside writes => ?_⟩
      · rcases List.mem_cons.mp owns with rfl | older
        · have untouched : y ∉ (s.handles h).made.map Prod.fst := fun written =>
            absurd (locked.not_free (logged.owns_of_made written)) (by omega)
          exact (valued.free y free).trans (apply_of_notMem untouched).symm
        · exact stands.made y older not
      · rcases List.mem_cons.mp owns with rfl | older
        · have version := Nat.le_trans (valued.version y free t inside writes) old
          rw [← Handle.bound_of_not_unlocks not] at version
          exact version
        · exact stands.bound y older t inside writes
    · rw [Function.update_of_ne here]
      exact valued.stands h'
  · exact valued.free y (taken y free' ▸ free')
  · show ∀ t ∈ s.committed, t.Writes y → t.endTime ≤ Function.update s.locks x (A.address h) y
    rw [taken y free']
    exact valued.version y (taken y free' ▸ free')

/-- An object that is owned is changed. -/
theorem setMemory (valued : Valued init s) (locked : Locked A s) {x : Obj} (value : Val)
    {H : Handle Obj Obj Val} (owns : s.Owns h x)
    (stands : Stands (s.base init) (Function.update s.memory x value) s.committed H) :
    Valued init { s with
      memory := Function.update s.memory x value
      handles := Function.update s.handles h H } where
  stands h' := by
    show Stands _ _ _ (Function.update s.handles h _ h')
    by_cases here : h' = h
    · rw [here, Function.update_self]
      exact stands
    · rw [Function.update_of_ne here]
      refine (valued.stands h').congr (fun _ _ => rfl) (fun y owns' => ?_) fun _ _ _ inside _ => inside
      have other : y ≠ x := fun same => here (locked.unique owns' (same ▸ owns))
      exact Function.update_of_ne other ..
  free y free := by
    have other : y ≠ x := by
      rintro rfl
      exact absurd (locked.not_free owns) (by have : s.locks y % 2 = 1 := free; omega)
    exact (Function.update_of_ne other ..).trans (valued.free y free)
  version := valued.version
  sorted := valued.sorted

theorem write (valued : Valued init s) (locked : Locked A s) (x : Obj) (value : Val)
    (running : (s.handles h).stage = .running) (owns : s.Owns h x) : Valued init { s with
      memory := Function.update s.memory x value
      handles := Function.update s.handles h { s.handles h with
        log := (s.handles h).log ++ [(x, s.memory x)]
        events := (s.handles h).events ++ [.write x value] } } := by
  have not : (s.handles h).stage.unlocks = false := by rw [running]; rfl
  have stands := valued.stands h
  have logged := stands.logged not
  have written := logged.write running owns (s.memory x) (stands.made x owns not) value
  refine valued.setMemory locked value owns ⟨fun _ => written, fun y owns' _ => ?_,
    fun _ _ unlocks => (nomatch not.symm.trans unlocks), stands.bound⟩
  rw [logged.made_write running, apply_concat]
  by_cases here : y = x
  · rw [here, Function.update_self, Function.update_self]
  · rw [Function.update_of_ne here, Function.update_of_ne here]
    exact stands.made y owns' not

/-- A round of a rollback. -/
theorem undo (valued : Valued init s) (locked : Locked A s) {pos : ℕ} {main : Bool}
    {rest : List (Obj × Val)} {x : Obj} {old : Val}
    (rolling : (s.handles h).stage = .rollingBack pos main)
    (log : (s.handles h).log = rest ++ [(x, old)]) (above : rest.length + 1 ≠ pos) :
    Valued init { s with
      memory := Function.update s.memory x old
      handles := Function.update s.handles h { s.handles h with log := rest } } := by
  have not : (s.handles h).stage.unlocks = false := by rw [rolling]; rfl
  have stands := valued.stands h
  have logged := stands.logged not
  have owns : s.Owns h x :=
    logged.owned (x, old) (log ▸ List.mem_append_right _ (List.mem_singleton_self _))
  obtain ⟨value, made, before⟩ := logged.made_undo log
  refine valued.setMemory locked old owns ⟨fun _ => logged.undo rolling log above,
    fun y owns' _ => ?_, fun _ _ unlocks => (nomatch not.symm.trans unlocks), stands.bound⟩
  show Function.update s.memory x old y =
    apply (s.base init) ((s.handles h).writes.take rest.length) y
  by_cases here : y = x
  · rw [here, Function.update_self]
    exact before
  · rw [Function.update_of_ne here, stands.made y owns' not, made, apply_concat,
      Function.update_of_ne here]

/-- The end of a commit. -/
theorem commit (valued : Valued init s) (locked : Locked A s) {endTime : ℕ}
    (validated : (s.handles h).stage = .validating endTime []) : Valued init { s with
      handles := Function.update s.handles h { s.handles h with stage := .unlocking endTime }
      committed := s.committed ++ [(s.handles h).txn endTime] } := by
  have not : (s.handles h).stage.unlocks = false := by rw [validated]; rfl
  have stands := valued.stands h
  have logged := stands.logged not
  have whole := logged.whole (by rw [validated]; rfl)
  have later := ((locked.timed h).ended endTime (by rw [validated]; rfl)).1
  have made : (s.handles h).made = (s.handles h).writes := by
    rw [Handle.made, whole, List.take_length]
  have base' : serial init (s.committed ++ [(s.handles h).txn endTime]) =
      apply (s.base init) (s.handles h).writes := serial_concat ..
  have unwritten {x : Obj} (other : ¬ s.Owns h x) : ¬ ((s.handles h).txn endTime).Writes x :=
    fun writes => other (logged.owns_of_writes (by rw [validated]; rfl) writes)
  have same {x : Obj} (other : ¬ s.Owns h x) :
      serial init (s.committed ++ [(s.handles h).txn endTime]) x = s.base init x := by
    rw [base']
    exact apply_of_notMem (unwritten other)
  have older {x : Obj} (other : ¬ s.Owns h x) :
      ∀ t ∈ s.committed ++ [(s.handles h).txn endTime], t.Writes x → t ∈ s.committed := by
    intro t inside writes
    rcases List.mem_append.mp inside with before | last
    · exact before
    · exact absurd (List.mem_singleton.mp last ▸ writes) (unwritten other)
  have bound {x : Obj} (owns : s.Owns h x) {t : Txn Obj Val} (inside : t ∈ s.committed)
      (writes : t.Writes x) : t.endTime < endTime := by
    have bound := stands.bound x owns t inside writes
    rw [Handle.bound_of_not_unlocks not] at bound
    exact Nat.lt_of_le_of_lt bound later
  refine ⟨fun h' => ?_, fun x free => ?_, fun x free t inside writes => ?_, fun x => ?_⟩
  · show Stands (serial init (s.committed ++ [(s.handles h).txn endTime])) _
      (s.committed ++ [(s.handles h).txn endTime]) (Function.update s.handles h _ h')
    by_cases here : h' = h
    · rw [here, Function.update_self]
      refine ⟨fun not => (nomatch not), fun _ _ not => (nomatch not), fun x owns _ => ?_,
        fun x owns t inside writes => ?_⟩
      · rw [base', ← made]
        exact stands.made x owns not
      · rcases List.mem_append.mp inside with before | last
        · exact Nat.le_of_lt (bound owns before writes)
        · rw [List.mem_singleton.mp last]
          exact Nat.le_refl _
    · rw [Function.update_of_ne here]
      have other {x : Obj} (owns' : s.Owns h' x) : ¬ s.Owns h x :=
        fun owns => here (locked.unique owns' owns)
      exact (valued.stands h').congr (fun _ owns' => same (other owns')) (fun _ _ => rfl)
        fun _ owns' => older (other owns')
  · have other : ¬ s.Owns h x := fun owns => by
      have := locked.not_free owns
      have : s.locks x % 2 = 1 := free
      omega
    exact (valued.free x free).trans (same other).symm
  · have other : ¬ s.Owns h x := fun owns => by
      have := locked.not_free owns
      have : s.locks x % 2 = 1 := free
      omega
    exact valued.version x free t (older other t inside writes) writes
  · by_cases writes : ((s.handles h).txn endTime).Writes x
    · show ByEndTime (writers x (s.committed ++ [(s.handles h).txn endTime]))
      rw [writers_concat_of_writes writes]
      refine List.pairwise_append.mpr ⟨valued.sorted x, List.pairwise_singleton _ _, ?_⟩
      intro t inside t' last
      obtain ⟨inside, writes'⟩ := mem_writers.mp inside
      rw [List.mem_singleton.mp last]
      exact bound (logged.owns_of_writes (by rw [validated]; rfl) writes) inside writes'
    · show ByEndTime (writers x (s.committed ++ [(s.handles h).txn endTime]))
      rw [writers_concat_of_not_writes writes]
      exact valued.sorted x

/-- A lock that is freed. -/
theorem unlock (valued : Valued init s) (locked : Locked A s) {endTime : ℕ} {x : Obj}
    {rest : List Obj} (unlocking : (s.handles h).stage = .unlocking endTime)
    (acquired : (s.handles h).acquiredLocks = x :: rest) : Valued init { s with
      locks := if s.locks x = A.address h then Function.update s.locks x endTime else s.locks
      handles := Function.update s.handles h { s.handles h with acquiredLocks := rest } } := by
  have stands := valued.stands h
  have unlocks : (s.handles h).stage.unlocks = true := by rw [unlocking]; rfl
  have owns : x ∈ (s.handles h).acquiredLocks := acquired ▸ List.mem_cons_self
  rw [if_pos (locked.held h x owns)]
  have older {y : Obj} (inside : y ∈ rest) : y ∈ (s.handles h).acquiredLocks :=
    acquired ▸ List.mem_cons_of_mem x inside
  refine ⟨fun h' => ?_, fun y free => ?_, fun y free t inside writes => ?_, valued.sorted⟩
  · show Stands _ _ _ (Function.update s.handles h _ h')
    by_cases here : h' = h
    · rw [here, Function.update_self]
      exact ⟨fun not => (nomatch unlocks.symm.trans not),
        fun _ _ not => (nomatch unlocks.symm.trans not),
        fun y inside _ => stands.ended y (older inside) unlocks,
        fun y inside => stands.bound y (older inside)⟩
    · rw [Function.update_of_ne here]
      exact valued.stands h'
  · have free : Function.update s.locks x endTime y % 2 = 1 := free
    by_cases here : y = x
    · exact stands.ended y (here ▸ owns) unlocks
    · rw [Function.update_of_ne here] at free
      exact valued.free y free
  · show t.endTime ≤ Function.update s.locks x endTime y
    have free : Function.update s.locks x endTime y % 2 = 1 := free
    by_cases here : y = x
    · rw [here, Function.update_self]
      have bound := stands.bound x owns t inside (here ▸ writes)
      rwa [Handle.bound, unlocking] at bound
    · rw [Function.update_of_ne here] at free ⊢
      exact valued.version y free t inside writes

theorem move (valued : Valued init s) (locked : Locked A s) (move : Move A s h s') :
    Valued init s' := by
  have stands := valued.stands h
  have timed := locked.timed h
  cases move with
  | skip => exact valued
  | quiet quiet =>
      exact valued.setHandle (stands.kept (quiet.keptValues timed stands.logged)
        (quiet.kept timed).acquiredLocks)
  | lock x running free old => exact valued.lock locked x running free old
  | write x value running owned =>
      exact valued.write locked x value running (locked.owns_of_address owned)
  | commitReader running log main =>
      have later : (s.handles h).startTime ≤ s.time + 2 := Nat.le_add_right_of_le timed.started
      exact valued.setHandle (stands.unlocking (by rw [running]; rfl) log later)
  | draw running log main =>
      exact valued.setHandle (stands.kept (.of_stage (stands.logged (by rw [running]; rfl))
        (by rw [running]; rfl) (by rw [running]; rfl) rfl fun _ _ rolling => (nomatch rolling)) rfl)
  | push pushing =>
      exact valued.setHandle (stands.kept (.of_stage (stands.logged (by rw [pushing]; rfl))
        (by rw [pushing]; rfl) (by rw [pushing]; rfl) rfl fun _ _ rolling => (nomatch rolling)) rfl)
  | commit validated => exact valued.commit locked validated
  | undo rolling log above => exact valued.undo locked rolling log above
  | undone rolling back =>
      have not : (s.handles h).stage.unlocks = false := by rw [rolling]; rfl
      have later : (s.handles h).startTime ≤ s.time + 2 := Nat.le_add_right_of_le timed.started
      obtain ⟨-, isMain, -⟩ := (stands.logged not).rolling _ _ rolling
      exact valued.setHandle (stands.unlocking not
        (List.length_eq_zero_iff.mp (back.trans (isMain rfl))) later)
  | unlock unlocking acquired => exact valued.unlock locked unlocking acquired

end Valued

/-! ## What has been committed -/

/-- Where the check of a lock succeeds, all that have written to the object ended before the
transaction began. -/
theorem Valued.committed_of_lCheck (valued : Valued init s) (locked : Locked A s) {x : Obj}
    (not : (s.handles h).stage.unlocks = false) (ok : s.lCheck A h x = true) {t : Txn Obj Val}
    (inside : t ∈ s.committed) (writes : t.Writes x) : t.endTime ≤ (s.handles h).startTime := by
  rcases locked.lCheck_iff.mp ok with ⟨free, old⟩ | owns
  · exact Nat.le_trans (valued.version x free t inside writes) old
  · rw [← Handle.bound_of_not_unlocks not]
    exact (valued.stands h).bound x owns t inside writes

/-- What the transaction of a handle writes to is its own until the end. -/
theorem Valued.owns_of_writes (valued : Valued init s) {endTime : ℕ} {x : Obj}
    (validated : (s.handles h).stage = .validating endTime [])
    (writes : ((s.handles h).txn endTime).Writes x) : s.Owns h x :=
  ((valued.stands h).logged (by rw [validated]; rfl)).owns_of_writes (by rw [validated]; rfl) writes

theorem Valued.ends_of_writes (valued : Valued init s) {endTime : ℕ} {x : Obj}
    (validated : (s.handles h).stage = .validating endTime [])
    (writes : ((s.handles h).txn endTime).Writes x) : s.Ends x endTime :=
  ⟨h, valued.owns_of_writes validated writes, by rw [Ended, validated]; rfl⟩

variable [DecidableEq ι]

/-- The committed transactions, after a move. -/
theorem Move.committed (move : Move A s h s') : s'.committed = s.committed ∨
    ∃ endTime, (s.handles h).stage = .validating endTime [] ∧
      s'.committed = s.committed ++ [(s.handles h).txn endTime] := by
  cases move with
  | skip | quiet | lock | write | commitReader | draw | push | undo | undone | unlock =>
      exact .inl rfl
  | commit validated => exact .inr ⟨_, validated, rfl⟩

/-- A transaction that has just been committed had the locks of what it has written to. -/
theorem Valued.mem_committed (valued : Valued init s) (move : Move A s h s') {t : Txn Obj Val}
    {x : Obj} (inside : t ∈ s'.committed) (writes : t.Writes x) :
    t ∈ s.committed ∨ s.Ends x t.endTime := by
  rcases move.committed with same | ⟨endTime, validated, more⟩
  · exact .inl (same ▸ inside)
  · rw [more] at inside
    rcases List.mem_append.mp inside with before | last
    · exact .inl before
    · obtain rfl := List.mem_singleton.mp last
      exact .inr (valued.ends_of_writes validated writes)

/-- Memory changes where a handle has the lock, and has not ended. -/
theorem Valued.memory (valued : Valued init s) (locked : Locked A s) (move : Move A s h s')
    (x : Obj) : s'.memory x = s.memory x ∨
      s.Owns h x ∧ (∀ e, ¬ s.Ended h e) ∧ s'.locks = s.locks := by
  cases move with
  | skip | quiet | lock | commitReader | draw | push | commit | undone | unlock => exact .inl rfl
  | write y value running owned =>
      by_cases here : x = y
      · refine .inr ⟨here ▸ locked.owns_of_address owned, fun e ended => ?_, rfl⟩
        rw [Ended, running] at ended
        cases ended
      · exact .inl (Function.update_of_ne here ..)
  | @undo pos main rest y old rolling log above =>
      by_cases here : x = y
      · have logged := (valued.stands h).logged (by rw [rolling]; rfl)
        refine .inr ⟨here ▸ logged.owned (y, old)
          (log ▸ List.mem_append_right _ (List.mem_singleton_self _)), fun e ended => ?_, rfl⟩
        rw [Ended, rolling] at ended
        cases ended
      · exact .inl (Function.update_of_ne here ..)

end State

end HybridDatabase.Stm
