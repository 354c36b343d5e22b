/-
# Levels of a transaction

An abort of any level leads back to the state in which that level began.  At every moment the
log extends the log of each begin by items that lead back to its memory, and the record of a
nested transaction says where that log ended: the address of its top item is still that of the
same item.
-/

import HybridDatabase.Rollback.Changes
import Mathlib.Data.List.Induction

namespace HybridDatabase.Rollback

open HybridDatabase.Base HybridDatabase.Storage HybridDatabase.Database HybridDatabase.Utils

namespace State

variable {T : DatabaseType} {L : NodeLayout T} {source : PageAlloc} {g h s t : State}
  {junk : Contents}

/-! ## What has happened since a state -/

/-- The log extends that of the earlier state by items that lead back to its memory, and the
read set extends its read set. -/
structure Extends (L : NodeLayout T) (g s : State) : Prop where
  log : ∃ old new, g.handle.log.Holds logBlockSize old ∧
    s.handle.log.Holds logBlockSize (old ++ new) ∧
    (∀ i < old.length, s.handle.log.address logBlockSize i = g.handle.log.address logBlockSize i) ∧
    g.memory.Undone L s.memory new
  readSet : g.handle.readSet <+: s.handle.readSet

namespace Extends

theorem trans (first : Extends L g h) (second : Extends L h s) : Extends L g s where
  log := by
    obtain ⟨old, new, below, above, same, undone⟩ := first.log
    obtain ⟨old', new', below', above', same', undone'⟩ := second.log
    obtain rfl := below'.unique above
    refine ⟨old, new ++ new', below, List.append_assoc old new new' ▸ above', fun i inside => ?_,
      undone.trans undone'⟩
    refine (same' i ?_).trans (same i inside)
    rw [List.length_append]
    omega
  readSet := first.readSet.trans second.readSet

/-- Items have been pushed. -/
theorem of_items {old items : List LogItem} (holds : s.handle.log.Holds logBlockSize old)
    (log : t.handle.log =
      items.foldl (fun log item => log.push logBlockSize source item) s.handle.log)
    (undone : s.memory.Undone L t.memory items) (readSet : s.handle.readSet <+: t.handle.readSet) :
    Extends L s t where
  log := by
    obtain ⟨all, same⟩ := holds.foldl_push (by decide : 0 < logBlockSize) source items
    exact ⟨old, items, holds, log ▸ all, log ▸ same, undone⟩
  readSet := readSet

/-- Nothing has been pushed. -/
theorem of_agrees {old : List LogItem} (holds : s.handle.log.Holds logBlockSize old)
    (log : t.handle.log = s.handle.log) (agrees : t.memory.Agrees L s.memory)
    (readSet : s.handle.readSet <+: t.handle.readSet) : Extends L s t where
  log := ⟨old, [], holds, log ▸ (List.append_nil old).symm ▸ holds, fun _ _ => log ▸ rfl,
    .refl agrees⟩
  readSet := readSet

end Extends

/-! ## Rollback -/

/-- A position is that of the top item, if there is one. -/
def Marks (pos : Option (ℕ × ℕ)) (log : FastStack LogItem) (items : List LogItem) : Prop :=
  match pos with
  | none => items = []
  | some pos => items ≠ [] ∧ log.address logBlockSize (items.length - 1) = pos

/-- The loops of a rollback stop exactly when they are back. -/
theorem atPos_iff {pos : Option (ℕ × ℕ)} {log : FastStack LogItem} {old new : List LogItem}
    (holds : log.Holds logBlockSize (old ++ new)) (marks : Marks pos log old) :
    atPos log pos = true ↔ new = [] := by
  cases pos with
  | none =>
      have bottom : old = [] := marks
      rw [bottom, List.nil_append] at holds
      exact holds.empty_iff
  | some pos =>
      obtain ⟨nonempty, at_⟩ := marks
      have some := List.length_pos_iff.mpr nonempty
      have top := holds.topAddress (List.append_ne_nil_of_left_ne_nil nonempty new)
      rw [List.length_append] at top
      rw [atPos, decide_eq_true_iff, top, ← at_]
      constructor
      · intro same
        have place := holds.address_injective (by rw [List.length_append]; omega)
          (by rw [List.length_append]; omega) same
        exact List.eq_nil_of_length_eq_zero (by omega)
      · rintro rfl
        rfl

/-- The state after a rollback. -/
structure Unwound (L : NodeLayout T) (junk : Contents) (s t : State) (old new : List LogItem) :
    Prop where
  memory : t.memory = s.memory.rollback L junk new
  log : t.handle.log.Holds logBlockSize old
  address : ∀ i < old.length,
    t.handle.log.address logBlockSize i = s.handle.log.address logBlockSize i
  readSet : t.handle.readSet = s.handle.readSet
  transactions : t.handle.transactions = s.handle.transactions
  startTime : t.handle.startTime = s.handle.startTime

/-- The loops of a rollback undo everything above the position. -/
theorem unwind_eq_some {pos : Option (ℕ × ℕ)} {old new : List LogItem} {fuel : ℕ}
    (holds : s.handle.log.Holds logBlockSize (old ++ new)) (marks : Marks pos s.handle.log old)
    (enough : new.length ≤ fuel) :
    ∃ t, unwind L junk pos fuel s = some t ∧ Unwound L junk s t old new := by
  induction new using List.reverseRecOn generalizing s fuel with
  | nil =>
      refine ⟨s, ?_, ?_⟩
      · unfold unwind
        exact if_pos ((atPos_iff holds marks).mpr rfl)
      · rw [List.append_nil] at holds
        exact ⟨rfl, holds, fun _ _ => rfl, rfl, rfl, rfl⟩
  | append_singleton new item ih =>
      rw [List.length_append, List.length_singleton] at enough
      obtain ⟨fuel, rfl⟩ := Nat.exists_eq_add_of_le' (Nat.le_of_add_left_le enough)
      have more : ¬ atPos s.handle.log pos = true := by
        rw [atPos_iff holds marks]
        exact List.append_ne_nil_of_right_ne_nil _ (List.cons_ne_nil _ _)
      rw [← List.append_assoc] at holds
      have top : s.handle.log.top = some item := by
        rw [holds.top (List.append_ne_nil_of_right_ne_nil _ (List.cons_ne_nil _ _)),
          List.getLast_append_singleton]
      obtain ⟨popped, same⟩ := holds.pop
      let u : State := { s with
        memory := s.memory.logUndoItem L junk item
        handle := { s.handle with log := s.handle.log.pop logBlockSize } }
      have below : ∀ i < old.length,
          u.handle.log.address logBlockSize i = s.handle.log.address logBlockSize i :=
        fun i inside => same i (by rw [List.length_append]; omega)
      have marks' : Marks pos u.handle.log old := by
        cases pos with
        | none => exact marks
        | some pos =>
            have some := List.length_pos_iff.mpr marks.1
            exact ⟨marks.1, (below _ (by omega)).trans marks.2⟩
      obtain ⟨t, unwound, back⟩ := ih (s := u) popped marks' (Nat.le_of_add_le_add_right enough)
      refine ⟨t, ?_, ?_, back.log, fun i inside => (back.address i inside).trans (below i inside),
        back.readSet, back.transactions, back.startTime⟩
      · rw [unwind, if_neg more]
        simp only [top, Option.bind_some]
        exact unwound
      · rw [back.memory, Memory.rollback, Memory.rollback, rollback_append, rollback_singleton]

/-! ## The record of a nested transaction -/

/-- The record says how far the log and the read set went in a state. -/
structure Records (g : State) (tr : Transaction) : Prop where
  readSet : tr.readSet.toNat = g.handle.readSet.length
  pos : ∀ items, g.handle.log.Holds logBlockSize items → Marks tr.pos g.handle.log items
  commitType : tr.commitType = g.handle.commitType

/-- What an abort restores. -/
structure Restored (L : NodeLayout T) (g t : State) : Prop where
  memory : t.memory.Agrees L g.memory
  height : t.handle.log.size logBlockSize = g.handle.log.size logBlockSize
  readSet : t.handle.readSet = g.handle.readSet
  commitType : t.handle.commitType = g.handle.commitType

/-- `_tr_handle_rollback` returns, and leads back to the state that is recorded. -/
theorem trHandleRollback_eq_some {tr : Transaction} (since : Extends L g s) (record : Records g tr)
    (junk : Contents) : ∃ t, trHandleRollback L junk tr s = some t ∧ Restored L g t ∧
      Extends L g t ∧ t.handle.transactions = s.handle.transactions ∧
      t.handle.startTime = s.handle.startTime := by
  obtain ⟨old, new, below, above, same, undone⟩ := since.log
  have marks : Marks tr.pos s.handle.log old := by
    have before := record.pos old below
    cases pos : tr.pos with
    | none => rwa [pos] at before
    | some place =>
        rw [pos] at before
        have some := List.length_pos_iff.mpr before.1
        exact ⟨before.1, (same _ (by omega)).trans before.2⟩
  let u : State := { s with handle := { s.handle with
    readSet := s.handle.readSet.take tr.readSet.toNat } }
  have enough : new.length ≤ u.handle.log.size logBlockSize := by
    show new.length ≤ s.handle.log.size logBlockSize
    rw [above.size, List.length_append]
    omega
  obtain ⟨v, unwound, back⟩ : ∃ v, unwind L junk tr.pos _ u = some v ∧
      Unwound L junk u v old new := unwind_eq_some above marks enough
  have agrees : v.memory.Agrees L g.memory := back.memory ▸ undone junk
  have readSet : v.handle.readSet = g.handle.readSet := by
    obtain ⟨rest, whole⟩ := since.readSet
    rw [back.readSet]
    show s.handle.readSet.take tr.readSet.toNat = _
    rw [record.readSet, ← whole, List.take_left]
  refine ⟨{ v with handle := { v.handle with commitType := tr.commitType } }, ?_,
    ⟨agrees, ?_, readSet, record.commitType⟩, ⟨⟨old, [], below, ?_, ?_, .refl agrees⟩, ?_⟩,
    back.transactions, back.startTime⟩
  · exact congrArg (Option.map _) unwound
  · exact back.log.size.trans below.size.symm
  · exact (List.append_nil old).symm ▸ back.log
  · exact fun i inside => (back.address i inside).trans (same i inside)
  · exact readSet ▸ List.prefix_refl _

/-! ## Open transactions -/

/-- No transaction is open. -/
structure Idle (s : State) : Prop where
  startTime : s.handle.startTime = 0
  readSet : s.handle.readSet = []
  transactions : s.handle.transactions.Holds transactionsBlockSize []
  log : s.handle.log.Holds logBlockSize []
  commitType : s.handle.commitType = .async

/-- The records of the nested transactions that are open, and the states in which they and the
main transaction began, the newest one first. -/
inductive Open (L : NodeLayout T) : List Transaction → List State → State → Prop
  | main {g s : State} (idle : Idle g) (since : Extends L g s) : Open L [] [g] s
  | nested {trs : List Transaction} {begun : List State} {g s : State} {tr : Transaction}
      (outer : Open L trs begun g) (record : Records g tr) (since : Extends L g s) :
      Open L (trs ++ [tr]) (g :: begun) s

namespace Open

variable {trs : List Transaction} {begun : List State} {tr : Transaction}

/-- More has happened in the newest transaction. -/
theorem extend (opened : Open L trs begun s) (more : Extends L s t) : Open L trs begun t := by
  cases opened with
  | main idle since => exact .main idle (since.trans more)
  | nested outer record since => exact .nested outer record (since.trans more)

/-- The main transaction began in an idle handle. -/
theorem first (opened : Open L trs begun s) :
    ∃ g, begun.getLast? = some g ∧ Idle g ∧ Extends L g s := by
  induction opened with
  | main idle since => exact ⟨_, rfl, idle, since⟩
  | @nested trs begun g s tr outer record since ih =>
      obtain ⟨first, last, idle, before⟩ := ih
      refine ⟨first, ?_, idle, before.trans since⟩
      rw [List.getLast?_cons, last]
      rfl

end Open

/-- A transaction is open. -/
structure Active (L : NodeLayout T) (r : Run) (trs : List Transaction) : Prop where
  startTime : r.now.handle.startTime ≠ 0
  transactions : r.now.handle.transactions.Holds transactionsBlockSize trs
  opened : Open L trs r.begun r.now
  short : r.now.handle.readSet.length < 2 ^ 32

/-- The invariant of runs. -/
def Inv (L : NodeLayout T) (r : Run) : Prop :=
  (r.begun = [] ∧ Idle r.now) ∨ ∃ trs, Active L r trs

/-- The log of a handle holds some items. -/
theorem Active.log {r : Run} {trs : List Transaction} (active : Active L r trs) :
    ∃ items, r.now.handle.log.Holds logBlockSize items := by
  obtain ⟨g, -, -, since⟩ := active.opened.first
  obtain ⟨old, new, -, above, -⟩ := since.log
  exact ⟨_, above⟩

theorem Inv.active {r : Run} (inv : Inv L r) (some : r.begun ≠ []) : ∃ trs, Active L r trs :=
  inv.resolve_left fun idle => some idle.1

/-- A call in a transaction that extends what has happened. -/
theorem Active.extend {r : Run} {trs : List Transaction} (active : Active L r trs)
    (more : Extends L r.now t) (startTime : t.handle.startTime = r.now.handle.startTime)
    (transactions : t.handle.transactions = r.now.handle.transactions)
    (short : t.handle.readSet.length < 2 ^ 32) : Inv L ⟨t, r.begun⟩ :=
  .inr ⟨trs, startTime ▸ active.startTime, transactions ▸ active.transactions,
    active.opened.extend more, short⟩

/-- A call whose items have been pushed. -/
theorem Inv.done {r : Run} {items : List LogItem} (inv : Inv L r) (some : r.begun ≠ [])
    (done : Done L source r.now t items) : Inv L ⟨t, r.begun⟩ := by
  obtain ⟨trs, active⟩ := inv.active some
  obtain ⟨old, holds⟩ := active.log
  exact active.extend
    (.of_items holds done.log done.memory.undone (done.readSet ▸ List.prefix_refl _))
    done.startTime done.transactions (done.readSet ▸ active.short)

/-! ## Begin and end of a transaction -/

/-- What `tr_begin` records. -/
theorem records_trBegin {items : List LogItem} (holds : g.handle.log.Holds logBlockSize items)
    (short : g.handle.readSet.length < 2 ^ 32) : Records g {
      readSet := BitVec.ofNat 32 g.handle.readSet.length
      pos := if g.handle.log.empty then none else some g.handle.log.topAddress
      acquiredLocks := BitVec.ofNat 32 g.handle.acquiredLocks.length
      commitType := g.handle.commitType } where
  readSet := Nat.mod_eq_of_lt short
  pos items' holds' := by
    obtain rfl := holds.unique holds'
    by_cases none : items = []
    · rw [if_pos (holds.empty_iff.mpr none)]
      exact none
    · rw [if_neg (by rwa [holds.empty_iff])]
      exact ⟨none, (holds.topAddress none).symm⟩
  commitType := rfl

theorem Inv.trBegin {r : Run} (inv : Inv L r) {time : ℕ} (real : time ≠ 0) :
    Inv L ⟨r.now.trBegin source time, r.now :: r.begun⟩ := by
  rcases inv with ⟨none, idle⟩ | ⟨trs, active⟩
  · have began : r.now.trBegin source time =
        { r.now with handle := { r.now.handle with startTime := time } } :=
      if_neg (not_not.mpr idle.startTime)
    rw [began, none]
    refine .inr ⟨[], real, idle.transactions, .main idle ?_, ?_⟩
    · exact .of_agrees idle.log rfl (.refl _) (List.prefix_refl _)
    · show r.now.handle.readSet.length < 2 ^ 32
      rw [idle.readSet]
      decide
  · obtain ⟨items, holds⟩ := active.log
    have record := records_trBegin holds active.short
    rw [State.trBegin, if_pos active.startTime]
    refine .inr ⟨_, active.startTime, (active.transactions.push (by decide) source _).1,
      .nested active.opened record ?_, active.short⟩
    exact .of_agrees holds rfl (.refl _) (List.prefix_refl _)

/-- A nested commit leaves the transaction around it open. -/
theorem Inv.trCommit {r : Run} (inv : Inv L r) (nested : 2 ≤ r.begun.length)
    (commitType : Service.CommitType) : Inv L ⟨r.now.trCommit commitType, r.begun.tail⟩ := by
  obtain ⟨trs, startTime, transactions, opened, short⟩ :=
    inv.active (List.ne_nil_of_length_pos (by omega))
  generalize begun : r.begun = states at opened nested
  cases opened with
  | main idle since => exact absurd nested (by simp)
  | nested outer record since =>
      obtain ⟨old, new, -, above, -⟩ := since.log
      refine .inr ⟨_, startTime, transactions.pop.1, outer.extend (since.trans ?_), short⟩
      exact .of_agrees above rfl (.refl _) (List.prefix_refl _)

/-- An abort of the main transaction leads back to the state in which it began. -/
theorem trAbortMain_eq_some {trs : List Transaction} (idle : Idle g) (since : Extends L g s)
    (transactions : s.handle.transactions.Holds transactionsBlockSize trs) (junk : Contents)
    (endTime : ℕ) :
    ∃ t, trAbortMain L junk endTime s = some t ∧ Restored L g t ∧ Idle t := by
  have record : Records g ⟨0, none, 0, .async⟩ := by
    refine ⟨?_, fun items holds => holds.unique idle.log, idle.commitType.symm⟩
    rw [idle.readSet]
    rfl
  obtain ⟨u, back, restored, after, kept, -⟩ := trHandleRollback_eq_some since record junk
  obtain ⟨old, new, -, above, -⟩ := after.log
  have erased := above.erase
  refine ⟨(u.trUnlock endTime).handleCleanup, ?_, ⟨restored.memory, ?_, idle.readSet.symm,
    idle.commitType.symm⟩, ⟨rfl, rfl, ?_, erased, rfl⟩⟩
  · rw [trAbortMain, back]
    rfl
  · exact erased.size.trans idle.log.size.symm
  · exact (kept ▸ transactions : u.handle.transactions.Holds transactionsBlockSize trs).erase

/-- An abort of any level leads back to the state in which that level began. -/
theorem Inv.trAbort {r : Run} (inv : Inv L r) {rest : List State} (begun : r.begun = g :: rest)
    (junk : Contents) (endTime : ℕ) :
    ∃ t, trAbort L junk endTime r.now = some t ∧ Restored L g t ∧ Inv L ⟨t, rest⟩ := by
  obtain ⟨trs, active⟩ := inv.active (begun ▸ List.cons_ne_nil _ _)
  have opened := active.opened
  rw [begun] at opened
  cases opened with
  | main idle since =>
      obtain ⟨t, aborted, restored, idle'⟩ :=
        trAbortMain_eq_some idle since active.transactions junk endTime
      refine ⟨t, ?_, restored, .inl ⟨rfl, idle'⟩⟩
      rw [State.trAbort, if_pos (active.transactions.empty_iff.mpr rfl)]
      exact aborted
  | @nested trs _ _ _ tr outer record since =>
      have nonempty : trs ++ [tr] ≠ [] := List.append_ne_nil_of_right_ne_nil _ (List.cons_ne_nil _ _)
      obtain ⟨t, back, restored, after, kept, started⟩ := trHandleRollback_eq_some since record junk
      refine ⟨{ t with handle := { t.handle with
        transactions := t.handle.transactions.pop transactionsBlockSize } }, ?_,
        ⟨restored.memory, restored.height, restored.readSet, restored.commitType⟩,
        .inr ⟨trs, started ▸ active.startTime, ?_, ?_, ?_⟩⟩
      · rw [State.trAbort, if_neg (by rwa [active.transactions.empty_iff]),
          active.transactions.top nonempty, List.getLast_append_singleton, Option.bind_some, back]
        rfl
      · exact (kept ▸ active.transactions :
          t.handle.transactions.Holds transactionsBlockSize (trs ++ [tr])).pop.1
      · exact outer.extend ⟨after.log, after.readSet⟩
      · exact Nat.lt_of_le_of_lt (restored.readSet ▸ since.readSet.length_le) active.short

/-- `tr_hard_abort` leads back to the state in which the main transaction began. -/
theorem Inv.trAbortMain {r : Run} (inv : Inv L r) (begun : r.begun.getLast? = some g)
    (junk : Contents) (endTime : ℕ) :
    ∃ t, trAbortMain L junk endTime r.now = some t ∧ Restored L g t ∧ Inv L ⟨t, []⟩ := by
  have some : r.begun ≠ [] := by
    rintro none
    rw [none] at begun
    cases begun
  obtain ⟨trs, active⟩ := inv.active some
  obtain ⟨first, last, idle, since⟩ := active.opened.first
  obtain rfl : first = g := Option.some.inj (last.symm.trans begun)
  obtain ⟨t, aborted, restored, idle'⟩ :=
    trAbortMain_eq_some idle since active.transactions junk endTime
  exact ⟨t, aborted, restored, .inl ⟨rfl, idle'⟩⟩

/-! ## Created nodes -/

theorem write_zero_inside {m : Contents} {address size x : ℕ} (low : address ≤ x)
    (high : x < address + size) : m.write address (List.replicate size 0) x = 0 := by
  unfold Contents.write
  rw [if_pos ⟨low, by rwa [List.length_replicate]⟩, List.getD_eq_getElem?_getD]
  exact List.getElem?_getD_replicate_default_eq _ _ _

theorem init_zero {p type x : ℕ} {m : Contents} (attributes : List (NodeAttribute × ℕ))
    (zero : m x = 0) :
    attributes.foldl (fun m entry =>
      m.write (p + L.offset type entry.2) (List.replicate (attributeSize entry.1.type) 0)) m x = 0 :=
  List.foldlRecOn (motive := fun m : Contents => m x = 0) _ _ zero
    fun _ zero _ _ => Memory.write_zero zero

/-- `init` sets every attribute to zero. -/
theorem zero_init (m : Contents) (p type : ℕ) : Memory.Zero L (Memory.init L m p type) p type := by
  intro index attr at_ x low high
  have inside : (attr, index) ∈ ((T.nodeTypes[type]?).elim [] NodeType.attributes).zipIdx := by
    obtain ⟨nodeType, found, at_⟩ := Option.bind_eq_some_iff.mp at_
    rw [found]
    exact List.mem_zipIdx_iff_getElem?.mpr at_
  unfold Memory.init
  obtain ⟨before, after, split⟩ := List.append_of_mem inside
  rw [split, List.foldl_append, List.foldl_cons]
  exact init_zero after (write_zero_inside low high)

/-- `init` writes into the node only. -/
theorem init_outside {m : Contents} {p type x : ℕ} (outside : x < p ∨ p + L.size type ≤ x) :
    Memory.init L m p type x = m x := by
  unfold Memory.init
  refine List.foldlRecOn (motive := fun m' : Contents => m' x = m x) _ _ rfl ?_
  intro m' same entry inside
  have within := L.inside type entry.2 entry.1 (Memory.attributeAt_of_mem inside)
  have kept : m'.write (p + L.offset type entry.2)
      (List.replicate (attributeSize entry.1.type) 0) x = m' x :=
    Contents.write_outside (by rw [List.length_replicate]; omega)
  exact kept.trans same

theorem created_initNode {M : Memory} {p type : ℕ} (added : Memory.Added L s.memory M p type)
    (id : ℕ) : Memory.Created L s.memory { M with contents := initNode L p type id M.contents }
      p type := by
  refine ⟨⟨added.nodes, added.blocks, fun x outside => ?_⟩, zero_init _ p type⟩
  have header := L.header type
  show Memory.init L _ p type x = _
  rw [init_outside outside, Contents.write_outside (by rw [length_wordBytes]; omega),
    Contents.write_outside (by rw [length_wordBytes]; omega), added.outside x outside]

/-- `tr_node_create` is undone, whether it succeeds or not. -/
theorem Inv.trNodeCreate {r : Run} (inv : Inv L r) (opened : r.begun ≠ []) {diff : ℤ} {name : Bytes}
    {p id : ℕ} {ok : Bool}
    (fresh : ∀ type, nodeTypeOf T diff name = some type → Fresh L r.now.memory p (L.size type))
    (returned : trNodeCreate L source diff name p id junk r.now = some (ok, t)) :
    Inv L ⟨t, r.begun⟩ := by
  obtain ⟨trs, active⟩ := inv.active opened
  obtain ⟨old, holds⟩ := active.log
  unfold State.trNodeCreate at returned
  cases found : nodeTypeOf T diff name with
  | none =>
      simp only [found] at returned
      rw [← (Prod.mk.inj (Option.some.inj returned)).2]
      exact inv
  | some type =>
      simp only [found] at returned
      obtain ⟨-, free, -, apart⟩ := fresh type found
      obtain ⟨⟨ok', u⟩, locked, rest⟩ := Option.map_eq_some_iff.mp returned
      have same := sameButLocks_utilLock locked
      have added : Memory.Added L r.now.memory u.memory p type := by
        rw [same.memory]
        exact ⟨rfl, rfl, fun _ _ => rfl⟩
      have readSet : r.now.handle.readSet <+: u.handle.readSet := by
        rw [same.readSet]
        exact List.prefix_refl _
      have short : u.handle.readSet.length < 2 ^ 32 := by
        rw [same.readSet]
        exact active.short
      cases ok' with
      | true =>
          rw [← (Prod.mk.inj rest).2]
          have log : u.handle.log.push logBlockSize source (.ofPtr p .nodeAlloc) =
              [.ofPtr p .nodeAlloc].foldl
                (fun log item => log.push logBlockSize source item) r.now.handle.log :=
            congrArg (fun log => log.push logBlockSize source (.ofPtr p .nodeAlloc)) same.log
          exact active.extend (.of_items holds log ((created_initNode added id).undone free apart)
            readSet) same.startTime same.transactions short
      | false =>
          rw [← (Prod.mk.inj rest).2]
          exact active.extend (.of_agrees holds same.log (added.freed free apart) readSet)
            same.startTime same.transactions short

/-! ## Runs -/

/-- Every call keeps the invariant. -/
theorem Inv.step {r r' : Run} {call : Call} (inv : Inv L r) (allowed : Allowed L r call)
    (moved : step L source r call = some r') : Inv L r' := by
  cases call with
  | «begin» time =>
      rw [← Option.some.inj moved]
      exact inv.trBegin allowed
  | write node type index a value p =>
      obtain ⟨some, -, at_, fresh⟩ := allowed
      obtain ⟨⟨ok, t⟩, written, rfl⟩ := Option.map_eq_some_iff.mp moved
      obtain ⟨items, done⟩ := trWrite_done at_ fresh written
      exact inv.done some done
  | memoryWrite ptr val =>
      rw [← Option.some.inj moved]
      exact inv.done allowed.1 ((Done.refl r.now).memoryWrite ptr allowed.2)
  | nodeCreate diff name p id junk =>
      obtain ⟨⟨ok, t⟩, created, rfl⟩ := Option.map_eq_some_iff.mp moved
      exact inv.trNodeCreate allowed.1 allowed.2 created
  | memoryAlloc p size =>
      rw [← Option.some.inj moved]
      exact inv.done allowed.1 ((Done.refl r.now).memoryAlloc allowed.2 fun _ _ => rfl)
  | memoryFree p =>
      rw [← Option.some.inj moved]
      exact inv.done allowed ((Done.refl r.now).memoryFree p)
  | read object =>
      rw [← Option.some.inj moved]
      obtain ⟨trs, active⟩ := inv.active allowed.1
      obtain ⟨old, holds⟩ := active.log
      refine active.extend (.of_agrees holds rfl (.refl _) (List.prefix_append _ _)) rfl rfl ?_
      show (r.now.handle.readSet ++ [object]).length < 2 ^ 32
      rw [List.length_append]
      exact allowed.2
  | commit commitType =>
      rw [← Option.some.inj moved]
      exact inv.trCommit allowed commitType
  | abort junk endTime =>
      obtain ⟨t, aborted, rfl⟩ := Option.map_eq_some_iff.mp moved
      obtain ⟨g, rest, begun⟩ := List.exists_cons_of_ne_nil allowed
      obtain ⟨t', aborted', -, inv'⟩ := inv.trAbort begun junk endTime
      obtain rfl := Option.some.inj (aborted.symm.trans aborted')
      rw [begun]
      exact inv'
  | hardAbort junk endTime =>
      obtain ⟨t, aborted, rfl⟩ := Option.map_eq_some_iff.mp moved
      obtain ⟨t', aborted', -, inv'⟩ :=
        inv.trAbortMain (List.getLast?_eq_getLast_of_ne_nil allowed) junk endTime
      obtain rfl := Option.some.inj (aborted.symm.trans aborted')
      exact inv'
  | environment memory locks =>
      rw [← Option.some.inj moved]
      rcases inv with ⟨none, idle⟩ | ⟨trs, active⟩
      · exact .inl ⟨none, idle.startTime, idle.readSet, idle.transactions, idle.log,
          idle.commitType⟩
      · obtain ⟨old, holds⟩ := active.log
        exact active.extend (.of_agrees holds rfl allowed.symm (List.prefix_refl _)) rfl rfl
          active.short

/-- In every run, an abort of any level and a hard abort restore the state in which the level, or
the main transaction, began. -/
theorem trAbort_restores {r : Run} (idle : Idle s)
    (run : Reaches (step L source) (Allowed L) ⟨s, []⟩ r) (junk : Contents) (endTime : ℕ) :
    (∀ g ∈ r.begun.head?, ∃ t, trAbort L junk endTime r.now = some t ∧ Restored L g t) ∧
      ∀ g ∈ r.begun.getLast?, ∃ t, trAbortMain L junk endTime r.now = some t ∧ Restored L g t := by
  have inv : Inv L r :=
    run.invariant (.inl ⟨rfl, idle⟩) fun _ _ _ inv allowed moved => inv.step allowed moved
  refine ⟨fun g newest => ?_, fun g oldest => ?_⟩
  · obtain ⟨rest, begun⟩ := List.head?_eq_some_iff.mp newest
    obtain ⟨t, aborted, restored, -⟩ := inv.trAbort begun junk endTime
    exact ⟨t, aborted, restored⟩
  · obtain ⟨t, aborted, restored, -⟩ := inv.trAbortMain oldest junk endTime
    exact ⟨t, aborted, restored⟩

/-- A handle as `db_handle_init` leaves it. -/
def dbHandleInit : State := { blank with handle := { blank.handle with startTime := 0 } }

theorem idle_dbHandleInit : Idle dbHandleInit :=
  ⟨rfl, rfl, FastStack.holds_init, FastStack.holds_init, rfl⟩

/-- A write in a nested transaction is undone by its abort. -/
theorem trAbort_restores_nestedWrite :
    ∃ t, trAbort wideLayout (fun _ => 0) 3
        (((dbHandleInit.trBegin nextPage 1).trBegin nextPage 1).trMemoryInternalWrite nextPage
          4096 [7]) = some t ∧
      Restored wideLayout (dbHandleInit.trBegin nextPage 1) t := by
  have run : Reaches (step wideLayout nextPage) (Allowed wideLayout) ⟨dbHandleInit, []⟩
      ⟨((dbHandleInit.trBegin nextPage 1).trBegin nextPage 1).trMemoryInternalWrite nextPage 4096 [7],
        [dbHandleInit.trBegin nextPage 1, dbHandleInit]⟩ := by
    have one : Reaches (step wideLayout nextPage) (Allowed wideLayout) ⟨dbHandleInit, []⟩
        ⟨dbHandleInit.trBegin nextPage 1, [dbHandleInit]⟩ :=
      .step (l := .begin 1) .start (by decide : (1 : ℕ) ≠ 0) rfl
    have two : Reaches (step wideLayout nextPage) (Allowed wideLayout) ⟨dbHandleInit, []⟩
        ⟨(dbHandleInit.trBegin nextPage 1).trBegin nextPage 1,
          [dbHandleInit.trBegin nextPage 1, dbHandleInit]⟩ :=
      .step (l := .begin 1) one (by decide : (1 : ℕ) ≠ 0) rfl
    exact .step (l := .memoryWrite 4096 [7]) two ⟨List.cons_ne_nil _ _, by decide⟩ rfl
  exact (trAbort_restores idle_dbHandleInit run (fun _ => 0) 3).1 _ rfl

end State

end HybridDatabase.Rollback
