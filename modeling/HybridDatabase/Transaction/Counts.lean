/-
# Reference counts

The `ref_count` of a node is the number of `Pointer` attributes that refer to it, in every
state between the operations of the handles that share the nodes.  It holds in runs that
never write null to a `Pointer` and never delete a node that has one, unless the lock that
is taken first is refused.
-/

import HybridDatabase.Transaction.Marks

namespace HybridDatabase.Transaction

open HybridDatabase.Base HybridDatabase.Storage HybridDatabase.Database

/-! ## Runs -/

namespace Shared

/-- A node that `h` may use: it is there, and it is deleted neither by `h` nor by a
transaction that is committed. -/
def Live (D : Shared) (h id : ℕ) : Prop :=
  (D.nodes id).isSome ∧ id ∉ D.jobs.flatten ∧ id ∉ State.garbage (D.handles h).log

/-- A value that may be written to an attribute: a `Pointer` is set to a live node or to
null. -/
def MayHold (D : Shared) (h : ℕ) (type : AttrType) (value : Value) : Prop :=
  if type.kind = .pointer then ∃ target, value = .pointer target ∧ (target = 0 ∨ D.Live h target)
  else State.Faithful type value

/-- Calls of known types and attributes, with nodes that may be used. -/
def AllowsCall (T : DatabaseType) (D : Shared) (h : ℕ) : Operation → Prop
  | .create type _ _ => type < T.nodeTypes.length ∧ D.counter + 1 < 2 ^ 64
  | .write id index value _ _ _ => D.Live h id ∧ ∀ node, D.nodes id = some node →
      ∃ attr, attributeAt T node.type index = some attr ∧ D.MayHold h attr.type value
  | .delete id _ _ _ => D.Live h id

/-- Handles call operations inside transactions.  From `tr_failed` they go on to an abort. -/
def Allows (T : DatabaseType) (D : Shared) : SharedLabel → Prop
  | .begin h => (D.handles h).failed = false
  | .call h op => (D.handles h).running = true ∧ (D.handles h).failed = false ∧ D.AllowsCall T h op
  | .commit h _ => (D.handles h).running = true ∧ (D.handles h).failed = false
  | .abort h | .hardAbort h => (D.handles h).running = true
  | .handleJob => True

/-- A write of null fails at the lock of the node or of the old target, and a deletion of a
node with a `Pointer` is refused. -/
def SparesPointers (T : DatabaseType) (D : Shared) : SharedLabel → Prop
  | .call h (.write id index value _ _ locks) =>
      value = .pointer 0 → Grants D.owner h id locks.node →
        ∃ node old, D.nodes id = some node ∧ node.values[index]? = some (.pointer old) ∧ old ≠ 0 ∧
          ¬ Grants D.owner h old locks.old
  | .call h (.delete id granted indexed _) => Plain T (D.session h) h id granted indexed
  | _ => True

variable {T : DatabaseType} {D : Shared} {h id : ℕ} {marks : ℕ → ℕ} {items : List LogItem}
  {t : Session}

/-! ## An operation is stored -/

theorem handles_store_self (D : Shared) (h : ℕ) (failed : Bool) (t : Session) :
    (D.store h failed t).handles h = ⟨true, failed, t.log, t.transactions⟩ :=
  Function.update_self _ _ _

theorem handles_store_of_ne (D : Shared) {h h' : ℕ} (apart : h' ≠ h) (failed : Bool) (t : Session) :
    (D.store h failed t).handles h' = D.handles h' := Function.update_of_ne apart _ _

theorem Inv.present_le (inv : Inv T D) (present : (D.nodes id).isSome) : id ≤ D.counter := by
  refine Nat.le_of_not_lt fun above => ?_
  rw [(inv.fresh id above).1] at present
  cases present

/-- Garbage is known. -/
theorem Inv.garbage_le (inv : Inv T D) (garbage : D.GarbageAt marks id) : id ≤ D.counter := by
  rcases garbage with waits | ⟨h, inside⟩
  · exact inv.known id waits
  · have held := inv.held h _ (List.mem_of_mem_take (mem_garbage.mp inside)) id rfl
    refine Nat.le_of_not_lt fun above => ?_
    rw [(inv.fresh id above).2] at held
    cases held

/-- A live node under the lock of the handle is garbage nowhere. -/
theorem Inv.not_garbage (inv : Inv T D) (live : D.Live h id) (turns : Turns h (D.session h) t items)
    (locked : t.owner id = some h) : ¬ D.GarbageAt marks id := by
  rintro (waits | ⟨h', inside⟩)
  · exact live.2.1 waits
  · have member := List.mem_of_mem_take (mem_garbage.mp inside)
    have held := inv.held h' _ member id rfl
    have same : h' = h := by
      rcases turns.owner id with kept | ⟨free, -⟩
      · rw [locked] at kept
        have both := kept.trans held
        exact (Option.some.inj both).symm
      · have free : D.owner id = none := free
        rw [held] at free
        cases free
    subst same
    exact live.2.2 (mem_garbage.mpr member)

/-- What `h` sees when the others are rolled back. -/
def sessionAt (D : Shared) (h : ℕ) (marks : ℕ → ℕ) : Session :=
  { D.session h with nodes := D.nodesAt marks }

theorem agrees_sessionAt (now : marks h = (D.handles h).log.length) :
    Agrees h (D.session h) (D.sessionAt h marks) :=
  ⟨rfl, rfl, rfl, rfl, fun _ mine => nodesAt_mine mine now⟩

/-- The nodes after an operation, the others rolled back: what it makes of the nodes
before it. -/
theorem nodesAt_store {t' : Session} (failed : Bool) (now : marks h = (D.handles h).log.length)
    (turns : Turns h (D.session h) t items) (agrees : Agrees h t t')
    (foreign : Foreign h (D.sessionAt h marks) t') :
    (D.store h failed t).nodesAt (Function.update marks h t.log.length) = t'.nodes := by
  funext id
  cases owner : t.owner id with
  | none => exact (settled_free owner).trans (agrees.nodes id (.inl owner)).symm
  | some h' =>
      by_cases here : h' = h
      · subst here
        refine (settled_clean owner ?_).trans (agrees.nodes id (.inr owner)).symm
        rw [Function.update_self, handles_store_self, List.drop_length]
      · have before : D.owner id = some h' := by
          rcases turns.owner id with kept | ⟨-, taken⟩
          · exact kept.symm.trans owner
          · rw [owner] at taken
            exact absurd (Option.some.inj taken) here
        have other : ¬ Mine D.owner h id := by
          rintro (free | held)
          · rw [before] at free
            cases free
          · rw [before] at held
            exact here (Option.some.inj held)
        refine (settled_held owner).trans (.trans ?_ (foreign id other).symm)
        refine .trans ?_ (settled_held before).symm
        rw [handles_store_of_ne _ here, Function.update_of_ne here]
        exact logUndoItem_pointwise.rollback
          (turns.outside id (by rw [owner]; simpa using here)) _

theorem garbageAt_store (failed : Bool) (now : marks h = (D.handles h).log.length)
    (turns : Turns h (D.session h) t items) :
    (D.store h failed t).GarbageAt (Function.update marks h t.log.length) id ↔
      D.GarbageAt marks id ∨ id ∈ State.garbage items := by
  have log : t.log = (D.handles h).log ++ items := turns.pushes.log
  have own : State.garbage t.log = State.garbage (D.handles h).log ++ State.garbage items := by
    rw [log]
    exact List.filterMap_append
  rw [GarbageAt, GarbageAt, or_assoc]
  refine or_congr_right ⟨?_, ?_⟩
  · rintro ⟨h', inside⟩
    by_cases here : h' = h
    · subst here
      rw [handles_store_self, Function.update_self, List.take_length, own, List.mem_append] at inside
      rcases inside with old | new
      · exact .inl ⟨h', by rwa [now, List.take_length]⟩
      · exact .inr new
    · rw [handles_store_of_ne _ here, Function.update_of_ne here] at inside
      exact .inl ⟨h', inside⟩
  · rintro (⟨h', inside⟩ | new)
    · refine ⟨h', ?_⟩
      by_cases here : h' = h
      · subst here
        rw [now, List.take_length] at inside
        rw [handles_store_self, Function.update_self, List.take_length, own]
        exact List.mem_append_left _ inside
      · rwa [handles_store_of_ne _ here, Function.update_of_ne here]
    · refine ⟨h, ?_⟩
      rw [handles_store_self, Function.update_self, List.take_length, own]
      exact List.mem_append_right _ new

/-- Where `h` is rolled back too, an operation of `h` makes no difference. -/
theorem Inv.nodesAt_undone (inv : Inv T D) (failed : Bool)
    (early : marks h ≤ (D.handles h).log.length) (turns : Turns h (D.session h) t items) :
    (D.store h failed t).nodesAt marks = D.nodesAt marks := by
  have log : t.log = (D.handles h).log ++ items := turns.pushes.log
  have outside : ∀ id, t.owner id ≠ some h → t.nodes id = D.nodes id := turns.outside
  have owners : ∀ id, t.owner id = D.owner id ∨ (D.owner id = none ∧ t.owner id = some h) :=
    turns.owner
  have undone : rollback State.logUndoItem t.nodes items = D.nodes := turns.pushes.undone
  funext id
  cases owner : t.owner id with
  | none =>
      have before : D.owner id = none := by
        rcases owners id with kept | ⟨-, taken⟩
        · exact kept.symm.trans owner
        · rw [owner] at taken
          cases taken
      refine (settled_free owner).trans (.trans ?_ (settled_free before).symm)
      exact outside id (by rw [owner]; exact (Option.some_ne_none h).symm)
  | some h' =>
      apply (settled_held owner).trans
      by_cases here : h' = h
      · subst here
        rw [handles_store_self, log, List.drop_append_of_le_length early, rollback_append]
        show rollback _ (rollback _ t.nodes items) _ id = _
        rw [undone]
        rcases owners id with kept | ⟨free, -⟩
        · have before : D.owner id = some h' := kept.symm.trans owner
          rw [nodesAt, settled_held before]
        · refine (inv.spares ?_ _ _).trans (settled_free free).symm
          rw [free]
          exact (Option.some_ne_none h').symm
      · have before : D.owner id = some h' := by
          rcases owners id with kept | ⟨-, taken⟩
          · exact kept.symm.trans owner
          · rw [owner] at taken
            exact absurd (Option.some.inj taken) here
        refine .trans ?_ (settled_held before).symm
        rw [handles_store_of_ne _ here]
        exact logUndoItem_pointwise.rollback (outside id (by rw [owner]; simpa using here)) _

/-- An operation keeps the invariant if its result is sound wherever the others are rolled
back to. -/
theorem Inv.store (inv : Inv T D) {failed : Bool} (unfailed : (D.handles h).failed = false)
    (turns : Turns h (D.session h) t items) (small : t.counter < 2 ^ 64)
    (now : failed = false → ∀ marks, D.AtMarks marks → marks h = (D.handles h).log.length →
      ∃ t', Agrees h t t' ∧ Foreign h (D.sessionAt h marks) t' ∧
        ∃ deleted, Sound T t.counter t'.nodes deleted ∧ ∀ id, id ∈ deleted ↔
          (t'.nodes id).isSome ∧ (D.GarbageAt marks id ∨ id ∈ State.garbage items)) :
    Inv T (D.store h failed t) where
  fresh id above := by
    have le : D.counter ≤ t.counter := turns.counter
    have above : t.counter < id := above
    exact turns.fresh id above (inv.fresh id (by omega))
  held h' item inside id about := by
    by_cases here : h' = h
    · subst here
      rw [handles_store_self, turns.pushes.log] at inside
      rcases List.mem_append.mp inside with old | new
      · exact turns.keeps (inv.held h' item old id about)
      · exact turns.touches item new id about
    · rw [handles_store_of_ne _ here] at inside
      have held := inv.held h' item inside id about
      rcases turns.owner id with kept | ⟨free, -⟩
      · exact kept.trans held
      · have free : D.owner id = none := free
        rw [held] at free
        cases free
  known id inside := (inv.known id inside).trans turns.counter
  idle h' stopped := by
    by_cases here : h' = h
    · subst here
      rw [handles_store_self] at stopped
      cases stopped
    · rw [handles_store_of_ne _ here] at stopped ⊢
      exact inv.idle h' stopped
  within h' pos inside := by
    by_cases here : h' = h
    · subst here
      rw [handles_store_self] at inside ⊢
      have same : t.transactions = (D.handles h').transactions := turns.pushes.transactions
      have old : pos ∈ (D.handles h').transactions := same ▸ inside
      have log : t.log = (D.handles h').log ++ items := turns.pushes.log
      have le := inv.within h' pos old
      rw [log, List.length_append]
      omega
    · rw [handles_store_of_ne _ here] at inside ⊢
      exact inv.within h' pos inside
  sorted h' := by
    by_cases here : h' = h
    · subst here
      rw [handles_store_self, turns.pushes.transactions]
      exact inv.sorted h'
    · rw [handles_store_of_ne _ here]
      exact inv.sorted h'
  sound marks at_ := by
    have others : ∀ h', h' ≠ h → (D.handles h').IsMark (marks h') := by
      intro h' apart
      have mark := at_ h'
      rwa [handles_store_of_ne _ apart] at mark
    have own := at_ h
    rw [handles_store_self, Handle.IsMark] at own
    have rolledBack : (D.handles h).IsMark (marks h) → ∃ deleted,
        (∀ id, id ∈ deleted ↔ (D.store h failed t).DeletedAt marks id) ∧
          Sound T t.counter ((D.store h failed t).nodesAt marks) deleted := by
      intro mark
      have early := inv.mark_le mark
      have at_' : D.AtMarks marks := by
        intro h'
        by_cases here : h' = h
        · rw [here]
          exact mark
        · exact others h' here
      obtain ⟨deleted, same, sound⟩ := inv.sound marks at_'
      have nodes := inv.nodesAt_undone failed early turns
      refine ⟨deleted, fun id => (same id).trans ?_, nodes ▸ sound.raise turns.counter small⟩
      rw [DeletedAt, DeletedAt, nodes]
      refine and_congr_right fun _ => or_congr_right ⟨?_, ?_⟩
      · rintro ⟨h', inside⟩
        refine ⟨h', ?_⟩
        by_cases here : h' = h
        · subst here
          have log : t.log = (D.handles h').log ++ items := turns.pushes.log
          rwa [handles_store_self, log, List.take_append_of_le_length early]
        · rwa [handles_store_of_ne _ here]
      · rintro ⟨h', inside⟩
        refine ⟨h', ?_⟩
        by_cases here : h' = h
        · subst here
          have log : t.log = (D.handles h').log ++ items := turns.pushes.log
          rwa [handles_store_self, log, List.take_append_of_le_length early] at inside
        · rwa [handles_store_of_ne _ here] at inside
    rcases own with zero | inside | ⟨fine, present⟩
    · exact rolledBack (.inl zero)
    · have same : t.transactions = (D.handles h).transactions := turns.pushes.transactions
      exact rolledBack (.inr (.inl (same ▸ inside)))
    · have at_' : D.AtMarks (Function.update marks h (D.handles h).log.length) := by
        intro h'
        by_cases here : h' = h
        · subst here
          rw [Function.update_self]
          exact .inr (.inr ⟨unfailed, rfl⟩)
        · rw [Function.update_of_ne here]
          exact others h' here
      have self : Function.update marks h (D.handles h).log.length h = (D.handles h).log.length :=
        Function.update_self _ _ _
      obtain ⟨t', agrees, foreign, deleted, sound, same⟩ := now fine _ at_' self
      have nodes := nodesAt_store failed self turns agrees foreign
      have garbage (id : ℕ) : (D.store h failed _).GarbageAt _ id ↔ _ :=
        garbageAt_store failed self turns
      have back : Function.update (Function.update marks h (D.handles h).log.length) h t.log.length =
          marks := by
        rw [Function.update_idem, ← present, Function.update_eq_self]
      rw [back] at nodes garbage
      refine ⟨deleted, fun id => (same id).trans ?_, nodes ▸ sound⟩
      rw [DeletedAt, nodes, garbage]

/-! ## The calls -/

theorem Inv.small (inv : Inv T D) : D.counter < 2 ^ 64 := by
  obtain ⟨_, _, state⟩ := inv.sound (fun _ => 0) fun _ => .inl rfl
  exact state.small

theorem garbage_of_append {log items items' : List LogItem} (same : log ++ items = log ++ items') :
    State.garbage items = State.garbage items' := by rw [List.append_cancel_left same]

/-- An operation that only took locks. -/
theorem Inv.refused (inv : Inv T D) (unfailed : (D.handles h).failed = false)
    (turns : Turns h (D.session h) t items) (same : t.toState = (D.session h).toState) :
    Inv T (D.store h false t) := by
  have counter : t.counter = D.counter := congrArg State.counter same
  have log : t.log = (D.handles h).log := congrArg State.log same
  have nodes : t.nodes = D.nodes := congrArg State.nodes same
  have transactions : t.transactions = (D.handles h).transactions :=
    congrArg State.transactions same
  have empty : items = [] := by
    have pushed : t.log = (D.handles h).log ++ items := turns.pushes.log
    rw [log] at pushed
    exact List.self_eq_append_right.mp pushed
  refine inv.store unfailed turns (by rw [counter]; exact inv.small) fun _ marks at_ now => ?_
  refine ⟨{ D.sessionAt h marks with owner := t.owner }, ⟨rfl, counter.symm, log.symm,
    transactions.symm, fun id mine => ?_⟩, fun _ _ => rfl, ?_⟩
  · rw [nodes]
    exact nodesAt_mine (turns.mine mine) now
  · obtain ⟨deleted, same, sound⟩ := inv.sound marks at_
    rw [counter, empty]
    exact ⟨deleted, sound, fun id => (same id).trans (and_congr_right fun _ => (or_iff_left
      List.not_mem_nil).symm)⟩

theorem Inv.create (inv : Inv T D) (unfailed : (D.handles h).failed = false) {type : ℕ}
    {granted indexed ok : Bool} {s : Session}
    (done : trNodeCreate T h type granted indexed (D.session h) = some (ok, s)) :
    Inv T (D.store h false s) := by
  obtain ⟨items, turns⟩ := turns_trNodeCreate inv.fresh done
  obtain ⟨-, -, same⟩ | ⟨-, -, u, created, same⟩ := trNodeCreate_eq_some.mp done
  · exact inv.refused unfailed turns (by rw [same])
  · obtain ⟨known, -, small, -, counter, pushes⟩ := State.trNodeCreate_spec created
    have fresh := (inv.fresh _ (Nat.lt_succ_self D.counter)).1
    have counter : s.counter = D.counter + 1 := by rw [same]; exact counter
    have log : s.log = (D.handles h).log ++ [.nodeAlloc type (D.counter + 1)] := by
      rw [same]
      exact (pushes fresh).log
    refine inv.store unfailed turns (by rw [counter]; exact small) fun _ marks at_ now => ?_
    obtain ⟨t', again, agrees, foreign⟩ :=
      frame_trNodeCreate inv.fresh (agrees_sessionAt now) done
    refine ⟨t', agrees, foreign, ?_⟩
    obtain ⟨deleted, same, sound⟩ := inv.sound marks at_
    have garbage : State.garbage items = [] := garbage_of_append (turns.pushes.log.symm.trans log)
    obtain ⟨no, -, -⟩ | ⟨-, -, u', created', same'⟩ := trNodeCreate_eq_some.mp again
    · rw [no] at done
      obtain ⟨-, -, same⟩ | ⟨no, -⟩ := trNodeCreate_eq_some.mp done
      · rw [same] at counter
        exact absurd counter (Nat.ne_of_lt (Nat.lt_succ_self _))
      · cases no
    · have nodes : t'.nodes = Function.update (D.nodesAt marks) (D.counter + 1)
          (some (State.initialNode T type)) := by
        rw [same']
        exact (State.trNodeCreate_spec created').2.2.2.1
      refine ⟨deleted, ?_, fun id => ?_⟩
      · rw [nodes, counter]
        exact sound.create known (Nat.lt_succ_self _) small
      · rw [same, DeletedAt, nodes, garbage, or_iff_left List.not_mem_nil]
        refine and_congr_left fun waits => ?_
        have le := inv.garbage_le waits
        rw [Function.update_of_ne (by omega)]

theorem Inv.write (inv : Inv T D) (unfailed : (D.handles h).failed = false) {index : ℕ}
    {value : Value} {freed allocated : ℕ} {locks : Locks} {ok : Bool} {s : Session}
    (allowed : D.AllowsCall T h (.write id index value freed allocated locks))
    (done : trWrite T h id index value freed allocated locks (D.session h) = some (ok, s)) :
    Inv T (D.store h (!ok) s) := by
  have keeps : Local h [] (trWrite T h id index value freed allocated locks) :=
    local_trWrite index value freed allocated locks
  obtain ⟨items, turns⟩ := keeps.turns (D.session h) ok s (by simp) done
  have counter : s.counter = D.counter := counter_trWrite done
  refine inv.store unfailed turns (by rw [counter]; exact inv.small) fun fine marks at_ now => ?_
  obtain rfl : ok = true := by simpa using fine
  obtain ⟨t', again, agrees, foreign⟩ := keeps.frame _ _ _ (by simp) (agrees_sessionAt now) done
  refine ⟨t', agrees, foreign, ?_⟩
  obtain ⟨deleted, same, sound⟩ := inv.sound marks at_
  obtain ⟨node, attr, old, nodes, items', found, typed, there, after, result, log, silent, locked,
    target⟩ := trWrite_eq_true again
  have mine : ∀ x, t'.owner x = some h → Mine D.owner h x := fun x held =>
    turns.mine (.inr (agrees.owner ▸ held))
  have found' : D.nodes id = some node := by
    rw [← nodesAt_mine (mine id locked) now]
    exact found
  obtain ⟨attr', typed', holds⟩ := allowed.2 node found'
  rw [typed] at typed'
  cases typed'
  have faithful : State.Faithful attr.type value := by
    unfold MayHold at holds
    split at holds
    · next pointer =>
        obtain ⟨x, rfl, reach⟩ := holds
        have small : x < 2 ^ 64 := by
          rcases reach with rfl | live
          · exact Nat.two_pow_pos 64
          · exact Nat.lt_of_le_of_lt (inv.present_le live.1) inv.small
        exact ⟨by rw [pointer]; exact small, rfl⟩
    · exact holds
  have unmarked : ∀ x, D.Live h x → t'.owner x = some h → x ∉ deleted := by
    intro x live held inside
    exact inv.not_garbage live turns (agrees.owner ▸ held) ((same x).mp inside).2
  have present : ∀ x, (t'.nodes x).isSome = (D.nodesAt marks x).isSome := by
    intro x
    rw [result, Nodes.isSome_setValue, ← isSome_view, after.view, isSome_view]
    rfl
  have garbage : State.garbage items = [] := by
    have both : (D.handles h).log ++ items = (D.handles h).log ++ items' :=
      turns.pushes.log.symm.trans (agrees.log.symm.trans log)
    exact (garbage_of_append both).trans silent
  refine ⟨deleted, ?_, fun x => ?_⟩
  · rw [result, counter]
    refine sound.write found typed there faithful (unmarked id allowed.1 locked) ?_ after
    rintro x rfl
    by_cases pointer : attr.type.kind = .pointer
    · obtain ⟨held, there⟩ := target x pointer rfl
      rw [present] at there
      rw [MayHold, if_pos pointer] at holds
      obtain ⟨x', same, null | live⟩ := holds
      · cases same
        have positive := (sound.bounded x there).1
        omega
      · cases same
        exact ⟨there, unmarked x live held⟩
    · exact absurd rfl (not_pointer_of_faithful faithful pointer x)
  · rw [same, DeletedAt, present, garbage, or_iff_left List.not_mem_nil]

theorem Inv.delete (inv : Inv T D) (unfailed : (D.handles h).failed = false)
    {granted indexed ok : Bool} {s : Session}
    (done : deletePlain T h id granted indexed (D.session h) = some (ok, s)) :
    Inv T (D.store h false s) := by
  have keeps : Local h [] (deletePlain T h id granted indexed) := local_deletePlain granted indexed
  obtain ⟨items, turns⟩ := keeps.turns (D.session h) ok s (by simp) done
  cases ok with
  | false => exact inv.refused unfailed turns (deletePlain_refused done)
  | true =>
      obtain ⟨_, _, _, _, pushed, _⟩ := deletePlain_eq_true done
      have counter : s.counter = D.counter := congrArg State.counter pushed
      have log : s.log = (D.handles h).log ++ [.nodeDelete id] := congrArg State.log pushed
      have garbage : State.garbage items = [id] :=
        garbage_of_append (turns.pushes.log.symm.trans log)
      refine inv.store unfailed turns (by rw [counter]; exact inv.small) fun _ marks at_ now => ?_
      obtain ⟨t', again, agrees, foreign⟩ := keeps.frame _ _ _ (by simp) (agrees_sessionAt now) done
      refine ⟨t', agrees, foreign, ?_⟩
      obtain ⟨deleted, same, sound⟩ := inv.sound marks at_
      obtain ⟨node, found, unreferenced, plain, pushed', locked⟩ := deletePlain_eq_true again
      have found : D.nodesAt marks id = some node := found
      have nodes : t'.nodes = D.nodesAt marks := congrArg State.nodes pushed'
      refine ⟨deleted ++ [id], ?_, fun x => ?_⟩
      · rw [nodes, counter]
        exact sound.delete found unreferenced plain
      · rw [List.mem_append, same, DeletedAt, nodes, garbage, List.mem_singleton]
        constructor
        · rintro (⟨there, waits⟩ | rfl)
          · exact ⟨there, .inl waits⟩
          · exact ⟨by rw [found]; rfl, .inr rfl⟩
        · rintro ⟨there, waits | here⟩
          · exact .inl ⟨there, waits⟩
          · exact .inr here

theorem Inv.call (inv : Inv T D) (unfailed : (D.handles h).failed = false) {op : Operation}
    {ok : Bool} {D' : Shared} (allowed : D.AllowsCall T h op)
    (spared : D.SparesPointers T (.call h op)) (done : D.call T h op = some (ok, D')) :
    Inv T D' := by
  obtain ⟨⟨ok', s⟩, result, same⟩ := Option.map_eq_some_iff.mp done
  cases op with
  | create type granted indexed =>
      cases same
      exact inv.create unfailed result
  | write id index value freed allocated locks =>
      cases same
      exact inv.write unfailed allowed result
  | delete id granted indexed locks =>
      cases same
      have plain : deletePlain T h id granted indexed (D.session h) = some (ok, s) :=
        (trNodeDelete_of_plain spared).symm.trans result
      exact inv.delete unfailed plain

theorem Inv.trAbort (inv : Inv T D) : Inv T (D.trAbort h) := by
  unfold Shared.trAbort
  split
  · exact inv.trAbortMain
  · next pos transactions nested =>
      have sorted := inv.sorted h
      rw [nested] at sorted
      obtain ⟨first, rest⟩ := List.pairwise_cons.mp sorted
      refine inv.rollbackTo (.inr (.inl (by rw [nested]; exact List.mem_cons_self)))
        (fun older inside => ⟨?_, first older inside⟩) rest
      rw [nested]
      exact List.mem_cons_of_mem pos inside

theorem Inv.trCommit (inv : Inv T D) (running : (D.handles h).running = true)
    (unfailed : (D.handles h).failed = false) (valid : Bool) : Inv T (D.trCommit h valid) := by
  unfold Shared.trCommit
  split
  · unfold Shared.trCommitMain
    split
    · next empty =>
        have none : ([] : List (List ℕ)).flatten = State.garbage (D.handles h).log := by
          rw [empty]
          rfl
        have ended := inv.release unfailed none
        rwa [List.append_nil] at ended
    · split
      · exact inv.release unfailed (by rw [List.flatten_singleton])
      · exact inv.trAbortMain
  · next pos transactions nested =>
      have sorted := inv.sorted h
      rw [nested] at sorted
      refine inv.setHandle rfl running (fun pos mark => ?_) (List.pairwise_cons.mp sorted).2
      obtain zero | inside | now := mark
      · exact .inl zero
      · exact .inr (.inl (by rw [nested]; exact List.mem_cons_of_mem _ inside))
      · exact .inr (.inr now)

theorem Inv.trBegin (inv : Inv T D) (unfailed : (D.handles h).failed = false) :
    Inv T (D.trBegin h) := by
  unfold Shared.trBegin
  split
  · next running =>
      refine inv.setHandle rfl running (fun pos mark => ?_)
        (List.pairwise_cons.mpr ⟨inv.within h, inv.sorted h⟩)
      obtain zero | inside | now := mark
      · exact .inl zero
      · rcases List.mem_cons.mp inside with here | older
        · exact .inr (.inr ⟨unfailed, here⟩)
        · exact .inr (.inl older)
      · exact .inr (.inr now)
  · exact inv.setHandle rfl rfl (fun _ mark => mark) (inv.sorted h)

/-- One step of a handle or of the service thread. -/
theorem Inv.step (inv : Inv T D) {l : SharedLabel} {D' : Shared} (allowed : D.Allows T l)
    (spared : D.SparesPointers T l) (moved : D.step T l = some D') : Inv T D' := by
  cases l with
  | begin h =>
      cases moved
      exact inv.trBegin allowed
  | call h op =>
      obtain ⟨⟨ok, D''⟩, done, rfl⟩ := Option.map_eq_some_iff.mp moved
      exact inv.call allowed.2.1 allowed.2.2 spared done
  | commit h valid =>
      cases moved
      exact inv.trCommit allowed.1 allowed.2 valid
  | abort h =>
      cases moved
      exact inv.trAbort
  | hardAbort h =>
      cases moved
      exact inv.trAbortMain
  | handleJob =>
      cases moved
      exact inv.handleJob

/-! ## Calls are answered -/

/-- The others rolled back to their begin. -/
def ownMarks (D : Shared) (h : ℕ) : ℕ → ℕ := fun h' => if h' = h then (D.handles h).log.length else 0

theorem atMarks_ownMarks (unfailed : (D.handles h).failed = false) : D.AtMarks (D.ownMarks h) := by
  intro h'
  rw [ownMarks]
  split
  · next here => exact .inr (.inr ⟨here ▸ unfailed, by rw [here]⟩)
  · exact .inl rfl

theorem present_of_nodesAt (present : (D.nodesAt marks id).isSome) : (D.nodes id).isSome := by
  cases there : D.nodes id with
  | some node => rfl
  | none =>
      have absent : D.nodesAt marks id = none := by
        cases owner : D.owner id with
        | none => exact (settled_free owner).trans there
        | some h => exact (settled_held owner).trans (rollback_absent there _)
      rw [absent] at present
      cases present

/-- A node that `h` may change holds values of its attributes, and a `Pointer` in it refers
to a node with a reference. -/
theorem Inv.attribute (inv : Inv T D) (unfailed : (D.handles h).failed = false)
    (mine : Mine D.owner h id) {node : MemoryNode} {index : ℕ} {attr : NodeAttribute}
    (found : D.nodes id = some node) (typed : attributeAt T node.type index = some attr) :
    ∃ value, node.values[index]? = some value ∧ State.Faithful attr.type value ∧
      ∀ old, value = .pointer old → old ≠ 0 →
        (D.nodes old).isSome ∧ (Mine D.owner h old → 0 < D.nodes.count old) := by
  have now : D.ownMarks h h = (D.handles h).log.length := if_pos rfl
  obtain ⟨deleted, -, sound⟩ := inv.sound _ (atMarks_ownMarks unfailed)
  have found' : D.nodesAt (D.ownMarks h) id = some node := by rw [nodesAt_mine mine now, found]
  have view : (D.nodesAt (D.ownMarks h)).view id = some ⟨node.type, node.values⟩ := by
    rw [Nodes.view, found', Option.map_some]
  obtain ⟨type, known, faithful⟩ := sound.typed id _ view
  rw [attributeAt, known, Option.bind_some] at typed
  have inside := (List.getElem?_eq_some_iff.mp typed).1
  rw [List.Forall₂.length_eq faithful] at inside
  have there : node.values[index]? = some node.values[index] := List.getElem?_eq_getElem inside
  refine ⟨_, there, faithful.get typed there, fun old points nonnull => ?_⟩
  have member : .pointer old ∈ node.values := points ▸ List.getElem_mem inside
  have linked := sound.linked id _ old view member nonnull
  refine ⟨present_of_nodesAt linked, fun mine' => ?_⟩
  have count := sound.counted old linked
  have positive := sound.referenced view member
  rw [Nodes.count, nodesAt_mine mine' now] at count
  rw [Nodes.count]
  omega

theorem nodeRefCountIncrease_isSome {granted : Bool} {s : Session} (present : (s.nodes id).isSome) :
    (nodeRefCountIncrease h id granted s).isSome := by
  refine Op.andThen_isSome (utilLock_isSome present) fun t locked => ?_
  obtain ⟨-, rfl⟩ := utilLock_eq_true locked
  obtain ⟨node, found⟩ := Option.isSome_iff_exists.mp present
  simp [Op.change, State.nodeRefCountIncrease, found]

theorem nodeRefCountDecrease_isSome {granted : Bool} {s : Session} (present : (s.nodes id).isSome)
    (counted : Grants s.owner h id granted → 0 < s.nodes.count id) :
    (nodeRefCountDecrease h id granted s).isSome := by
  refine Op.andThen_isSome (utilLock_isSome present) fun t locked => ?_
  obtain ⟨grants, rfl⟩ := utilLock_eq_true locked
  obtain ⟨node, found⟩ := Option.isSome_iff_exists.mp present
  have positive := counted grants
  rw [Nodes.count, found, Option.elim_some] at positive
  simp [Op.change, State.nodeRefCountDecrease, found, positive]

/-- A `Pointer` that may be turned. -/
theorem attributeWritePointer_isSome {old target : ℕ} {locks : Locks} {s : Session}
    (dropped : old ≠ 0 → (s.nodes old).isSome ∧
      (Grants s.owner h old locks.old → 0 < s.nodes.count old))
    (added : (old ≠ 0 → Grants s.owner h old locks.old) → (s.nodes target).isSome) :
    (attributeWritePointer h old target locks s).isSome := by
  refine Op.andThen_isSome ?_ fun t result => ?_
  · split
    · rfl
    · next nonnull =>
        obtain ⟨present, counted⟩ := dropped nonnull
        exact nodeRefCountDecrease_isSome present counted
  · apply nodeRefCountIncrease_isSome
    split at result
    · next null =>
        cases result
        exact added fun nonnull => absurd null nonnull
    · next nonnull =>
        obtain ⟨u, locked, -⟩ := Op.andThen_eq_true.mp result
        have grants := (utilLock_eq_true locked).1
        have decreased := (lock_change_eq_true result).1
        obtain ⟨-, -, nodes, -⟩ := State.nodeRefCountDecrease_spec decreased
        rw [nodes, Nodes.isSome_setRefCount]
        exact added fun _ => grants

/-- A value of its type is written. -/
theorem attributeWrite_isSome {type : AttrType} {old value : Value} {freed allocated : ℕ}
    {locks : Locks} {s : Session} (other : type.kind ≠ .pointer)
    (faithful : State.Faithful type value) :
    (attributeWrite h old value freed allocated locks type.kind s).isSome := by
  obtain ⟨holds, -⟩ := faithful
  cases kind : type.kind with
  | raw | number => rfl
  | string =>
      rw [kind] at holds
      match value, holds with
      | .string none, _ => rfl
      | .string (some _), _ => rfl
  | rawString =>
      rw [kind] at holds
      match value, holds with
      | .rawString none, _ => rfl
      | .rawString (some _), _ => rfl
  | pointer => exact absurd kind other

theorem Inv.write_isSome (inv : Inv T D) (unfailed : (D.handles h).failed = false) {index : ℕ}
    {value : Value} {freed allocated : ℕ} {locks : Locks}
    (allowed : D.AllowsCall T h (.write id index value freed allocated locks))
    (spared : D.SparesPointers T (.call h (.write id index value freed allocated locks))) :
    (trWrite T h id index value freed allocated locks (D.session h)).isSome := by
  obtain ⟨live, typed⟩ := allowed
  refine Op.andThen_isSome (utilLock_isSome live.1) fun t locked => ?_
  obtain ⟨grants, rfl⟩ := utilLock_eq_true locked
  obtain ⟨node, found⟩ := Option.isSome_iff_exists.mp live.1
  obtain ⟨attr, typed, holds⟩ := typed node found
  obtain ⟨old, there, faithful, pointed⟩ := inv.attribute unfailed grants.2 found typed
  have written : (attributeWrite h old value freed allocated locks attr.type.kind
      { D.session h with owner := Function.update D.owner id (some h) }).isSome := by
    by_cases pointer : attr.type.kind = .pointer
    · have same : ∀ {x : ℕ} {granted : Bool},
          Grants (Function.update D.owner id (some h)) h x granted → Grants D.owner h x granted := by
        rintro x granted ⟨given, mine⟩
        by_cases here : x = id
        · exact ⟨given, here ▸ grants.2⟩
        · rw [Function.update_of_ne here] at mine
          exact ⟨given, mine⟩
      rw [MayHold, if_pos pointer] at holds
      obtain ⟨target, rfl, reach⟩ := holds
      obtain ⟨holdsOld, -⟩ := faithful
      rw [pointer] at holdsOld ⊢
      match old, holdsOld, there, pointed with
      | .pointer old, _, there, pointed =>
          refine attributeWritePointer_isSome (fun nonnull => ?_) fun given => ?_
          · obtain ⟨present, counted⟩ := pointed old rfl nonnull
            exact ⟨present, fun given => counted (same given).2⟩
          · rcases reach with rfl | live
            · obtain ⟨node', old', found', there', nonnull, refused⟩ := spared rfl grants
              rw [found] at found'
              cases found'
              rw [there] at there'
              cases there'
              exact absurd (same (given nonnull)) refused
            · exact live.1
    · rw [MayHold, if_neg pointer] at holds
      exact attributeWrite_isSome pointer holds
  obtain ⟨⟨ok, u⟩, written⟩ := Option.isSome_iff_exists.mp written
  exact Option.isSome_iff_exists.mpr
    ⟨_, trInternalWrite_eq_some.mpr ⟨node, attr, old, u, found, typed, there, written, rfl⟩⟩

theorem Inv.answered (inv : Inv T D) (unfailed : (D.handles h).failed = false) {op : Operation}
    (allowed : D.AllowsCall T h op) (spared : D.SparesPointers T (.call h op)) :
    (D.call T h op).isSome := by
  rw [Shared.call, Option.isSome_map]
  cases op with
  | create type granted indexed =>
      obtain ⟨known, small⟩ := allowed
      show (trNodeCreate T h type granted indexed (D.session h)).isSome
      unfold trNodeCreate
      split
      · rw [Option.isSome_map, State.trNodeCreate, if_pos ⟨known, Nat.lt_succ_self _, small⟩]
        rfl
      · rfl
  | write id index value freed allocated locks => exact inv.write_isSome unfailed allowed spared
  | delete id granted indexed locks =>
      show (trNodeDelete T h id granted indexed locks (D.session h)).isSome
      rw [trNodeDelete_of_plain spared]
      refine Op.andThen_isSome (utilLock_isSome allowed.1) fun t locked => ?_
      obtain ⟨grants, rfl⟩ := utilLock_eq_true locked
      obtain ⟨node, found⟩ := Option.isSome_iff_exists.mp allowed.1
      have plain := spared grants node found
      show ((D.nodes id).bind _).isSome
      rw [found, Option.bind_some]
      dsimp only
      by_cases referenced : node.refCount ≠ 0
      · rw [if_pos referenced]
        rfl
      · rw [if_neg referenced]
        by_cases indexes : indexed = false
        · rw [if_pos indexes]
          rfl
        · rw [if_neg indexes, plain (not_not.mp referenced) (by simpa using indexes),
            if_neg Bool.false_ne_true]
          rfl

end Shared

end HybridDatabase.Transaction
