/-
# References and deletion in runs

What holds in every run of handles that create nodes, turn `Pointer`s, delete nodes, and
commit or abort at any level, with calls of `util_lock` that may fail.

The source tests the address of the new value instead of the value when it turns a
`Pointer`, so that setting one to null follows a null pointer, and `tr_node_delete` sets
all of them to null.
-/

import HybridDatabase.Transaction.Counts
import HybridDatabase.Transaction.Pointers

namespace HybridDatabase.Transaction

open HybridDatabase.Base HybridDatabase.Storage HybridDatabase.Database

namespace Shared

variable {T : DatabaseType} {D E F F' : Shared} {h id : ℕ}

/-! ## States between operations -/

/-- No handle is on its way to `tr_failed`. -/
def Settled (D : Shared) : Prop := ∀ h, (D.handles h).failed = false

/-- The node is deleted by a transaction that runs or by a committed one. -/
def Deleted (D : Shared) (id : ℕ) : Prop :=
  id ∈ D.jobs.flatten ∨ ∃ h, id ∈ State.garbage (D.handles h).log

open Classical in
/-- The nodes that are not deleted. -/
noncomputable def liveView (D : Shared) (id : ℕ) : Option Node :=
  if D.Deleted id then none else D.nodes.view id

/-- How many `Pointer` attributes of live nodes refer to the node. -/
noncomputable def liveReferences (D : Shared) (id : ℕ) : ℕ := references D.liveView D.counter id

/-- Every handle as it is. -/
def lengths (D : Shared) : ℕ → ℕ := fun h => (D.handles h).log.length

/-- Between operations the nodes are sound as they are. -/
theorem Inv.settled (inv : Inv T D) (settled : D.Settled) : ∃ deleted,
    (∀ id, id ∈ deleted ↔ (D.nodes id).isSome ∧ D.Deleted id) ∧
      Sound T D.counter D.nodes deleted := by
  obtain ⟨deleted, same, sound⟩ := inv.sound D.lengths fun h => .inr (.inr ⟨settled h, rfl⟩)
  have nodes : D.nodesAt D.lengths = D.nodes := by
    funext id
    cases owner : D.owner id with
    | none => exact settled_free owner
    | some h => exact settled_clean owner (List.drop_length)
  refine ⟨deleted, fun id => (same id).trans ?_, nodes ▸ sound⟩
  rw [DeletedAt, nodes, GarbageAt, Deleted]
  simp only [lengths, List.take_length]

/-- Deleted nodes refer to nothing. -/
theorem Inv.liveReferences (inv : Inv T D) (settled : D.Settled) (id : ℕ) :
    D.liveReferences id = references D.nodes.view D.counter id := by
  obtain ⟨deleted, same, sound⟩ := inv.settled settled
  unfold Shared.liveReferences references
  refine Finset.sum_congr rfl fun k _ => ?_
  rw [liveView]
  split
  · next gone =>
      cases found : D.nodes.view k with
      | none => rfl
      | some node =>
          have present : (D.nodes k).isSome := by rw [← isSome_view, found]; rfl
          obtain ⟨-, node', found', alone⟩ := sound.deleted k ((same k).mpr ⟨present, gone⟩)
          rw [found] at found'
          cases found'
          exact (List.count_eq_zero.mpr (alone id)).symm
  · rfl

/-- Every node counts its references. -/
theorem Inv.counted (inv : Inv T D) (settled : D.Settled) (present : (D.nodes id).isSome) :
    D.nodes.count id = D.liveReferences id := by
  obtain ⟨deleted, -, sound⟩ := inv.settled settled
  rw [inv.liveReferences settled, sound.counted id present]

/-- A deletion that is done: nothing referred to the node, and it held no reference. -/
theorem Inv.deleted (inv : Inv T D) (settled : D.Settled) {granted indexed : Bool}
    {locks : ℕ → Locks} (spared : D.SparesPointers T (.call h (.delete id granted indexed locks)))
    (done : D.call T h (.delete id granted indexed locks) = some (true, E)) :
    D.liveReferences id = 0 ∧
      ∀ x, x ≠ 0 → E.nodes.count x + pointersTo x (D.nodes.view id) = D.nodes.count x := by
  obtain ⟨⟨ok, s⟩, result, same⟩ := Option.map_eq_some_iff.mp done
  cases same
  have result : deletePlain T h id granted indexed (D.session h) = some (true, s) :=
    (trNodeDelete_of_plain spared).symm.trans result
  obtain ⟨node, found, unreferenced, plain, pushed, -⟩ := deletePlain_eq_true result
  have found : D.nodes id = some node := found
  obtain ⟨deleted, -, sound⟩ := inv.settled settled
  have view : D.nodes.view id = some ⟨node.type, node.values⟩ := by
    rw [Nodes.view, found, Option.map_some]
  constructor
  · rw [← inv.counted settled (by rw [found]; rfl), Nodes.count, found]
    exact unreferenced
  · intro x _
    obtain ⟨type, known, faithful⟩ := sound.typed id _ view
    have alone := faithful.no_pointer (not_pointer_of_plain known plain) x
    have nodes : s.nodes = D.nodes := congrArg State.nodes pushed
    show s.nodes.count x + _ = _
    rw [nodes, view]
    have none : pointersTo x (some (⟨node.type, node.values⟩ : Node)) = 0 :=
      List.count_eq_zero.mpr alone
    rw [none, Nat.add_zero]

/-! ## Aborts -/

/-- The level of nesting `depth` of `h` is open. -/
def Open (D : Shared) (h depth : ℕ) : Prop :=
  (D.handles h).running = true ∧ depth ≤ (D.handles h).transactions.length

/-- The step of another handle or of the service thread leaves the node. -/
def LeavesNode (T : DatabaseType) (h id : ℕ) (D : Shared) (l : SharedLabel) : Prop :=
  l.handle ≠ some h → ∀ E, D.step T l = some E → E.nodes id = D.nodes id

/-- A step that aborts the level of nesting `depth`, with what is nested in it. -/
def Aborts (D : Shared) (h depth : ℕ) : SharedLabel → Prop
  | .abort h' => h' = h ∧ (D.handles h).transactions.length = depth
  | .hardAbort h' => h' = h ∧ depth = 0
  | .commit h' valid => h' = h ∧ valid = false ∧ (D.handles h).transactions = [] ∧ depth = 0
  | _ => False

/-- What the level that was opened in `E` has done is in the log above its position. -/
structure Above (h id : ℕ) (E E' D : Shared) : Prop where
  nested : ∃ inner, (D.handles h).transactions = inner ++ (E'.handles h).transactions ∧
    ∀ pos ∈ inner, (E.handles h).log.length ≤ pos
  within : (E.handles h).log.length ≤ (D.handles h).log.length
  undone : rollback State.logUndoItem D.nodes
    ((D.handles h).log.drop (E.handles h).log.length) id = E.nodes id

/-- A level that was just opened. -/
theorem Above.start (h id : ℕ) (E : Shared) : Above h id E (E.trBegin h) (E.trBegin h) := by
  have log : ((E.trBegin h).handles h).log = (E.handles h).log := by
    unfold Shared.trBegin
    split <;> rw [handles_setHandle_self]
  have nodes : (E.trBegin h).nodes = E.nodes := by
    unfold Shared.trBegin
    split <;> rfl
  refine ⟨⟨[], rfl, by simp⟩, by rw [log], ?_⟩
  rw [log, List.drop_length, nodes]
  rfl

/-- What a call of `h` does, whatever it answers. -/
theorem Inv.turns (inv : Inv T D) {op : Operation} {ok : Bool}
    (spared : D.SparesPointers T (.call h op)) (done : D.call T h op = some (ok, F)) :
    ∃ s items failed, Turns h (D.session h) s items ∧ F = D.store h failed s := by
  obtain ⟨⟨ok', s⟩, result, same⟩ := Option.map_eq_some_iff.mp done
  cases same
  cases op with
  | create type granted indexed =>
      obtain ⟨items, turns⟩ := turns_trNodeCreate inv.fresh result
      exact ⟨s, items, false, turns, rfl⟩
  | write id index value freed allocated locks =>
      have keeps : Local h [] (trWrite T h id index value freed allocated locks) :=
        local_trWrite index value freed allocated locks
      obtain ⟨items, turns⟩ := keeps.turns (D.session h) ok s (by simp) result
      exact ⟨s, items, !ok, turns, rfl⟩
  | delete id granted indexed locks =>
      have plain : deletePlain T h id granted indexed (D.session h) = some (ok, s) :=
        (trNodeDelete_of_plain spared).symm.trans result
      have keeps : Local h [] (deletePlain T h id granted indexed) :=
        local_deletePlain granted indexed
      obtain ⟨items, turns⟩ := keeps.turns (D.session h) ok s (by simp) plain
      exact ⟨s, items, false, turns, rfl⟩

/-- Steps by `h` inside a level. -/
theorem Above.own {E' : Shared} {l : SharedLabel} (inv : Inv T D) (above : Above h id E E' D)
    (spared : D.SparesPointers T l) (own : l.handle = some h)
    (moved : D.step T l = some F) (still : F.Open h (E'.handles h).transactions.length) :
    Above h id E E' F := by
  obtain ⟨⟨inner, nested, deep⟩, within, undone⟩ := above
  cases l with
  | begin h' =>
      cases own
      cases moved
      unfold Shared.trBegin
      split
      · refine ⟨⟨(D.handles h).log.length :: inner, ?_, ?_⟩, ?_, ?_⟩
        · rw [handles_setHandle_self]
          exact congrArg (_ :: ·) nested
        · intro pos inside
          rcases List.mem_cons.mp inside with rfl | inside
          · exact within
          · exact deep pos inside
        · rwa [handles_setHandle_self]
        · rw [handles_setHandle_self]
          exact undone
      · refine ⟨⟨inner, ?_, deep⟩, ?_, ?_⟩
        · rw [handles_setHandle_self]
          exact nested
        · rwa [handles_setHandle_self]
        · rw [handles_setHandle_self]
          exact undone
  | call h' op =>
      cases own
      obtain ⟨⟨ok, D'⟩, done, rfl⟩ := Option.map_eq_some_iff.mp moved
      obtain ⟨s, items, failed, turns, rfl⟩ := inv.turns spared done
      have log : s.log = (D.handles h).log ++ items := turns.pushes.log
      have back : rollback State.logUndoItem s.nodes items = D.nodes := turns.pushes.undone
      refine ⟨⟨inner, ?_, deep⟩, ?_, ?_⟩
      · rw [handles_store_self]
        exact turns.pushes.transactions.trans nested
      · rw [handles_store_self, log, List.length_append]
        omega
      · rw [handles_store_self, log, List.drop_append_of_le_length within, rollback_append]
        show rollback _ (rollback _ s.nodes items) _ id = _
        rw [back]
        exact undone
  | commit h' valid =>
      cases own
      cases moved
      unfold Shared.trCommit at still ⊢
      split at still
      · next main =>
          have stopped : (D.trCommitMain h valid).handles h = {} := by
            unfold Shared.trCommitMain
            split
            · exact handles_release_self D h
            · split
              · exact handles_release_self D h
              · exact handles_release_self _ h
          have running := still.1
          rw [stopped] at running
          cases running
      · next pos transactions open_ =>
          have deeper := still.2
          rw [handles_setHandle_self] at deeper
          cases inner with
          | nil =>
              rw [open_, List.nil_append] at nested
              rw [← nested, List.length_cons] at deeper
              exact absurd deeper (Nat.not_succ_le_self _)
          | cons first inner =>
              rw [open_, List.cons_append, List.cons.injEq] at nested
              refine ⟨⟨inner, ?_, fun pos inside => deep pos (List.mem_cons_of_mem _ inside)⟩, ?_, ?_⟩
              · rw [handles_setHandle_self]
                exact nested.2
              · rwa [handles_setHandle_self]
              · rw [handles_setHandle_self]
                exact undone
  | abort h' =>
      cases own
      cases moved
      unfold Shared.trAbort at still ⊢
      split at still
      · next main =>
          have running := still.1
          rw [Shared.trAbortMain, handles_release_self] at running
          cases running
      · next pos transactions open_ =>
          have deeper := still.2
          rw [handles_setHandle_self] at deeper
          cases inner with
          | nil =>
              rw [open_, List.nil_append] at nested
              rw [← nested, List.length_cons] at deeper
              exact absurd deeper (Nat.not_succ_le_self _)
          | cons first inner =>
              rw [open_, List.cons_append, List.cons.injEq] at nested
              obtain ⟨rfl, nested⟩ := nested
              have le := deep pos List.mem_cons_self
              have short := inv.within h pos (by rw [open_]; exact List.mem_cons_self)
              refine ⟨⟨inner, ?_, fun pos inside => deep pos (List.mem_cons_of_mem _ inside)⟩, ?_, ?_⟩
              · rw [handles_setHandle_self]
                exact nested
              · rw [handles_setHandle_self, List.length_take]
                exact Nat.le_min.mpr ⟨le, within⟩
              · rw [handles_setHandle_self, ← undone]
                exact congrFun (rollback_take _ _ _ le short) id
  | hardAbort h' =>
      cases own
      cases moved
      obtain ⟨running, -⟩ := still
      rw [Shared.trAbortMain, handles_release_self] at running
      cases running
  | handleJob => cases own

/-- Steps by others leave the handle. -/
theorem handles_step {l : SharedLabel} (other : l.handle ≠ some h) (moved : D.step T l = some F) :
    F.handles h = D.handles h := by
  have apart : ∀ {h'}, l.handle = some h' → h ≠ h' := by
    rintro h' acts rfl
    exact other acts
  cases l with
  | begin h' =>
      cases moved
      unfold Shared.trBegin
      split <;> exact handles_setHandle_of_ne _ (apart rfl) _
  | call h' op =>
      obtain ⟨⟨ok, D'⟩, done, rfl⟩ := Option.map_eq_some_iff.mp moved
      obtain ⟨⟨ok', s⟩, -, same⟩ := Option.map_eq_some_iff.mp done
      cases same
      exact handles_store_of_ne _ (apart rfl) _ _
  | commit h' valid =>
      cases moved
      unfold Shared.trCommit
      split
      · unfold Shared.trCommitMain
        split
        · exact handles_release_of_ne _ (apart rfl)
        · split <;> exact handles_release_of_ne _ (apart rfl)
      · exact handles_setHandle_of_ne _ (apart rfl) _
  | abort h' =>
      cases moved
      unfold Shared.trAbort
      split
      · exact handles_release_of_ne _ (apart rfl)
      · exact handles_setHandle_of_ne _ (apart rfl) _
  | hardAbort h' =>
      cases moved
      exact handles_release_of_ne _ (apart rfl)
  | handleJob =>
      cases moved
      unfold Shared.handleJob
      split <;> rfl

/-- Steps by others. -/
theorem Above.other {E' : Shared} {l : SharedLabel} (above : Above h id E E' D)
    (other : l.handle ≠ some h) (leaves : LeavesNode T h id D l) (moved : D.step T l = some F) :
    Above h id E E' F := by
  have same := handles_step other moved
  obtain ⟨nested, within, undone⟩ := above
  refine ⟨by rwa [same], by rwa [same], ?_⟩
  rw [same, ← undone]
  exact logUndoItem_pointwise.rollback (leaves other F moved) _

/-- The abort of a level gives every node back that no other handle changed. -/
theorem Above.aborted {E' : Shared} {l : SharedLabel} (above : Above h id E E' D)
    (begun : E' = E.trBegin h)
    (idle : (E.handles h).running = false → E.handles h = {})
    (aborts : D.Aborts h (E'.handles h).transactions.length l) (moved : D.step T l = some F) :
    F.nodes id = E.nodes id := by
  obtain ⟨⟨inner, nested, -⟩, -, undone⟩ := above
  have main : (E'.handles h).transactions.length = 0 →
      rollback State.logUndoItem D.nodes ((D.handles h).log.drop 0) id = E.nodes id := by
    intro none
    rw [begun, Shared.trBegin] at none
    split at none
    · rw [handles_setHandle_self] at none
      cases none
    · next stopped =>
        have fresh := idle (by simpa using stopped)
        rw [fresh] at undone
        exact undone
  cases l with
  | abort h' =>
      obtain ⟨rfl, depth⟩ := aborts
      cases moved
      have same : (D.handles h').transactions = (E'.handles h').transactions := by
        rw [nested, List.length_append] at depth
        rw [nested, List.eq_nil_of_length_eq_zero (by omega : inner.length = 0), List.nil_append]
      unfold Shared.trAbort
      rw [same]
      split
      · next none => exact main (by rw [none]; rfl)
      · next pos transactions open_ =>
          rw [begun, Shared.trBegin] at open_
          split at open_
          · rw [handles_setHandle_self] at open_
            cases open_
            exact undone
          · next stopped =>
              rw [handles_setHandle_self, idle (by simpa using stopped)] at open_
              cases open_
  | hardAbort h' =>
      obtain ⟨rfl, depth⟩ := aborts
      cases moved
      exact main depth
  | commit h' valid =>
      obtain ⟨rfl, rfl, none, depth⟩ := aborts
      cases moved
      have done := main depth
      unfold Shared.trCommit
      rw [none]
      show (D.trCommitMain h' false).nodes id = E.nodes id
      unfold Shared.trCommitMain
      split
      · next empty =>
          rw [empty] at done
          exact done
      · exact done
  | begin | call | handleJob => exact aborts.elim

/-! ## Whole runs -/

theorem Settled.step {l : SharedLabel} (settled : D.Settled) (moved : D.step T l = some E)
    (fine : ∀ h, l.handle = some h → (E.handles h).failed = false) : E.Settled := by
  intro h
  by_cases own : l.handle = some h
  · exact fine h own
  · rw [handles_step own moved]
    exact settled h


/-- From `D` on, steps that callers may take and that meet the condition. -/
def Runs (T : DatabaseType) (ok : Shared → SharedLabel → Prop) (D E : Shared) : Prop :=
  Reaches (Shared.step T) (fun D l => D.Allows T l ∧ ok D l) D E

/-- A run inside a level that `h` has opened, where no other handle changes the node. -/
def RunsInside (T : DatabaseType) (ok : Shared → SharedLabel → Prop) (h depth id : ℕ)
    (D E : Shared) : Prop :=
  Runs T (fun D l => ok D l ∧ D.Open h depth ∧ LeavesNode T h id D l) D E ∧ E.Open h depth

/-- What is expected of reference counts and deletions in all runs from `D` whose steps
meet the condition. -/
structure CountsKept (T : DatabaseType) (ok : Shared → SharedLabel → Prop) (D : Shared) : Prop where
  /-- Between operations every live node counts the references to it. -/
  counted : ∀ E, Runs T ok D E → E.Settled → ∀ id, (E.nodes id).isSome → ¬ E.Deleted id →
    E.nodes.count id = E.liveReferences id
  /-- A deletion that is done: there are no references, and those of the node are taken
  off. -/
  deleted : ∀ E, Runs T ok D E → E.Settled → ∀ h id granted indexed locks F,
    E.Allows T (.call h (.delete id granted indexed locks)) →
    ok E (.call h (.delete id granted indexed locks)) →
    E.call T h (.delete id granted indexed locks) = some (true, F) →
      E.liveReferences id = 0 ∧
        ∀ x, x ≠ 0 → F.nodes.count x + pointersTo x (E.nodes.view id) = E.nodes.count x
  /-- A transaction that aborts leaves every node as it was. -/
  undone : ∀ E, Runs T ok D E → ∀ h id F l G, E.Allows T (.begin h) →
    RunsInside T ok h ((E.trBegin h).handles h).transactions.length id (E.trBegin h) F →
    F.Aborts h ((E.trBegin h).handles h).transactions.length l → F.step T l = some G →
      G.nodes id = E.nodes id
  /-- No null pointer is followed. -/
  answered : ∀ E, Runs T ok D E → ∀ l, E.Allows T l → ok E l → (E.step T l).isSome

theorem Quiet.runs_inv (quiet : Quiet T D) {ok : Shared → SharedLabel → Prop}
    (spares : ∀ D l, ok D l → D.SparesPointers T l) (run : Runs T ok D E) : Inv T E :=
  run.invariant quiet.inv fun _ _ _ inv met moved => inv.step met.1 (spares _ _ met.2) moved

/-- Reference counts are kept in every run that sets no `Pointer` to null and deletes no
node that has one, unless a lock in front of it is refused. -/
theorem countsKept (quiet : Quiet T D) : CountsKept T (fun D l => D.SparesPointers T l) D where
  counted E run settled id present _ :=
    (quiet.runs_inv (fun _ _ spared => spared) run).counted settled present
  deleted E run settled h id granted indexed locks F _ spared done :=
    (quiet.runs_inv (fun _ _ spared => spared) run).deleted settled spared done
  undone E run h id F l G allowed inside aborts moved := by
    have inv := quiet.runs_inv (fun _ _ spared => spared) run
    obtain ⟨run', still⟩ := inside
    let Holds : Shared → Prop := fun u => Inv T u ∧
      (u.Open h ((E.trBegin h).handles h).transactions.length → Above h id E (E.trBegin h) u)
    have start : Holds (E.trBegin h) := ⟨inv.trBegin allowed, fun _ => .start h id E⟩
    have above : Holds F := by
      apply run'.invariant start
      rintro u v l ⟨inv, above⟩ ⟨allowed, spared, open_, leaves⟩ moved
      refine ⟨inv.step allowed spared moved, fun still => ?_⟩
      by_cases own : l.handle = some h
      · exact (above open_).own inv spared own moved still
      · exact (above open_).other own leaves moved
    exact (above.2 still).aborted rfl (inv.idle h) aborts moved
  answered E run l allowed spared := by
    have inv := quiet.runs_inv (fun _ _ spared => spared) run
    cases l with
    | call h op =>
        have answered := inv.answered allowed.2.1 allowed.2.2 spared
        rwa [Shared.step, Option.isSome_map]
    | begin | commit | abort | hardAbort | handleJob => rfl

/-! ## A node that refers to itself -/

/-- A database without nodes. -/
def empty : Shared := ⟨fun _ => none, 1, fun _ => none, fun _ => {}, []⟩

theorem quiet_empty : Quiet linkType empty := ⟨fun _ => rfl, fun _ => rfl, rfl, sound_empty linkType⟩

/-- Every lock that is free is taken. -/
def freeLocks : Locks := ⟨true, true, true⟩

/-- A node created in a transaction and set to refer to itself. -/
theorem countsKept_selfLink : ∃ E, Runs linkType (fun D l => D.SparesPointers linkType l) empty E ∧
    E.nodes.count 2 = 1 ∧ E.liveReferences 2 = 1 := by
  have begun : Runs linkType (fun D l => D.SparesPointers linkType l) empty _ :=
    Reaches.start.step (l := SharedLabel.begin 0) ⟨rfl, trivial⟩ rfl
  have created := begun.step (l := SharedLabel.call 0 (.create 0 true true))
    ⟨⟨rfl, rfl, by decide, by decide⟩, trivial⟩ rfl
  have linked := created.step (l := SharedLabel.call 0 (.write 2 0 (.pointer 2) 0 0 freeLocks))
    ⟨⟨rfl, rfl, ⟨rfl, by decide, by decide⟩, by
      rintro _ ⟨⟩
      exact ⟨_, rfl, 2, rfl, .inr ⟨rfl, by decide, by decide⟩⟩⟩, by rintro ⟨⟩⟩ rfl
  refine ⟨_, linked, rfl, ?_⟩
  refine ((countsKept quiet_empty).counted _ linked ?_ 2 rfl ?_).symm
  · have start : Settled empty := fun _ => rfl
    have begun := start.step (T := linkType) (l := SharedLabel.begin 0) rfl
      (by rintro _ ⟨⟩; rfl)
    have created := begun.step (T := linkType) (l := SharedLabel.call 0 (.create 0 true true)) rfl
      (by rintro _ ⟨⟩; rfl)
    exact created.step (T := linkType)
      (l := SharedLabel.call 0 (.write 2 0 (.pointer 2) 0 0 freeLocks)) rfl (by rintro _ ⟨⟩; rfl)
  · rintro (waits | ⟨h, inside⟩)
    · cases waits
    · have held := (quiet_empty.runs_inv (fun _ _ spared => spared) linked).held h _
        (mem_garbage.mp inside) 2 rfl
      cases held
      revert inside
      decide

/-- Null written to a `Pointer`; and a node deleted that refers to a node under the lock of
another handle. -/
theorem countsNotKept : ¬ CountsKept linkType (fun _ _ => True) empty ∧
    ∃ E F, Runs linkType (fun _ _ => True) empty E ∧
      E.Allows linkType (.call 0 (.delete 3 true true fun _ => freeLocks)) ∧
      E.call linkType 0 (.delete 3 true true fun _ => freeLocks) = some (true, F) ∧
      E.nodes.count 2 = 1 ∧ F.nodes.count 2 = 1 := by
  have begun : Runs linkType (fun _ _ => True) empty _ :=
    Reaches.start.step (l := SharedLabel.begin 0) ⟨rfl, trivial⟩ rfl
  have created := begun.step (l := SharedLabel.call 0 (.create 0 true true))
    ⟨⟨rfl, rfl, by decide, by decide⟩, trivial⟩ rfl
  constructor
  · intro kept
    have answered := kept.answered _ created (.call 0 (.write 2 0 (.pointer 0) 0 0 freeLocks))
      ⟨rfl, rfl, ⟨rfl, by decide, by decide⟩, by
        rintro _ ⟨⟩
        exact ⟨_, rfl, 0, rfl, .inl rfl⟩⟩ trivial
    cases answered
  · have second := created.step (l := SharedLabel.call 0 (.create 0 true true))
      ⟨⟨rfl, rfl, by decide, by decide⟩, trivial⟩ rfl
    have linked := second.step (l := SharedLabel.call 0 (.write 3 0 (.pointer 2) 0 0 freeLocks))
      ⟨⟨rfl, rfl, ⟨rfl, by decide, by decide⟩, by
        rintro _ ⟨⟩
        exact ⟨_, rfl, 2, rfl, .inr ⟨rfl, by decide, by decide⟩⟩⟩, trivial⟩ rfl
    have committed := linked.step (l := SharedLabel.commit 0 true) ⟨⟨rfl, rfl⟩, trivial⟩ rfl
    have other := committed.step (l := SharedLabel.begin 1) ⟨rfl, trivial⟩ rfl
    have locked := other.step (l := SharedLabel.call 1 (.write 2 1 (.number 7) 0 0 freeLocks))
      ⟨⟨rfl, rfl, ⟨rfl, by decide, by decide⟩, by
        rintro _ ⟨⟩
        exact ⟨_, rfl, by decide, rfl⟩⟩, trivial⟩ rfl
    have begun := locked.step (l := SharedLabel.begin 0) ⟨rfl, trivial⟩ rfl
    exact ⟨_, _, begun, ⟨rfl, rfl, rfl, by decide, by decide⟩, rfl, rfl, rfl⟩

end Shared

end HybridDatabase.Transaction
