/-
# Replaying transactions

The records of a transaction, applied in order to the dictionary of a load, turn the
nodes from before the transaction into the nodes after it.  This holds after every
step of the transaction for the log so far, and at every position to which a nested
transaction can be rolled back.
-/

import HybridDatabase.Database.Loads
import HybridDatabase.Transaction.References

namespace HybridDatabase.Transaction

open HybridDatabase.Base HybridDatabase.Storage HybridDatabase.Database

/-! ## Records one after another -/

theorem applyRecords_append (T : DatabaseType) (M : Memory) (first second : List Record) :
    applyRecords T M (first ++ second) = applyRecords T (applyRecords T M first) second :=
  List.foldl_append

theorem recordsFit_append {T : DatabaseType} {M : Memory} {first second : List Record} :
    RecordsFit T M (first ++ second) ↔
      RecordsFit T M first ∧ RecordsFit T (applyRecords T M first) second := by
  induction first generalizing M with
  | nil => exact (and_iff_right trivial).symm
  | cons record first ih =>
      show record.Fits T M ∧ RecordsFit T (record.apply T M) (first ++ second) ↔
        (record.Fits T M ∧ RecordsFit T (record.apply T M) first) ∧ _
      rw [ih, and_assoc]
      rfl

theorem records_append (log items : List LogItem) :
    records (log ++ items) = records log ++ records items := List.filterMap_append

namespace State

theorem garbage_append (log items : List LogItem) :
    garbage (log ++ items) = garbage log ++ garbage items := List.filterMap_append

theorem view_freeGarbage (nodes : Nodes) (garbage : List ℕ) (id : ℕ) :
    (freeGarbage nodes garbage).view id = if id ∈ garbage then none else nodes.view id := by
  rw [Nodes.view, freeGarbage_apply]
  split <;> rfl

/-- Every index of an attribute has eight bits. -/
def Narrow (T : DatabaseType) : Prop := ∀ type ∈ T.nodeTypes, type.attributes.length ≤ 256

theorem Narrow.index {T : DatabaseType} (narrow : Narrow T) {type index : ℕ} {attr : NodeAttribute}
    (typed : attributeAt T type index = some attr) : index < 256 := by
  obtain ⟨known, found, there⟩ := Option.bind_eq_some_iff.mp typed
  have few := narrow known (List.mem_of_getElem? found)
  have inside := (List.getElem?_eq_some_iff.mp there).1
  omega

/-! ## What holds along a log -/

/-- The records of the log lead from `M` to the nodes that will be left when it is
committed, and from `before` the changes of the log lead to the nodes. -/
structure Replays (T : DatabaseType) (M : Memory) (before : Nodes) (N : ℕ) (log : List LogItem)
    (nodes : Nodes) : Prop where
  sound : Sound T N nodes (garbage log)
  fits : RecordsFit T M (records log)
  replayed : (applyRecords T M (records log)).nodes = (freeGarbage nodes (garbage log)).view
  undone : rollback logUndoItem nodes log = before

namespace Replays

variable {T : DatabaseType} {M : Memory} {before nodes nodes' : Nodes} {N N' : ℕ}
  {log items : List LogItem}

theorem start (sound : Sound T N nodes []) (loaded : M.nodes = nodes.view) :
    Replays T M nodes N [] nodes where
  sound := sound
  fits := trivial
  replayed := loaded
  undone := rfl

theorem raise (h : Replays T M before N log nodes) (le : N ≤ N') (small : N' < 2 ^ 64) :
    Replays T M before N' log nodes := ⟨h.sound.raise le small, h.fits, h.replayed, h.undone⟩

theorem undone_append (h : Replays T M before N log nodes)
    (undone : rollback logUndoItem nodes' items = nodes) :
    rollback logUndoItem nodes' (log ++ items) = before := by
  rw [rollback_append, undone, h.undone]

/-- A creation. -/
theorem create (h : Replays T M before N log nodes) {type id : ℕ}
    (known : type < T.nodeTypes.length) (fresh : N < id) (small : id < 2 ^ 64)
    (undone : rollback logUndoItem (Function.update nodes id (some (initialNode T type)))
      [.nodeAlloc type id] = nodes) :
    Replays T M before id (log ++ [.nodeAlloc type id])
      (Function.update nodes id (some (initialNode T type))) := by
  have absent : id ∉ garbage log := by
    intro member
    obtain ⟨-, node, there, -⟩ := h.sound.deleted id member
    rw [h.sound.view_absent fresh] at there
    cases there
  have none : (applyRecords T M (records log)).nodes id = none := by
    rw [h.replayed, view_freeGarbage, if_neg absent, h.sound.view_absent fresh]
  have kept : garbage (log ++ [.nodeAlloc type id]) = garbage log := by
    rw [garbage_append]
    exact List.append_nil _
  refine ⟨?_, ?_, ?_, h.undone_append undone⟩
  · rw [kept]
    exact h.sound.create known fresh small
  · rw [records_append]
    exact recordsFit_append.mpr ⟨h.fits, ⟨known, small⟩, trivial⟩
  · rw [records_append, applyRecords_append, kept]
    show ((applyRecords T M (records log)).create T type id).nodes = _
    funext x
    rw [Memory.nodes_create, none]
    show Function.update _ id _ x = _
    by_cases here : x = id
    · subst here
      rw [Function.update_self, view_freeGarbage, if_neg absent, Nodes.view, Function.update_self]
      rfl
    · rw [Function.update_of_ne here, h.replayed, view_freeGarbage, view_freeGarbage, Nodes.view,
        Nodes.view, Function.update_of_ne here]

/-- A deletion. -/
theorem delete (h : Replays T M before N log nodes) {id : ℕ} {node : MemoryNode}
    (found : nodes id = some node) (unreferenced : node.refCount = 0)
    (plain : hasPointers T node.type = false) :
    Replays T M before N (log ++ [.nodeDelete id]) nodes := by
  have more : garbage (log ++ [.nodeDelete id]) = garbage log ++ [id] := garbage_append _ _
  have small : id < 2 ^ 64 := by
    have inside := (h.sound.bounded id (by rw [found]; rfl)).2
    have := h.sound.small
    omega
  refine ⟨?_, ?_, ?_, h.undone_append rfl⟩
  · rw [more]
    exact h.sound.delete found unreferenced plain
  · rw [records_append]
    exact recordsFit_append.mpr ⟨h.fits, small, trivial⟩
  · rw [records_append, applyRecords_append, more]
    funext x
    show ((applyRecords T M (records log)).delete id).nodes x = _
    rw [Memory.nodes_delete]
    rw [view_freeGarbage]
    by_cases here : x = id
    · subst here
      simp
    · rw [Function.update_of_ne here, h.replayed, view_freeGarbage]
      simp [here]

/-- A write. -/
theorem write (h : Replays T M before N log nodes) (narrow : Narrow T) {id index : ℕ}
    {node : MemoryNode} {attr : NodeAttribute} {old value : Value} (found : nodes id = some node)
    (typed : attributeAt T node.type index = some attr) (there : node.values[index]? = some old)
    (faithful : Faithful attr.type value) (live : id ∉ garbage log)
    (target : ∀ target, value = .pointer target → (nodes target).isSome ∧ target ∉ garbage log)
    (after : AfterWrite attr.type old value nodes nodes') (silent : Silent items)
    (undone : rollback logUndoItem (nodes'.setValue id index value)
      (items ++ [.nodeModify id index attr.type old value]) = nodes) :
    Replays T M before N (log ++ (items ++ [.nodeModify id index attr.type old value]))
      (nodes'.setValue id index value) := by
  have sound := h.sound.write found typed there faithful live target after
  have kept : garbage (log ++ (items ++ [.nodeModify id index attr.type old value])) =
      garbage log := by
    rw [garbage_append, garbage_append, silent.2]
    exact List.append_nil _
  have one : records (log ++ (items ++ [.nodeModify id index attr.type old value])) =
      records log ++ [.modify id index attr.type value] := by
    rw [records_append, records_append, silent.1]
    rfl
  have view : nodes.view id = some ⟨node.type, node.values⟩ := by
    rw [Nodes.view, found, Option.map_some]
  have present : (applyRecords T M (records log)).nodes id = some ⟨node.type, node.values⟩ := by
    rw [h.replayed, view_freeGarbage, if_neg live, view]
  have small : id < 2 ^ 64 := by
    have inside := (h.sound.bounded id (by rw [found]; rfl)).2
    have := h.sound.small
    omega
  have index_lt := narrow.index typed
  refine ⟨?_, ?_, ?_, h.undone_append undone⟩
  · rw [kept]
    exact sound
  · rw [one]
    refine recordsFit_append.mpr ⟨h.fits, ⟨small, by omega, faithful.1, ?_⟩, trivial⟩
    intro node' there'
    rw [present] at there'
    cases there'
    exact ⟨attr, typed, rfl⟩
  · rw [one, applyRecords_append, kept]
    show ((applyRecords T M (records log)).setValue id index value.stored).nodes = _
    funext x
    rw [faithful.2, Memory.setValue, present]
    show Function.update (applyRecords T M (records log)).nodes id _ x = _
    by_cases here : x = id
    · subst here
      have view' : nodes'.view x = some ⟨node.type, node.values⟩ := by rw [after.view, view]
      rw [Function.update_self, view_freeGarbage, if_neg live, Nodes.view_setValue_self view']
      rfl
    · rw [Function.update_of_ne here, h.replayed, view_freeGarbage, view_freeGarbage,
        Nodes.view_setValue_of_ne here, after.view]

end Replays

/-! ## Steps of a transaction -/

/-- What holds in a main transaction that began with the nodes `before`. -/
structure Good (T : DatabaseType) (M : Memory) (w : World) (s : State) : Prop where
  holds : HoldsAtMarks logUndoItem (Replays T M w.nodes s.counter) s.log s.transactions s.nodes
  later : w.counter ≤ s.counter

variable {T : DatabaseType} {M : Memory} {w : World} {s t : State}

theorem good_begin (sound : Sound T w.counter w.nodes []) (loaded : M.nodes = w.nodes.view) :
    Good T M w w.begin where
  holds := .start (.start sound loaded)
  later := le_rfl

/-- Items that are undone exactly, and a step that holds with them. -/
theorem Good.push (good : Good T M w s) {items : List LogItem} (pushes : Pushes s t items)
    (raise : s.counter ≤ t.counter) (small : t.counter < 2 ^ 64)
    (now : Replays T M w.nodes t.counter (s.log ++ items) t.nodes) : Good T M w t where
  holds := by
    have raised := good.holds.imp fun log nodes (h : Replays T M w.nodes s.counter log nodes) =>
      h.raise raise small
    rw [pushes.log, pushes.transactions]
    exact raised.write pushes.undone now
  later := good.later.trans raise

theorem good_step {l : Label} (narrow : Narrow T) (good : Good T M w s) (allowed : s.Allowed T l)
    (moved : s.step T l = some t) : Good T M w t := by
  have now := good.holds.now
  have small := now.sound.small
  cases l with
  | create type id =>
      obtain ⟨known, fresh, idSmall, nodes, counter, pushes⟩ := trNodeCreate_spec moved
      have pushes := pushes (now.sound.absent fresh)
      have undone := pushes.undone
      rw [nodes] at undone
      apply good.push pushes (by omega) (by omega)
      rw [nodes, counter]
      exact now.create known fresh idSmall undone
  | write id index value freed allocated =>
      obtain ⟨live, values, targets⟩ := allowed
      obtain ⟨node, attr, found, typed⟩ : ∃ node attr, s.nodes id = some node ∧
          attributeAt T node.type index = some attr := by
        obtain ⟨node, found, rest⟩ := Option.bind_eq_some_iff.mp moved
        obtain ⟨attr, typed, -⟩ := Option.bind_eq_some_iff.mp rest
        exact ⟨node, attr, found, typed⟩
      obtain ⟨node', attr', old, nodes, items, found', typed', there, after, result, counter, silent,
        pushes⟩ := trInternalWrite_spec moved (narrow.index typed)
      have undone := pushes.undone
      rw [result] at undone
      apply good.push pushes (by omega) (by omega)
      rw [result, counter]
      exact now.write narrow found' typed' there (values _ _ found' typed') live.2 targets after
        silent undone
  | delete id =>
      rcases trNodeDelete_spec moved with rfl | ⟨node, found, unreferenced, plain, rfl⟩
      · exact good
      · exact good.push ⟨rfl, rfl, rfl⟩ le_rfl small (now.delete found unreferenced plain)
  | begin =>
      cases moved
      exact ⟨good.holds.setMark, good.later⟩
  | commitNested =>
      have holds := good.holds
      simp only [step] at moved
      split at moved
      · cases moved
      · next outermost =>
          cases moved
          rw [outermost] at holds
          exact ⟨holds.forget, good.later⟩
  | abortNested =>
      have holds := good.holds
      simp only [step] at moved
      split at moved
      · cases moved
      · next outermost =>
          cases moved
          rw [outermost] at holds
          exact ⟨holds.rollback, good.later⟩

/-- Everything holds in every state that a transaction reaches. -/
theorem good_run (narrow : Narrow T) (sound : Sound T w.counter w.nodes [])
    (loaded : M.nodes = w.nodes.view) (run : Reaches (step T) (Allowed T) w.begin s) :
    Good T M w s :=
  run.invariant (good_begin sound loaded) fun _ _ _ good allowed moved =>
    good_step narrow good allowed moved

end State

end HybridDatabase.Transaction
