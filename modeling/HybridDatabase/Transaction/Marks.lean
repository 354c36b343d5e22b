/-
# Sound at every mark

Whatever the handles that share the nodes do next, some of them may be rolled back: a
handle to one of its nested transactions or to its begin.  `Shared.Inv` says that the
nodes are sound however far each of the handles is rolled back.

A handle that is on its way to `tr_failed` has to be rolled back.  For the others the
nodes as they are count too.
-/

import HybridDatabase.Transaction.Footprint
import HybridDatabase.Transaction.References

namespace HybridDatabase.Transaction

open HybridDatabase.Base HybridDatabase.Storage HybridDatabase.Database

/-- A position to which a handle may be rolled back, or its present one. -/
def Handle.IsMark (H : Handle) (pos : ℕ) : Prop :=
  pos = 0 ∨ pos ∈ H.transactions ∨ (H.failed = false ∧ pos = H.log.length)

namespace Shared

/-- The nodes when every handle `h` is rolled back to `marks h`. -/
def nodesAt (D : Shared) (marks : ℕ → ℕ) : Nodes :=
  settled State.logUndoItem D.owner (fun h => (D.handles h).log.drop (marks h)) D.nodes

/-- The node is the garbage of a committed transaction or of one that runs. -/
def GarbageAt (D : Shared) (marks : ℕ → ℕ) (id : ℕ) : Prop :=
  id ∈ D.jobs.flatten ∨ ∃ h, id ∈ State.garbage ((D.handles h).log.take (marks h))

/-- The node is deleted, and not yet freed. -/
def DeletedAt (D : Shared) (marks : ℕ → ℕ) (id : ℕ) : Prop :=
  (D.nodesAt marks id).isSome ∧ D.GarbageAt marks id

/-- Every handle has one of its marks. -/
def AtMarks (D : Shared) (marks : ℕ → ℕ) : Prop := ∀ h, (D.handles h).IsMark (marks h)

structure Inv (T : DatabaseType) (D : Shared) : Prop where
  fresh : ∀ id, D.counter < id → D.nodes id = none ∧ D.owner id = none
  held : ∀ h, ∀ item ∈ (D.handles h).log, ∀ id, touched item = some id → D.owner id = some h
  known : ∀ id ∈ D.jobs.flatten, id ≤ D.counter
  idle : ∀ h, (D.handles h).running = false → D.handles h = {}
  within : ∀ h, ∀ pos ∈ (D.handles h).transactions, pos ≤ (D.handles h).log.length
  sorted : ∀ h, (D.handles h).transactions.Pairwise fun newer older => older ≤ newer
  sound : ∀ marks, D.AtMarks marks → ∃ deleted, (∀ id, id ∈ deleted ↔ D.DeletedAt marks id) ∧
    Sound T D.counter (D.nodesAt marks) deleted

variable {T : DatabaseType} {D : Shared} {h id pos : ℕ} {marks : ℕ → ℕ}

theorem Inv.mark_le (inv : Inv T D) (mark : (D.handles h).IsMark pos) :
    pos ≤ (D.handles h).log.length := by
  obtain rfl | inside | ⟨-, rfl⟩ := mark
  · exact Nat.zero_le _
  · exact inv.within h pos inside
  · exact Nat.le_refl _

/-- The items of a handle leave the nodes under the locks of others. -/
theorem Inv.spares (inv : Inv T D) (other : D.owner id ≠ some h) (pos : ℕ) (nodes : Nodes) :
    rollback State.logUndoItem nodes ((D.handles h).log.drop pos) id = nodes id :=
  rollback_of_spares fun item inside => logUndoItem_spares fun touches =>
    other (inv.held h item (List.mem_of_mem_drop inside) id touches)

/-- A node that is its handle's own, or nobody's. -/
theorem nodesAt_mine (mine : Mine D.owner h id) (now : marks h = (D.handles h).log.length) :
    D.nodesAt marks id = D.nodes id := by
  obtain free | held := mine
  · exact settled_free free
  · exact settled_clean held (by rw [now, List.drop_length])

/-- Two databases with the same nodes at the marks, and the same deleted nodes. -/
theorem Inv.sound_of_eq (inv : Inv T D) {D' : Shared} {marks' : ℕ → ℕ} (at_ : D.AtMarks marks)
    (nodes : D'.nodesAt marks' = D.nodesAt marks) (counter : D'.counter = D.counter)
    (garbage : ∀ id, D'.GarbageAt marks' id ↔ D.GarbageAt marks id) :
    ∃ deleted, (∀ id, id ∈ deleted ↔ D'.DeletedAt marks' id) ∧
      Sound T D'.counter (D'.nodesAt marks') deleted := by
  obtain ⟨gone, same, sound⟩ := inv.sound marks at_
  refine ⟨gone, fun id => (same id).trans ?_, by rwa [nodes, counter]⟩
  rw [DeletedAt, DeletedAt, nodes, garbage]

/-! ## A database between transactions -/

/-- No handle runs, no lock is held and no job waits. -/
structure Quiet (T : DatabaseType) (D : Shared) : Prop where
  owner : ∀ id, D.owner id = none
  handles : ∀ h, D.handles h = {}
  jobs : D.jobs = []
  sound : Sound T D.counter D.nodes []

theorem Quiet.inv (quiet : Quiet T D) : Inv T D where
  fresh id above := ⟨quiet.sound.absent above, quiet.owner id⟩
  held h item inside := by
    rw [quiet.handles] at inside
    cases inside
  known id inside := by
    rw [quiet.jobs] at inside
    cases inside
  idle h _ := quiet.handles h
  within h pos inside := by
    rw [quiet.handles] at inside
    cases inside
  sorted h := by
    rw [quiet.handles]
    exact .nil
  sound marks _ := by
    refine ⟨[], fun id => ⟨fun inside => absurd inside List.not_mem_nil, ?_⟩, ?_⟩
    · rintro ⟨-, waiting | ⟨h, inside⟩⟩
      · rw [quiet.jobs] at waiting
        cases waiting
      · rw [quiet.handles, List.take_nil] at inside
        cases inside
    · have same : D.nodesAt marks = D.nodes := funext fun id => settled_free (quiet.owner id)
      rw [same]
      exact quiet.sound

/-! ## Nested transactions -/

/-- The log stays, and the new marks are old ones. -/
theorem Inv.setHandle (inv : Inv T D) {H : Handle} (log : H.log = (D.handles h).log)
    (running : H.running = true) (marks : ∀ pos, H.IsMark pos → (D.handles h).IsMark pos)
    (sorted : H.transactions.Pairwise fun newer older => older ≤ newer) :
    Inv T (D.setHandle h H) where
  fresh := inv.fresh
  held h' item inside := by
    apply inv.held h' item
    by_cases here : h' = h
    · subst here
      rwa [handles_setHandle_self, log] at inside
    · rwa [handles_setHandle_of_ne _ here] at inside
  known := inv.known
  idle h' stopped := by
    by_cases here : h' = h
    · subst here
      rw [handles_setHandle_self, running] at stopped
      cases stopped
    · rw [handles_setHandle_of_ne _ here] at stopped ⊢
      exact inv.idle h' stopped
  within h' pos inside := by
    by_cases here : h' = h
    · subst here
      rw [handles_setHandle_self] at inside ⊢
      rw [log]
      exact inv.mark_le (marks pos (.inr (.inl inside)))
    · rw [handles_setHandle_of_ne _ here] at inside ⊢
      exact inv.within h' pos inside
  sorted h' := by
    by_cases here : h' = h
    · subst here
      rwa [handles_setHandle_self]
    · rw [handles_setHandle_of_ne _ here]
      exact inv.sorted h'
  sound chosen at_ := by
    have logs : ∀ h', ((D.setHandle h H).handles h').log = (D.handles h').log := by
      intro h'
      by_cases here : h' = h
      · subst here
        rw [handles_setHandle_self, log]
      · rw [handles_setHandle_of_ne _ here]
    refine inv.sound_of_eq (show D.AtMarks chosen from fun h' => ?_) ?_ rfl fun id => ?_
    · by_cases here : h' = h
      · subst here
        have mark := at_ h'
        rw [handles_setHandle_self] at mark
        exact marks _ mark
      · have mark := at_ h'
        rwa [handles_setHandle_of_ne _ here] at mark
    · rw [nodesAt, nodesAt]
      simp only [logs]
      rfl
    · rw [GarbageAt, GarbageAt]
      simp only [logs]
      rfl

/-- The nodes after a rollback of `h`. -/
theorem Inv.rollbackTo_nodes (inv : Inv T D) (pos : ℕ) (id : ℕ) :
    (D.rollbackTo h pos).nodes id =
      if D.owner id = some h then
        rollback State.logUndoItem D.nodes ((D.handles h).log.drop pos) id
      else D.nodes id := by
  split
  · rfl
  · next other => exact inv.spares other pos D.nodes

/-- A rollback to a mark. -/
theorem Inv.rollbackTo (inv : Inv T D) {transactions : List ℕ} (mark : (D.handles h).IsMark pos)
    (older : ∀ mark ∈ transactions, mark ∈ (D.handles h).transactions ∧ mark ≤ pos)
    (sorted : transactions.Pairwise fun newer older => older ≤ newer) :
    Inv T ((D.rollbackTo h pos).setHandle h
      ⟨true, false, (D.handles h).log.take pos, transactions⟩) where
  fresh id above := by
    obtain ⟨absent, free⟩ := inv.fresh id above
    refine ⟨(inv.rollbackTo_nodes pos id).trans ?_, free⟩
    rw [if_neg (by rw [free]; exact Option.some_ne_none h |>.symm), absent]
  held h' item inside := by
    apply inv.held h' item
    by_cases here : h' = h
    · subst here
      rw [handles_setHandle_self] at inside
      exact List.mem_of_mem_take inside
    · rwa [handles_setHandle_of_ne _ here] at inside
  known := inv.known
  idle h' stopped := by
    by_cases here : h' = h
    · subst here
      rw [handles_setHandle_self] at stopped
      cases stopped
    · rw [handles_setHandle_of_ne _ here] at stopped ⊢
      exact inv.idle h' stopped
  within h' pos' inside := by
    by_cases here : h' = h
    · subst here
      rw [handles_setHandle_self] at inside ⊢
      obtain ⟨old, le⟩ := older pos' inside
      rw [List.length_take]
      exact Nat.le_min.mpr ⟨le, inv.within h' pos' old⟩
    · rw [handles_setHandle_of_ne _ here] at inside ⊢
      exact inv.within h' pos' inside
  sorted h' := by
    by_cases here : h' = h
    · subst here
      rwa [handles_setHandle_self]
    · rw [handles_setHandle_of_ne _ here]
      exact inv.sorted h'
  sound marks at_ := by
    have le : marks h ≤ pos := by
      have mark := at_ h
      rw [handles_setHandle_self] at mark
      obtain zero | inside | ⟨-, now⟩ := mark
      · omega
      · exact (older _ inside).2
      · rw [now, List.length_take]
        exact Nat.min_le_left _ _
    have short := inv.mark_le mark
    refine inv.sound_of_eq (show D.AtMarks marks from fun h' => ?_) ?_ rfl fun id => ?_
    · by_cases here : h' = h
      · subst here
        have mark' := at_ h'
        rw [handles_setHandle_self] at mark'
        obtain zero | inside | ⟨-, now⟩ := mark'
        · exact .inl zero
        · exact .inr (.inl (older _ inside).1)
        · rw [List.length_take, Nat.min_eq_left short] at now
          rw [now]
          exact mark
      · have mark' := at_ h'
        rwa [handles_setHandle_of_ne _ here] at mark'
    · funext id
      have changed := inv.rollbackTo_nodes (h := h) pos id
      cases owner : D.owner id with
      | none =>
          rw [if_neg (by rw [owner]; exact Option.some_ne_none h |>.symm)] at changed
          exact (settled_free owner).trans (changed.trans (settled_free owner).symm)
      | some h' =>
          refine (settled_held owner).trans (.trans ?_ (settled_held owner).symm)
          by_cases here : h' = h
          · subst here
            rw [handles_setHandle_self, ← rollback_take _ _ _ le short]
            rfl
          · rw [if_neg (by rw [owner]; simpa using here)] at changed
            rw [handles_setHandle_of_ne _ here]
            exact logUndoItem_pointwise.rollback changed _
    · have same : ∀ h', State.garbage ((((D.rollbackTo h pos).setHandle h
          ⟨true, false, (D.handles h).log.take pos, transactions⟩).handles h').log.take (marks h')) =
            State.garbage ((D.handles h').log.take (marks h')) := by
        intro h'
        by_cases here : h' = h
        · subst here
          rw [handles_setHandle_self, List.take_take, Nat.min_eq_left le]
        · rw [handles_setHandle_of_ne _ here]
          rfl
      rw [GarbageAt, GarbageAt]
      simp only [same]
      rfl

theorem owner_release (D : Shared) (h id : ℕ) :
    (D.release h).owner id = if D.owner id = some h then none else D.owner id := rfl

@[simp]
theorem handles_release_self (D : Shared) (h : ℕ) : (D.release h).handles h = {} :=
  Function.update_self _ _ _

theorem handles_release_of_ne (D : Shared) {h h' : ℕ} (apart : h' ≠ h) :
    (D.release h).handles h' = D.handles h' := Function.update_of_ne apart _ _

/-- The end of a transaction that keeps what it has done. -/
theorem Inv.release (inv : Inv T D) (failed : (D.handles h).failed = false) {jobs : List (List ℕ)}
    (garbage : jobs.flatten = State.garbage (D.handles h).log) :
    Inv T { D.release h with jobs := D.jobs ++ jobs } where
  fresh id above := by
    obtain ⟨absent, free⟩ := inv.fresh id above
    refine ⟨absent, ?_⟩
    rw [owner_release, free]
    split <;> rfl
  held h' item inside id about := by
    by_cases here : h' = h
    · subst here
      rw [handles_release_self] at inside
      cases inside
    · rw [handles_release_of_ne _ here] at inside
      have held := inv.held h' item inside id about
      rw [owner_release, held, if_neg (by simpa using here)]
  known id inside := by
    rw [List.flatten_append, garbage] at inside
    rcases List.mem_append.mp inside with old | new
    · exact inv.known id old
    · have held := inv.held h _ (mem_garbage.mp new) id rfl
      refine Nat.le_of_not_lt fun above => ?_
      rw [(inv.fresh id above).2] at held
      cases held
  idle h' stopped := by
    by_cases here : h' = h
    · subst here
      exact handles_release_self D h'
    · rw [handles_release_of_ne _ here] at stopped ⊢
      exact inv.idle h' stopped
  within h' pos inside := by
    by_cases here : h' = h
    · subst here
      rw [handles_release_self] at inside
      cases inside
    · rw [handles_release_of_ne _ here] at inside ⊢
      exact inv.within h' pos inside
  sorted h' := by
    by_cases here : h' = h
    · subst here
      rw [handles_release_self]
      exact .nil
    · rw [handles_release_of_ne _ here]
      exact inv.sorted h'
  sound marks at_ := by
    have others : ∀ h', h' ≠ h →
        Function.update marks h (D.handles h).log.length h' = marks h' :=
      fun h' apart => Function.update_of_ne apart _ _
    refine inv.sound_of_eq
      (show D.AtMarks (Function.update marks h (D.handles h).log.length) from fun h' => ?_) ?_ rfl
      fun id => ?_
    · by_cases here : h' = h
      · subst here
        rw [Function.update_self]
        exact .inr (.inr ⟨failed, rfl⟩)
      · have mark := at_ h'
        rw [handles_release_of_ne _ here] at mark
        rwa [others h' here]
    · funext id
      cases owner : D.owner id with
      | none =>
          refine (settled_free ?_).trans (settled_free owner).symm
          rw [owner_release, owner, if_neg (Option.some_ne_none h).symm]
      | some h' =>
          by_cases here : h' = h
          · subst here
            refine (settled_free ?_).trans (settled_clean owner ?_).symm
            · rw [owner_release, owner, if_pos rfl]
            · rw [Function.update_self, List.drop_length]
          · have owner' : (D.release h).owner id = some h' := by
              rw [owner_release, owner, if_neg (by simpa using here)]
            refine (settled_held owner').trans (.trans ?_ (settled_held owner).symm)
            rw [handles_release_of_ne _ here, others h' here]
            rfl
    · rw [GarbageAt, GarbageAt, List.flatten_append, garbage, List.mem_append, or_assoc]
      refine or_congr_right ⟨?_, ?_⟩
      · rintro (own | ⟨h', inside⟩)
        · exact ⟨h, by rwa [Function.update_self, List.take_length]⟩
        · by_cases here : h' = h
          · subst here
            rw [handles_release_self, List.take_nil] at inside
            cases inside
          · rw [handles_release_of_ne _ here] at inside
            exact ⟨h', by rwa [others h' here]⟩
      · rintro ⟨h', inside⟩
        by_cases here : h' = h
        · subst here
          rw [Function.update_self, List.take_length] at inside
          exact .inl inside
        · rw [others h' here] at inside
          exact .inr ⟨h', by rwa [handles_release_of_ne _ here]⟩

theorem Inv.trAbortMain (inv : Inv T D) : Inv T (D.trAbortMain h) := by
  have start : (D.handles h).IsMark 0 := .inl rfl
  have older : ∀ mark ∈ ([] : List ℕ), mark ∈ (D.handles h).transactions ∧ mark ≤ 0 := by simp
  have undone := inv.rollbackTo start older .nil
  have none : ([] : List (List ℕ)).flatten = State.garbage (((D.rollbackTo h 0).setHandle h
      ⟨true, false, (D.handles h).log.take 0, []⟩).handles h).log := by
    rw [handles_setHandle_self]
    rfl
  have ended := undone.release (by rw [handles_setHandle_self]) none
  have same : D.trAbortMain h = { (((D.rollbackTo h 0).setHandle h
      ⟨true, false, (D.handles h).log.take 0, []⟩).release h) with
        jobs := D.jobs ++ [] } := by
    rw [List.append_nil, Shared.trAbortMain, Shared.release, Shared.release, Shared.setHandle,
      Shared.setHandle, Shared.setHandle, Function.update_idem]
    rfl
  rw [same]
  exact ended

theorem rollback_absent {nodes : Nodes} (absent : nodes id = none) (items : List LogItem) :
    rollback State.logUndoItem nodes items id = none := by
  induction items with
  | nil => exact absent
  | cons item items ih =>
      rw [rollback_cons]
      cases item with
      | refCount id' c =>
          simp only [State.logUndoItem, Nodes.setRefCount_apply]
          split
          · next here => rw [← here, ih, Option.map_none]
          · exact ih
      | nodeModify id' index type old new =>
          simp only [State.logUndoItem, Nodes.setValue_apply]
          split
          · next here => rw [← here, ih, Option.map_none]
          · exact ih
      | nodeAlloc type id' =>
          simp only [State.logUndoItem, Function.update_apply]
          split
          · rfl
          · exact ih
      | nodeDelete | raw | memoryAlloc | memoryDelete => exact ih

/-- What is freed is gone at every mark. -/
theorem nodesAt_freeGarbage (D : Shared) (garbage : List ℕ) (jobs : List (List ℕ))
    (marks : ℕ → ℕ) :
    nodesAt { D with nodes := State.freeGarbage D.nodes garbage, jobs := jobs } marks =
      State.freeGarbage (D.nodesAt marks) garbage := by
  funext id
  rw [State.freeGarbage_apply]
  have freed := State.freeGarbage_apply D.nodes garbage id
  by_cases inside : id ∈ garbage
  · rw [if_pos inside] at freed ⊢
    cases owner : D.owner id with
    | none => exact (settled_free owner).trans freed
    | some h => exact (settled_held owner).trans (rollback_absent freed _)
  · rw [if_neg inside] at freed ⊢
    exact settled_congr logUndoItem_pointwise freed rfl fun _ _ => rfl

theorem Inv.handleJob (inv : Inv T D) : Inv T D.handleJob := by
  unfold Shared.handleJob
  split
  · exact inv
  · next garbage jobs waiting =>
      have flat : D.jobs.flatten = garbage ++ jobs.flatten := by
        rw [waiting, List.flatten_cons]
      refine ⟨fun id above => ?_, inv.held, fun id inside => ?_, inv.idle, inv.within, inv.sorted,
        fun marks at_ => ?_⟩
      · obtain ⟨absent, free⟩ := inv.fresh id above
        refine ⟨(State.freeGarbage_apply _ _ _).trans ?_, free⟩
        rw [absent, ite_self]
      · exact inv.known id (flat ▸ List.mem_append_right garbage inside)
      · obtain ⟨deleted, same, sound⟩ := inv.sound marks at_
        rw [nodesAt_freeGarbage]
        have present : ∀ id, (State.freeGarbage (D.nodesAt marks) garbage id).isSome ↔
            (D.nodesAt marks id).isSome ∧ id ∉ garbage := by
          intro id
          rw [State.freeGarbage_apply]
          split
          · next inside => simp [inside]
          · next outside => simp [outside]
        refine ⟨deleted.filter (· ∉ garbage), fun id => ?_, sound.freeSome ?_ ?_⟩
        · rw [List.mem_filter, same, DeletedAt, DeletedAt, nodesAt_freeGarbage, present, GarbageAt,
            GarbageAt, flat, List.mem_append, decide_eq_true_iff]
          constructor
          · rintro ⟨⟨there, (inside | waits) | running⟩, outside⟩
            · exact absurd inside outside
            · exact ⟨⟨there, outside⟩, .inl waits⟩
            · exact ⟨⟨there, outside⟩, .inr running⟩
          · rintro ⟨⟨there, outside⟩, waits | running⟩
            · exact ⟨⟨there, .inl (.inr waits)⟩, outside⟩
            · exact ⟨⟨there, .inr running⟩, outside⟩
        · exact fun id inside there => (same id).mpr
            ⟨there, .inl (flat ▸ List.mem_append_left _ inside)⟩
        · intro id inside
          simpa using inside

end Shared

end HybridDatabase.Transaction
