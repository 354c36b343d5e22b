/-
# Changes

The loader applies a record as soon as it has read it.  Here reading and applying are
taken apart: what stands in a record is a change of the dictionary, and reading a
transaction, to its end or to the point where it is rejected, applies the changes that
were read.
-/

import HybridDatabase.Database.Loads

namespace HybridDatabase.Database

open HybridDatabase.Base HybridDatabase.Storage

/-- What a record asks for. -/
inductive Change
  | create (type id : ℕ)
  | delete (id : ℕ)
  | modify (id index : ℕ) (value : Value)
  deriving DecidableEq, Repr

namespace Change

/-- The node it is about. -/
def id : Change → ℕ
  | .create _ id => id
  | .delete id => id
  | .modify id _ _ => id

/-- The change of the memory. -/
def apply (T : DatabaseType) (M : Memory) : Change → Memory
  | .create type id => M.create T type id
  | .delete id => M.delete id
  | .modify id index value => M.setValue id index value

/-- Values of the attributes of a new node. -/
def initial (T : DatabaseType) (type : ℕ) : List Value :=
  ((T.nodeTypes[type]?).elim [] NodeType.attributes).map fun attr => attributeInit attr.type

/-- The change of the node it is about. -/
def onNode (T : DatabaseType) : Option Node → Change → Option Node
  | none, .create type _ => some ⟨type, initial T type⟩
  | some node, .create _ _ => some node
  | _, .delete _ => none
  | node, .modify _ index value =>
      node.map fun node => { node with values := node.values.set index value }

theorem nodes_apply (T : DatabaseType) (M : Memory) (change : Change) (other : ℕ) :
    (change.apply T M).nodes other =
      if change.id = other then onNode T (M.nodes other) change else M.nodes other := by
  cases change with
  | create type id =>
      by_cases here : id = other
      · subst here
        cases present : M.nodes id <;>
          simp [apply, Change.id, Memory.nodes_create, onNode, initial, present]
      · have there : ¬ other = id := fun h => here h.symm
        simp only [apply, Change.id, here, if_false, Memory.nodes_create]
        split
        · rfl
        · exact Function.update_of_ne there _ _
  | delete id =>
      by_cases here : id = other
      · subst here
        simp [apply, Change.id, onNode]
      · have there : ¬ other = id := fun h => here h.symm
        simp [apply, Change.id, here, Function.update_of_ne there]
  | modify id index value =>
      by_cases here : id = other
      · subst here
        cases present : M.nodes id <;>
          simp [apply, Change.id, Memory.setValue, Memory.setNode, onNode, present]
      · have there : ¬ other = id := fun h => here h.symm
        simp [apply, Change.id, Memory.setValue, Memory.setNode, here, Function.update_of_ne there]

end Change

/-- The changes of records one after another. -/
def applyChanges (T : DatabaseType) (M : Memory) (changes : List Change) : Memory :=
  changes.foldl (Change.apply T) M

/-- What changes do to one node depends on the changes about it only. -/
theorem nodes_applyChanges (T : DatabaseType) (M : Memory) (changes : List Change) (id : ℕ) :
    (applyChanges T M changes).nodes id =
      (changes.filter fun change => change.id = id).foldl (Change.onNode T) (M.nodes id) := by
  induction changes generalizing M with
  | nil => rfl
  | cons change changes ih =>
      have first := change.nodes_apply T M id
      rw [applyChanges, List.foldl_cons]
      apply (ih (change.apply T M)).trans
      by_cases here : change.id = id
      · rw [if_pos here] at first
        rw [List.filter_cons_of_pos (by simpa using here), List.foldl_cons, first]
      · rw [if_neg here] at first
        rw [List.filter_cons_of_neg (by simpa using here), first]

/-! ## Reading a change -/

/-- `rSkip`, as a call that acts on the reader alone. -/
def skipItems : ReaderM Unit := fun R => readerSkip (R.data.length + 1) R

theorem rSkip_eq : rSkip = onReader skipItems := rfl

/-- The arguments of a record, as `read_node_modify`, `read_node_create` and
`read_node_delete` read them; `none` where the record is about a node that is not there. -/
def readChange (T : DatabaseType) (M : Memory) (event : ℕ) : ReaderM (Option Change) :=
  if event = cbeNodeModified then do
    let id ← readNumber
    let number ← readNumber
    match M.nodes id with
    | none => do
        skipItems
        return none
    | some node =>
        if toInt number < 0 then throw .fault
        else
          match attributeAt T node.type (toInt number).toNat with
          | none => throw .failed
          | some attr => do
              let value ← attributeLoad attr.type
              return some (.modify id (toInt number).toNat value)
  else if event = cbeNodeCreated then do
    let typeNr ← readNumber
    match T.nodeTypes[typeNr]? with
    | none => throw .failed
    | some _ => do
        let id ← readNumber
        return some (.create typeNr id)
  else if event = cbeNodeDeleted then do
    let id ← readNumber
    return some (.delete id)
  else throw .failed

/-- The load `m` reads what `p` reads and applies it to the memory `M` if it could be
read; where it could not, the dictionary stays. -/
def Applies (T : DatabaseType) (M M₀ : Memory) (m : LoadM Unit) (p : ReaderM (Option Change)) :
    Prop :=
  ∀ R,
    match p R with
    | .ok change R' => m ⟨R, M₀⟩ = .ok () ⟨R', change.elim M (Change.apply T M)⟩
    | .error e R' => ∃ M', M'.nodes = M.nodes ∧ m ⟨R, M₀⟩ = .error e ⟨R', M'⟩

namespace Applies

variable {T : DatabaseType} {M M₀ : Memory}

theorem throw (e : ReadError) (kept : M₀.nodes = M.nodes) :
    Applies T M M₀ (MonadExcept.throw e) (MonadExcept.throw e) := fun _ => ⟨M₀, kept, rfl⟩

theorem read {α : Type} {x : ReaderM α} {f : α → LoadM Unit} {q : α → ReaderM (Option Change)}
    (kept : M₀.nodes = M.nodes) (h : ∀ a, Applies T M M₀ (f a) (q a)) :
    Applies T M M₀ (onReader x >>= f) (x >>= q) := by
  intro R
  cases run : x R with
  | ok a R' =>
      have rest := h a R'
      rwa [← bind_ok (f := q) run, ← bind_ok (f := f) (onReader_ok run M₀)] at rest
  | error e R' =>
      rw [bind_error run]
      exact ⟨M₀, kept, bind_error (onReader_error run M₀)⟩

theorem look {f : Loading → LoadM Unit} {p : ReaderM (Option Change)}
    (h : ∀ R, Applies T M M₀ (f ⟨R, M₀⟩) p) : Applies T M M₀ (get >>= f) p := by
  intro R
  rw [bind_ok (get_run _)]
  exact h R R

/-- A step in front of the reading. -/
theorem update {g : Memory → Memory} {m : LoadM Unit} {p : ReaderM (Option Change)}
    (h : Applies T M (g M₀) m p) : Applies T M M₀ (onMemory g >>= fun _ => m) p := by
  intro R
  have first : onMemory g ⟨R, M₀⟩ = .ok () ⟨R, g M₀⟩ := rfl
  rw [bind_ok first]
  exact h R

theorem change {g : Memory → Memory} (change : Change) (same : g M₀ = change.apply T M) :
    Applies T M M₀ (onMemory g) (Pure.pure (some change)) := by
  intro R
  show EStateM.Result.ok () (⟨R, g M₀⟩ : Loading) = _
  rw [same]
  rfl

end Applies

section Read

variable {T : DatabaseType} {M : Memory}

theorem applies_readNodeModify :
    Applies T M M (readNodeModify T) (readChange T M cbeNodeModified) := by
  refine Applies.read rfl fun id => Applies.read rfl fun number => Applies.look fun R => ?_
  simp only
  cases M.nodes id with
  | none =>
      intro R
      simp only [rSkip_eq]
      cases run : skipItems R with
      | ok a R' =>
          rw [bind_ok run]
          exact onReader_ok run M
      | error e R' =>
          rw [bind_error run]
          exact ⟨M, rfl, onReader_error run M⟩
  | some node =>
      simp only
      rcases Classical.em (toInt number < 0) with negative | negative
      · rw [if_pos negative, if_pos negative]
        exact Applies.throw _ rfl
      · rw [if_neg negative, if_neg negative]
        cases attributeAt T node.type (toInt number).toNat with
        | none => exact Applies.throw _ rfl
        | some attr => exact Applies.read rfl fun value => Applies.change _ rfl

theorem applies_readNodeCreate :
    Applies T M M (readNodeCreate T) (readChange T M cbeNodeCreated) := by
  rw [readNodeCreate, readNodePrepare, bind_assoc]
  refine Applies.read rfl fun typeNr => ?_
  cases known : T.nodeTypes[typeNr]? with
  | none => exact Applies.throw _ rfl
  | some type =>
      simp only [bind_assoc]
      refine Applies.update (Applies.read rfl fun id => Applies.update (Applies.look fun R => ?_))
      intro R
      rw [pure_run]
      show _ = EStateM.Result.ok () (⟨R, M.create T typeNr id⟩ : Loading)
      simp only [Memory.nodes_call]
      by_cases taken : (M.nodes id).isSome = true
      · simp only [Memory.create, Memory.nodes_call, taken, if_true]
        rfl
      · simp only [Memory.create, Memory.nodes_call, taken, known]
        rfl

theorem applies_readNodeDelete :
    Applies T M M readNodeDelete (readChange T M cbeNodeDeleted) :=
  Applies.read rfl fun id => Applies.change (.delete id) rfl

theorem applies_readEvent (event : ℕ) :
    Applies T M M (readEvent T event) (readChange T M event) := by
  unfold readEvent
  by_cases modified : event = cbeNodeModified
  · rw [if_pos modified, modified]
    exact applies_readNodeModify
  · rw [if_neg modified]
    by_cases created : event = cbeNodeCreated
    · rw [if_pos created, created]
      exact applies_readNodeCreate
    · rw [if_neg created]
      by_cases deleted : event = cbeNodeDeleted
      · rw [if_pos deleted, deleted]
        exact applies_readNodeDelete
      · rw [if_neg deleted, readChange, if_neg modified, if_neg created, if_neg deleted]
        exact Applies.throw _ rfl

end Read

/-! ## Reading the changes of a transaction -/

/-- The begin of the array of a record, and what is in it. -/
def readRecord (T : DatabaseType) (M : Memory) : ReaderM (Option Change) := do
  readArray
  let event ← readNumber
  readChange T M event

/-- The changes that are read in the items of a transaction before its end or the point
where it is rejected. -/
def changesRead (T : DatabaseType) : ℕ → Memory → Reader → List Change
  | 0, _, _ => []
  | fuel + 1, M, R =>
      match readerNext R with
      | .error _ _ => []
      | .ok .arrayEnd _ => []
      | .ok _ R =>
          match readRecord T M R with
          | .error _ _ => []
          | .ok change R =>
              change.toList ++
                match readArrayEnd R with
                | .error _ _ => []
                | .ok _ R => changesRead T fuel (change.elim M (Change.apply T M)) R

/-- The memory that a run leaves, however it ends. -/
def memoryAfter {α : Type} : EStateM.Result ReadError Loading α → Memory
  | .ok _ s => s.memory
  | .error _ s => s.memory

theorem memoryAfter_bind {α β : Type} {m : LoadM α} {f : α → LoadM β} {s : Loading}
    (kept : ∀ a t, memoryAfter (f a t) = t.memory) :
    memoryAfter ((m >>= f) s) = memoryAfter (m s) := by
  cases run : m s with
  | ok a t =>
      rw [bind_ok run, kept a t]
      rfl
  | error e t =>
      rw [bind_error run]
      rfl

theorem memoryAfter_onReader {α : Type} (m : ReaderM α) (s : Loading) :
    memoryAfter (onReader m s) = s.memory := by
  obtain ⟨R, M⟩ := s
  cases run : m R with
  | ok a R' =>
      rw [onReader_ok run M]
      rfl
  | error e R' =>
      rw [onReader_error run M]
      rfl

theorem applyChanges_toList (T : DatabaseType) (M : Memory) (change : Option Change)
    (changes : List Change) :
    applyChanges T M (change.toList ++ changes) =
      applyChanges T (change.elim M (Change.apply T M)) changes := by
  cases change <;> rfl

/-- Reading the items of a transaction applies the changes that are read to the
dictionary. -/
theorem memoryAfter_readRecords (T : DatabaseType) (fuel : ℕ) (M : Memory) (R : Reader) :
    (memoryAfter (readRecords T fuel ⟨R, M⟩)).nodes =
      (applyChanges T M (changesRead T fuel M R)).nodes := by
  induction fuel generalizing M R with
  | zero => rfl
  | succ fuel ih =>
      cases next : readerNext R with
      | error e R₁ =>
          rw [readRecords, bind_error (onReader_error next M)]
          simp only [changesRead, next]
          rfl
      | ok kind R₁ =>
          by_cases ended : kind = .arrayEnd
          · subst ended
            rw [readRecords, bind_ok (onReader_ok next M)]
            simp only [changesRead, next]
            rfl
          · have both : Applies T M M (do
                onReader readArray
                let event ← onReader readNumber
                readEvent T event) (readRecord T M) :=
              Applies.read rfl fun _ => Applies.read rfl fun event => applies_readEvent event
            have body : readRecords T (fuel + 1) ⟨R, M⟩ = (do
                (do onReader readArray
                    let event ← onReader readNumber
                    readEvent T event)
                onReader readArrayEnd
                readRecords T fuel : LoadM Unit) ⟨R₁, M⟩ := by
              rw [readRecords, bind_ok (onReader_ok next M)]
              simp only [bind_assoc]
            have listed : changesRead T (fuel + 1) M R =
                match readRecord T M R₁ with
                | .error _ _ => []
                | .ok change R =>
                    change.toList ++
                      match readArrayEnd R with
                      | .error _ _ => []
                      | .ok _ R => changesRead T fuel (change.elim M (Change.apply T M)) R := by
              simp only [changesRead, next]
            have step := both R₁
            rw [body, listed]
            cases run : readRecord T M R₁ with
            | error e R₂ =>
                rw [run] at step
                obtain ⟨M', kept, refused⟩ := step
                rw [bind_error refused]
                exact kept
            | ok change R₂ =>
                rw [run] at step
                rw [bind_ok step, applyChanges_toList]
                cases closed : readArrayEnd R₂ with
                | error e R₃ =>
                    rw [bind_error (onReader_error closed _)]
                    rfl
                | ok a R₃ =>
                    rw [bind_ok (onReader_ok closed _)]
                    exact ih _ _

end HybridDatabase.Database
