/-
# The nodes that a load allocates

A load takes a slot of the node allocator for every creation record and every node of a
dump, before it knows the id.  The calls it makes are one of four kinds: the id could not
be read, the id was already in the dictionary, the node was put into the dictionary, or a
node of the dictionary was freed.
-/

import HybridDatabase.Database.Loads
import HybridDatabase.Database.Open

namespace HybridDatabase.Database

open HybridDatabase.Base HybridDatabase.Storage

namespace NodeCall

/-- The id that was written last. -/
def lastId : List NodeCall → ℕ
  | [] => 0
  | .setId id :: _ => id
  | _ :: calls => lastId calls

/-- The ids that were inserted and not freed since. -/
def Alive : List NodeCall → ℕ → Prop
  | [], _ => False
  | .alloc _ :: calls, id => Alive calls id
  | .setId _ :: calls, id => Alive calls id
  | .insert :: calls, id => id = lastId calls ∨ Alive calls id
  | .free other :: calls, id => id ≠ other ∧ Alive calls id

/-- Some record named an id other than zero that was in the dictionary. -/
def Renames : List NodeCall → Prop
  | [] => False
  | .setId id :: calls => id ≠ 0 ∧ Alive calls id ∨ Renames calls
  | _ :: calls => Renames calls

end NodeCall

open NodeCall

/-- The calls of a load of nodes whose types are below `types`. -/
inductive Traced (types : ℕ) : List NodeCall → Prop
  | nil : Traced types []
  | unread {calls : List NodeCall} {type : ℕ} (before : Traced types calls) (known : type < types) :
      Traced types (.alloc type :: calls)
  | taken {calls : List NodeCall} {type id : ℕ} (before : Traced types calls)
      (known : type < types) (alive : Alive calls id) :
      Traced types (.setId id :: .alloc type :: calls)
  | created {calls : List NodeCall} {type id : ℕ} (before : Traced types calls)
      (known : type < types) (absent : ¬ Alive calls id) :
      Traced types (.insert :: .setId id :: .alloc type :: calls)
  | freed {calls : List NodeCall} {id : ℕ} (before : Traced types calls) (alive : Alive calls id) :
      Traced types (.free id :: calls)

/-- The dictionary and the counter are what the calls have made of them. -/
structure Memory.Recorded (T : DatabaseType) (M : Memory) : Prop where
  traced : Traced T.nodeTypes.length M.calls
  alive : ∀ id, Alive M.calls id ↔ (M.nodes id).isSome = true
  bounded : ∀ id, (M.nodes id).isSome = true → id ≤ M.counter

variable {T : DatabaseType}

theorem recorded_empty : Memory.empty.Recorded T where
  traced := .nil
  alive := fun _ => by simp [Memory.empty, Alive]
  bounded := fun _ present => by cases present

/-- Changes of the attributes and of the marks do not matter. -/
theorem Memory.Recorded.of_same {M M' : Memory} (h : M.Recorded T) (calls : M'.calls = M.calls)
    (nodes : ∀ id, (M'.nodes id).isSome = (M.nodes id).isSome) (counter : M'.counter = M.counter) :
    M'.Recorded T where
  traced := calls ▸ h.traced
  alive := fun id => by rw [calls, nodes, h.alive]
  bounded := fun id present => by
    rw [counter]
    exact h.bounded id (nodes id ▸ present)

/-! ## Every load is recorded -/

/-- The call keeps the record, whether it succeeds or not. -/
abbrev Records (T : DatabaseType) {α : Type} (m : LoadM α) : Prop :=
  Preserves (fun s : Loading => s.memory.Recorded T) m

theorem records_onReader {α : Type} (m : ReaderM α) : Records T (onReader m) := by
  have kept : ∀ (R : Reader) (s : Loading), s.memory.Recorded T →
      ({ s with reader := R } : Loading).memory.Recorded T := fun _ _ h => h
  exact Preserves.onPart kept m

theorem records_onMemory {f : Memory → Memory}
    (h : ∀ M : Memory, M.Recorded T → (f M).Recorded T) : Records T (onMemory f) :=
  Preserves.modify fun s => h s.memory

theorem records_ensure (cond : Bool) : Records T (ensure cond) :=
  Preserves.ite (Preserves.pure _) (Preserves.throw _)

theorem records_loopFuel : Records T loopFuel := fun _ h => h

theorem records_rSkip : Records T rSkip := records_loopFuel.bind fun _ => records_onReader _

theorem records_attempt {m : LoadM Unit} (h : Records T m) : Records T (attempt m) := by
  intro s hs
  have kept := h s hs
  unfold attempt
  cases run : m s with
  | ok a t =>
      rw [run] at kept
      exact kept
  | error e t =>
      rw [run] at kept
      cases e <;> exact kept

/-- A slot is taken whose id cannot be read. -/
theorem Memory.Recorded.alloc {M : Memory} (h : M.Recorded T) {type : ℕ}
    (known : type < T.nodeTypes.length) : (M.call (.alloc type)).Recorded T where
  traced := .unread h.traced known
  alive := h.alive
  bounded := h.bounded

/-- A slot is taken for a node whose id is there already. -/
theorem Memory.Recorded.taken {M : Memory} (h : M.Recorded T) {type id : ℕ}
    (known : type < T.nodeTypes.length) (present : (M.nodes id).isSome = true) :
    ((M.call (.alloc type)).call (.setId id)).Recorded T where
  traced := .taken h.traced known ((h.alive id).mpr present)
  alive := h.alive
  bounded := h.bounded

/-- A node is created. -/
theorem Memory.Recorded.created {M : Memory} (h : M.Recorded T) {type id : ℕ}
    (known : type < T.nodeTypes.length) (absent : ¬ (M.nodes id).isSome = true) (node : Node) :
    (Memory.call .insert { ((M.call (.alloc type)).call (.setId id)).setNode id (some node) with
      counter := max M.counter id }).Recorded T where
  traced := .created h.traced known fun alive => absent ((h.alive id).mp alive)
  alive := fun other => by
    show other = id ∨ Alive M.calls other ↔ (Function.update M.nodes id _ other).isSome = true
    by_cases here : other = id
    · subst here
      simp
    · rw [Function.update_of_ne here, ← h.alive other]
      simp [here]
  bounded := fun other present => by
    show other ≤ max M.counter id
    by_cases here : other = id
    · omega
    · have before : (Function.update M.nodes id (some node) other).isSome = true := present
      rw [Function.update_of_ne here] at before
      have := h.bounded other before
      omega

theorem Memory.Recorded.delete {M : Memory} (h : M.Recorded T) (id : ℕ) :
    (M.delete id).Recorded T := by
  by_cases present : (M.nodes id).isSome = true
  · rw [Memory.delete, if_pos present]
    refine ⟨.freed h.traced ((h.alive id).mpr present), fun other => ?_, fun other before => ?_⟩
    · show other ≠ id ∧ Alive M.calls other ↔ (Function.update M.nodes id none other).isSome = true
      by_cases here : other = id
      · subst here
        simp
      · rw [Function.update_of_ne here, ← h.alive other]
        simp [here]
    · have there : (Function.update M.nodes id none other).isSome = true := before
      by_cases here : other = id
      · subst here
        rw [Function.update_self] at there
        cases there
      · rw [Function.update_of_ne here] at there
        exact h.bounded other there
  · rw [Memory.delete, if_neg present]
    exact h

theorem Memory.Recorded.setValue {M : Memory} (h : M.Recorded T) (id index : ℕ) (value : Value) :
    (M.setValue id index value).Recorded T := by
  refine h.of_same rfl (fun other => ?_) rfl
  show (Function.update M.nodes id _ other).isSome = _
  by_cases here : other = id
  · subst here
    rw [Function.update_self, Option.isSome_map]
  · rw [Function.update_of_ne here]

theorem records_readNodePrepare : Records T (readNodePrepare T) := by
  refine (records_onReader _).bind fun typeNr => ?_
  cases found : T.nodeTypes[typeNr]? with
  | none => exact Preserves.throw _
  | some type =>
      obtain ⟨known, -⟩ := List.getElem?_eq_some_iff.mp found
      intro s hs
      have first : onMemory (Memory.call (.alloc typeNr)) s =
        .ok () ⟨s.reader, s.memory.call (.alloc typeNr)⟩ := rfl
      simp only
      rw [bind_ok first]
      cases read : readNumber s.reader with
      | error e R =>
          rw [bind_error (onReader_error read _)]
          exact hs.alloc known
      | ok id R =>
          have second : onMemory (Memory.call (.setId id)) ⟨R, s.memory.call (.alloc typeNr)⟩ =
            .ok () ⟨R, (s.memory.call (.alloc typeNr)).call (.setId id)⟩ := rfl
          rw [bind_ok (onReader_ok read _), bind_ok second, bind_ok (get_run _)]
          by_cases taken :
            (((s.memory.call (.alloc typeNr)).call (.setId id)).nodes id).isSome = true
          · rw [if_pos taken]
            exact hs.taken known taken
          · rw [if_neg taken]
            exact hs.created known taken _

theorem records_loadAttributes (id : ℕ) (attrs : List NodeAttribute) (index : ℕ) :
    Records T (loadAttributes id index attrs) := by
  induction attrs generalizing index with
  | nil => exact Preserves.pure _
  | cons attr attrs ih =>
      exact (records_onReader _).bind fun value =>
        (records_onMemory fun M h => h.setValue id index value).bind fun _ => ih _

theorem records_readNodeLoad : Records T (readNodeLoad T) := by
  refine records_readNodePrepare.bind fun prepared => ?_
  cases prepared with
  | none => exact Preserves.throw _
  | some prepared => exact records_loadAttributes _ _ _

theorem records_readNodeCreate : Records T (readNodeCreate T) :=
  records_readNodePrepare.bind fun _ => Preserves.pure _

theorem records_readNodeDelete : Records T readNodeDelete :=
  (records_onReader _).bind fun id => records_onMemory fun _ h => h.delete id

theorem records_readNodeModify : Records T (readNodeModify T) := by
  refine (records_onReader _).bind fun id => (records_onReader _).bind fun number =>
    Preserves.get fun s => ?_
  cases s.memory.nodes id with
  | none => exact records_rSkip
  | some node =>
      simp only
      rcases Classical.em (toInt number < 0) with negative | negative
      · rw [if_pos negative]
        exact Preserves.throw _
      · rw [if_neg negative]
        cases attributeAt T node.type (toInt number).toNat with
        | none => exact Preserves.throw _
        | some attr =>
            exact (records_onReader _).bind fun value =>
              records_onMemory fun _ h => h.setValue id _ value

theorem records_readEvent (event : ℕ) : Records T (readEvent T event) :=
  Preserves.ite records_readNodeModify <| Preserves.ite records_readNodeCreate <|
    Preserves.ite records_readNodeDelete (Preserves.throw _)

theorem records_readRecords (fuel : ℕ) : Records T (readRecords T fuel) := by
  induction fuel with
  | zero => exact Preserves.throw _
  | succ fuel ih =>
      refine (records_onReader _).bind fun kind => ?_
      have body : Records T (do
          onReader readArray
          let event ← onReader readNumber
          readEvent T event
          onReader readArrayEnd
          readRecords T fuel) :=
        (records_onReader _).bind fun _ => (records_onReader _).bind fun event =>
          (records_readEvent event).bind fun _ => (records_onReader _).bind fun _ => ih
      cases kind with
      | arrayEnd => exact Preserves.pure _
      | _ => exact body

theorem records_readDump (fuel : ℕ) : Records T (readDump T fuel) := by
  induction fuel with
  | zero => exact Preserves.throw _
  | succ fuel ih =>
      refine (records_onReader _).bind fun kind => ?_
      have body : Records T (do
          onReader readArray
          readNodeLoad T
          onReader readArrayEnd
          readDump T fuel) :=
        (records_onReader _).bind fun _ => records_readNodeLoad.bind fun _ =>
          (records_onReader _).bind fun _ => ih
      cases kind with
      | arrayEnd => exact Preserves.pure _
      | _ => exact body

theorem records_setDumpOn (on : Bool) : Records T (setDumpOn on) :=
  records_onMemory fun _ h => h.of_same rfl (fun _ => rfl) rfl

theorem records_getDumpOn : Records T getDumpOn := fun _ h => h

theorem records_readFileFooter : Records T readFileFooter := by
  refine (records_onReader _).bind fun _ => (records_onReader _).bind fun magic => ?_
  have noted : ∀ M : Memory, M.Recorded T → ({ M with magic := magic } : Memory).Recorded T :=
    fun _ h => h.of_same rfl (fun _ => rfl) rfl
  exact (records_onMemory noted).bind fun _ => records_onReader _

theorem records_loadItems (firstFile : Bool) : Records T (loadItems T firstFile) := by
  refine records_loopFuel.bind fun fuel => (records_onReader _).bind fun kind => ?_
  cases kind with
  | arrayBegin => exact records_readRecords fuel
  | string =>
      refine (records_onReader _).bind fun _ => records_getDumpOn.bind fun dumpOn =>
        (records_ensure _).bind fun _ => ?_
      exact Preserves.ite (records_readDump fuel) records_rSkip
  | _ => exact Preserves.throw _

theorem records_loadMark : Records T loadMark := by
  refine (records_attempt (records_onReader _)).bind fun begun => Preserves.ite ?_ ?_
  · exact records_getDumpOn.bind fun _ => (records_ensure _).bind fun _ =>
      (records_setDumpOn _).bind fun _ => Preserves.pure _
  · refine (records_onReader _).bind fun _ =>
      (records_attempt (records_onReader _)).bind fun ended => Preserves.ite ?_ ?_
    · exact records_getDumpOn.bind fun _ => (records_ensure _).bind fun _ =>
        (records_setDumpOn _).bind fun _ => Preserves.pure _
    · exact (records_onReader _).bind fun _ => (records_attempt records_readFileFooter).bind
        fun footer => (records_ensure _).bind fun _ => Preserves.pure _

theorem records_loadElement (firstFile : Bool) : Records T (loadElement T firstFile) := by
  refine (records_onReader _).bind fun kind => ?_
  cases kind with
  | arrayBegin =>
      have array : Records T (loadArray T firstFile) :=
        (records_onReader _).bind fun _ => (records_loadItems firstFile).bind fun _ =>
          (records_onReader _).bind fun _ => records_onReader _
      exact array.bind fun _ => Preserves.pure _
  | string => exact records_loadMark
  | _ => exact Preserves.throw _

theorem records_loadElements (firstFile : Bool) (fuel : ℕ) :
    Records T (loadElements T firstFile fuel) := by
  induction fuel with
  | zero => exact Preserves.throw _
  | succ fuel ih =>
      refine (records_onReader _).bind fun status => ?_
      cases status with
      | fail => exact Preserves.throw _
      | endOfFile => exact Preserves.pure _
      | success =>
          exact (records_loadElement firstFile).bind fun footer =>
            Preserves.ite (Preserves.pure _) ih

theorem records_loadHeader (firstFile : Bool) : Records T (loadHeader T firstFile) := by
  refine (records_onReader _).bind fun magic => (records_setDumpOn _).bind fun _ =>
    Preserves.get fun s => (records_ensure _).bind fun _ => Preserves.ite ?_ (Preserves.pure _)
  exact (records_onReader _).bind fun _ => records_setDumpOn _

theorem records_loadFile (firstFile : Bool) : Records T (loadFile T firstFile) := by
  have body : Records T (loadFileBody T firstFile) :=
    (records_loadHeader firstFile).bind fun _ => Preserves.get fun s =>
      records_loadElements firstFile _
  intro s hs
  have kept := body s hs
  unfold loadFile
  cases run : loadFileBody T firstFile s with
  | ok status t =>
      rw [run] at kept
      exact kept
  | error e t =>
      rw [run] at kept
      cases e <;> exact kept

theorem recorded_loadFiles {base : Bases} {firstFile : Bool} {M M' : Memory} {ending : FilesEnd}
    {files : List (ℕ × Bytes)} (h : M.Recorded T)
    (loaded : loadFiles T base firstFile M files = .ok (M', ending)) : M'.Recorded T := by
  induction files generalizing firstFile M with
  | nil =>
      cases loaded
      exact h
  | cons file files ih =>
      have kept := (records_loadFile firstFile) ⟨Reader.init file.2 base, M⟩ h
      rw [loadFiles] at loaded
      cases run : loadFile T firstFile ⟨Reader.init file.2 base, M⟩ with
      | error e s =>
          rw [run] at loaded
          cases loaded
      | ok status s =>
          rw [run] at loaded kept
          cases status with
          | corrupted =>
              cases loaded
              exact kept
          | unfinished =>
              cases loaded
              exact kept
          | success => exact ih kept loaded

end HybridDatabase.Database
