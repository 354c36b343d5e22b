/-
# Rejected transactions

The checksum of a transaction is compared behind its records, which are applied as they
are read.  So what a rejected transaction leaves in the dictionary are the changes that
were read before the point where it is rejected, and it leaves nothing exactly if these
cancel out.
-/

import HybridDatabase.Database.Changes
import HybridDatabase.Database.Files

namespace HybridDatabase.Database

open HybridDatabase.Base HybridDatabase.Storage

/-! ## Changes that cancel out -/

namespace Change

/-- It takes the node away. -/
def IsDelete : Change → Prop
  | .delete _ => True
  | _ => False

/-- It adds the node. -/
def IsCreate : Change → Prop
  | .create _ _ => True
  | _ => False

end Change

/-- The last value that the changes write to an attribute. -/
def lastWrite (index : ℕ) : List Change → Option Value
  | [] => none
  | .modify _ index' value :: changes =>
      (lastWrite index changes).or (if index' = index then some value else none)
  | _ :: changes => lastWrite index changes

/-- From `values` the writes of the changes lead to `target`. -/
def WritesTo (values target : List Value) (changes : List Change) : Prop :=
  values.length = target.length ∧
    ∀ index < target.length, (lastWrite index changes).or values[index]? = target[index]?

/-- The changes about one node leave it as it was.  A node that was not there is deleted
behind each creation.  A node that was there is either not deleted, and the last write
to each attribute is the value it had; or behind the last deletion it is created again
with the type and, in the end, the values it had. -/
def CancelOut (T : DatabaseType) (changes : List Change) : Option Node → Prop
  | none => ∀ front change back, changes = front ++ change :: back → change.IsCreate →
      ∃ later ∈ back, later.IsDelete
  | some node =>
      ((∀ change ∈ changes, ¬ change.IsDelete) ∧ WritesTo node.values node.values changes) ∨
      ∃ front last skipped id back,
        changes = front ++ last :: (skipped ++ .create node.type id :: back) ∧ last.IsDelete ∧
          (∀ change ∈ skipped, ¬ change.IsDelete ∧ ¬ change.IsCreate) ∧
          (∀ change ∈ back, ¬ change.IsDelete) ∧
          WritesTo (Change.initial T node.type) node.values back

section CancelOut

variable {T : DatabaseType}

/-- The attributes after the writes of the changes. -/
def writeAll (values : List Value) : List Change → List Value
  | [] => values
  | .modify _ index value :: changes => writeAll (values.set index value) changes
  | _ :: changes => writeAll values changes

theorem length_writeAll (values : List Value) (changes : List Change) :
    (writeAll values changes).length = values.length := by
  induction changes generalizing values with
  | nil => rfl
  | cons change changes ih =>
      cases change with
      | create type id => exact ih values
      | delete id => exact ih values
      | modify id index value => exact (ih _).trans (List.length_set ..)

theorem getElem?_writeAll {values : List Value} {index : ℕ} (inside : index < values.length)
    (changes : List Change) :
    (writeAll values changes)[index]? = (lastWrite index changes).or values[index]? := by
  induction changes generalizing values with
  | nil => rfl
  | cons change changes ih =>
      cases change with
      | create type id => exact ih inside
      | delete id => exact ih inside
      | modify id index' value =>
          rw [writeAll, ih (by rw [List.length_set]; exact inside), lastWrite, Option.or_assoc]
          congr 1
          by_cases here : index' = index
          · subst here
            rw [List.getElem?_set_self inside, if_pos rfl]
            rfl
          · rw [List.getElem?_set_ne here, if_neg here]
            rfl

theorem writeAll_eq_iff {values target : List Value} {changes : List Change} :
    writeAll values changes = target ↔ WritesTo values target changes := by
  constructor
  · rintro rfl
    have length := length_writeAll values changes
    exact ⟨length.symm, fun index inside =>
      (getElem?_writeAll (by omega) changes).symm⟩
  · rintro ⟨length, last⟩
    refine List.ext_getElem? fun index => ?_
    by_cases inside : index < target.length
    · rw [getElem?_writeAll (by omega), last index inside]
    · rw [List.getElem?_eq_none (by rw [length_writeAll]; omega),
        List.getElem?_eq_none (by omega)]

/-- Without a deletion a node stays, and its attributes are written. -/
theorem foldl_some {changes : List Change} (kept : ∀ change ∈ changes, ¬ change.IsDelete)
    (type : ℕ) (values : List Value) :
    changes.foldl (Change.onNode T) (some ⟨type, values⟩) =
      some ⟨type, writeAll values changes⟩ := by
  induction changes generalizing values with
  | nil => rfl
  | cons change changes ih =>
      have others := fun change member => kept change (List.mem_cons_of_mem _ member)
      cases change with
      | create type' id => exact ih others values
      | delete id => exact absurd trivial (kept _ List.mem_cons_self)
      | modify id index value => exact ih others _

/-- Without a creation there is no node. -/
theorem foldl_none {changes : List Change} (absent : ∀ change ∈ changes, ¬ change.IsCreate) :
    changes.foldl (Change.onNode T) none = none := by
  induction changes with
  | nil => rfl
  | cons change changes ih =>
      have others := fun change member => absent change (List.mem_cons_of_mem _ member)
      cases change with
      | create type id => exact absurd trivial (absent _ List.mem_cons_self)
      | delete id => exact ih others
      | modify id index value => exact ih others

theorem onNode_delete {change : Change} (deletes : change.IsDelete) (start : Option Node) :
    Change.onNode T start change = none := by
  cases change with
  | delete id => cases start <;> rfl
  | create type id => cases deletes
  | modify id index value => cases deletes

/-- A list has no element with `p`, or a first one. -/
theorem exists_first {α : Type} (p : α → Prop) (l : List α) :
    (∀ a ∈ l, ¬ p a) ∨ ∃ front a back, l = front ++ a :: back ∧ (∀ b ∈ front, ¬ p b) ∧ p a := by
  induction l with
  | nil => exact .inl fun _ member => absurd member List.not_mem_nil
  | cons a l ih =>
      by_cases here : p a
      · exact .inr ⟨[], a, l, rfl, fun _ member => absurd member List.not_mem_nil, here⟩
      · rcases ih with none | ⟨front, b, back, rfl, before, found⟩
        · exact .inl (List.forall_mem_cons.mpr ⟨here, none⟩)
        · exact .inr ⟨a :: front, b, back, rfl, List.forall_mem_cons.mpr ⟨here, before⟩, found⟩

/-- A list has no element with `p`, or a last one. -/
theorem exists_last {α : Type} (p : α → Prop) (l : List α) :
    (∀ a ∈ l, ¬ p a) ∨ ∃ front a back, l = front ++ a :: back ∧ p a ∧ ∀ b ∈ back, ¬ p b := by
  induction l with
  | nil => exact .inl fun _ member => absurd member List.not_mem_nil
  | cons a l ih =>
      rcases ih with none | ⟨front, b, back, rfl, found, behind⟩
      · by_cases here : p a
        · exact .inr ⟨[], a, l, rfl, here, none⟩
        · exact .inl (List.forall_mem_cons.mpr ⟨here, none⟩)
      · exact .inr ⟨a :: front, b, back, rfl, found, behind⟩

theorem cancelOut_none_iff {changes : List Change} :
    changes.foldl (Change.onNode T) none = none ↔ CancelOut T changes none := by
  constructor
  · rintro gone front change back rfl creates
    by_contra kept
    push Not at kept
    obtain ⟨node, created⟩ : ∃ node,
        Change.onNode T (front.foldl (Change.onNode T) none) change = some node := by
      cases change with
      | create type id =>
          cases front.foldl (Change.onNode T) none with
          | none => exact ⟨_, rfl⟩
          | some node => exact ⟨_, rfl⟩
      | delete id => cases creates
      | modify id index value => cases creates
    rw [List.foldl_append, List.foldl_cons, created, foldl_some kept] at gone
    cases gone
  · intro cancel
    rcases exists_last Change.IsCreate changes with none | ⟨front, change, back, rfl, creates, after⟩
    · exact foldl_none none
    · obtain ⟨later, member, deletes⟩ := cancel front change back rfl creates
      obtain ⟨between, rest, rfl⟩ := List.append_of_mem member
      have silent : ∀ change ∈ rest, ¬ change.IsCreate := fun change member =>
        after change (List.mem_append_right _ (List.mem_cons_of_mem _ member))
      rw [List.foldl_append, List.foldl_cons, List.foldl_append, List.foldl_cons,
        onNode_delete deletes, foldl_none silent]

theorem cancelOut_some_iff {changes : List Change} {node : Node} :
    changes.foldl (Change.onNode T) (some node) = some node ↔ CancelOut T changes (some node) := by
  have same (type : ℕ) (values : List Value) :
      some (Node.mk type values) = some node ↔ type = node.type ∧ values = node.values := by
    cases node
    simp
  constructor
  · intro restored
    rcases exists_last Change.IsDelete changes with kept | ⟨front, last, back, rfl, deletes, after⟩
    · rw [foldl_some kept] at restored
      exact .inl ⟨kept, writeAll_eq_iff.mp ((same _ _).mp restored).2⟩
    · rw [List.foldl_append, List.foldl_cons, onNode_delete deletes] at restored
      rcases exists_first Change.IsCreate back with none | ⟨skipped, change, rest, rfl, before, creates⟩
      · rw [foldl_none none] at restored
        cases restored
      · cases change with
        | delete id => cases creates
        | modify id index value => cases creates
        | create type id =>
            have silent : ∀ change ∈ rest, ¬ change.IsDelete := fun change member =>
              after change (List.mem_append_right _ (List.mem_cons_of_mem _ member))
            have created : Change.onNode T none (.create type id) =
                some ⟨type, Change.initial T type⟩ := rfl
            rw [List.foldl_append, foldl_none before, List.foldl_cons, created,
              foldl_some silent, same] at restored
            obtain ⟨rfl, values⟩ := restored
            exact .inr ⟨front, last, skipped, id, rest, rfl, deletes, fun change member =>
              ⟨after change (List.mem_append_left _ member), before change member⟩, silent,
              writeAll_eq_iff.mp values⟩
  · rintro (⟨kept, values⟩ | ⟨front, last, skipped, id, back, rfl, deletes, silent, kept, values⟩)
    · rw [foldl_some kept, same]
      exact ⟨rfl, writeAll_eq_iff.mpr values⟩
    · have created : Change.onNode T none (.create node.type id) =
          some ⟨node.type, Change.initial T node.type⟩ := rfl
      rw [List.foldl_append, List.foldl_cons, onNode_delete deletes, List.foldl_append,
        foldl_none fun change member => (silent change member).2, List.foldl_cons, created,
        foldl_some kept, same]
      exact ⟨rfl, writeAll_eq_iff.mpr values⟩

/-- The changes about a node lead back to it exactly if they cancel out. -/
theorem cancelOut_iff {changes : List Change} {start : Option Node} :
    changes.foldl (Change.onNode T) start = start ↔ CancelOut T changes start := by
  cases start with
  | none => exact cancelOut_none_iff
  | some node => exact cancelOut_some_iff

end CancelOut

/-! ## Transactions that are rejected -/

/-- A transaction begins with two arrays. -/
def RootElement.IsTransaction (element : RootElement) : Prop :=
  ∃ tail, element.data = stArrayBegin :: stArrayBegin :: tail

/-- The changes that are read in a transaction before its end or the point where it is
rejected. -/
def RootElement.changes (T : DatabaseType) (base : Bases) (M : Memory) (element : RootElement) :
    List Change :=
  match readArray (element.inBuffer base) with
  | .ok _ R => changesRead T (R.data.length + 1) M R
  | .error _ _ => []

/-- `load_file` rejects the element. -/
def RootElement.Rejected (T : DatabaseType) (firstFile : Bool) (base : Bases) (M : Memory)
    (element : RootElement) : Prop :=
  ∃ s, loadElement T firstFile ⟨element.inBuffer base, M⟩ = .error .failed s

section Transaction

variable {T : DatabaseType} {firstFile : Bool} {base : Bases} {M : Memory} {element : RootElement}

variable (T firstFile M) in
/-- A transaction is read as an array. -/
theorem loadElement_transaction (shape : element.IsTransaction)
    (fits : base.top + element.data.length + 256 ≤ 2 ^ 64) (rest : Bytes) :
    loadElement T firstFile ⟨(element.inBuffer base).withFile rest, M⟩ =
      (do loadArray T firstFile; return false : LoadM Bool)
        ⟨(element.inBuffer base).withFile rest, M⟩ := by
  obtain ⟨tail, data⟩ := shape
  have at_ : ((element.inBuffer base).withFile rest).At (stArrayBegin :: stArrayBegin :: tail) :=
    ⟨(RootElement.inBuffer_at fits).fits, [], data, rfl⟩
  rw [loadElement, bind_ok (onReader_ok (readerNext_at at_) M)]
  rfl

variable (T firstFile M) in
/-- What a transaction leaves, accepted or rejected, are the changes that were read. -/
theorem memoryAfter_transaction (shape : element.IsTransaction)
    (fits : base.top + element.data.length + 256 ≤ 2 ^ 64) :
    (memoryAfter (loadElement T firstFile ⟨element.inBuffer base, M⟩)).nodes =
      (applyChanges T M (element.changes T base M)).nodes := by
  have same : (element.inBuffer base).withFile [] = element.inBuffer base := rfl
  have array := loadElement_transaction T firstFile M shape fits []
  rw [same] at array
  rw [array, memoryAfter_bind fun _ _ => rfl, RootElement.changes]
  obtain ⟨tail, data⟩ := shape
  have at_ : (element.inBuffer base).At (stArrayBegin :: stArrayBegin :: tail) :=
    ⟨(RootElement.inBuffer_at fits).fits, [], data, rfl⟩
  have opened := readArray_at at_ le_rfl (show (0 : ℤ) + 1 < 2 ^ 31 by decide)
  set R₁ : Reader := { (element.inBuffer base).skip 1 with
    depth := (element.inBuffer base).depth + 1 } with hR₁
  have inside : R₁.At (stArrayBegin :: tail) :=
    (Reader.At.skip (show (element.inBuffer base).At ([stArrayBegin] ++ _) from at_)).withDepth _
  have looked : loopFuel ⟨R₁, M⟩ = .ok (R₁.data.length + 1) ⟨R₁, M⟩ := rfl
  have items : loadItems T firstFile ⟨R₁, M⟩ = readRecords T (R₁.data.length + 1) ⟨R₁, M⟩ := by
    rw [loadItems, bind_ok looked, bind_ok (onReader_ok (readerNext_at inside) M)]
    rfl
  rw [loadArray, bind_ok (onReader_ok opened M), opened, memoryAfter_bind fun _ t => ?_, items]
  · exact memoryAfter_readRecords T _ M R₁
  · rw [memoryAfter_bind fun _ _ => memoryAfter_onReader _ _, memoryAfter_onReader]

/-- A transaction that is rejected is rejected whatever follows in the file. -/
theorem loadElement_rejected {s : Loading} (shape : element.IsTransaction)
    (fits : base.top + element.data.length + 256 ≤ 2 ^ 64)
    (rejected : loadElement T firstFile ⟨element.inBuffer base, M⟩ = .error .failed s)
    (rest : Bytes) :
    loadElement T firstFile ⟨(element.inBuffer base).withFile rest, M⟩ =
      .error .failed (Loading.withFile rest s) := by
  have blind : LocalLoad (do loadArray T firstFile; return false : LoadM Bool) :=
    (local_loadArray firstFile).bind fun _ => Blind.pure _
  have alone := loadElement_transaction T firstFile M shape fits []
  have same : (element.inBuffer base).withFile [] = element.inBuffer base := rfl
  rw [same, rejected] at alone
  rw [loadElement_transaction T firstFile M shape fits rest]
  have moved := blind.commutes rest ⟨element.inBuffer base, M⟩
  rw [← alone] at moved
  exact moved

/-- A file with a rejected transaction is corrupted; the changes that were read in that
transaction stay. -/
theorem loadFile_rejected {magic : ℕ} {M₁ : Memory} {front : List RootElement}
    (rest : Bytes) (small : magic < 2 ^ 64) (expected : M.magic = 0 ∨ M.magic = magic)
    (fits : Addressable base (beginBytes T firstFile magic ++ rootBytes (front ++ [element])))
    (before : effects T firstFile base { M with dumpOn := firstFile } front = some M₁)
    (shape : element.IsTransaction) (rejected : element.Rejected T firstFile base M₁) :
    ∃ s, loadFile T firstFile ⟨Reader.init
        (beginBytes T firstFile magic ++ (rootBytes (front ++ [element]) ++ rest)) base, M⟩ =
          .ok .corrupted s ∧
      s.memory.nodes = (applyChanges T M₁ (element.changes T base M₁)).nodes := by
  obtain ⟨fitsBegin, fitsElements⟩ := fits.of_append
  rw [rootBytes_append] at fitsElements
  obtain ⟨fitsFront, fitsElement⟩ := fitsElements.of_append
  rw [show rootBytes [element] = element.bytes from List.append_nil _] at fitsElement
  set R₀ := Reader.init
    (beginBytes T firstFile magic ++ (rootBytes (front ++ [element]) ++ rest)) base with hR₀
  have space : R₀.base.top + (beginBytes T firstFile magic).length + 1024 ≤ 2 ^ 64 :=
    fitsBegin.space
  have room := fitsElement.space
  rw [element.length_bytes] at room
  have file : R₀.file = beginBytes T firstFile magic ++
      (rootBytes front ++ (element.bytes ++ rest)) := by
    simp [hR₀, Reader.init, rootBytes]
  obtain ⟨R₁, base₁, file₁, header⟩ := loadHeader_at (M := M) small expected space file
  have total := fitsFront.total
  obtain ⟨R₂, base₂, file₂, steps⟩ := loadElements_effects (by omega) base₁ file₁ before
  obtain ⟨s, refused⟩ := rejected
  have left := memoryAfter_transaction T firstFile M₁ shape
    (show base.top + element.data.length + 256 ≤ 2 ^ 64 by omega)
  rw [refused] at left
  refine ⟨Loading.withFile rest s, ?_, left⟩
  have count := length_le_rootBytes front
  obtain ⟨spare, fuel⟩ : ∃ n, R₁.file.length + 1 = n + 1 + front.length :=
    ⟨R₁.file.length - front.length, by rw [file₁, List.length_append]; omega⟩
  have opened : R₂.opened rest element.data = (element.inBuffer base).withFile rest :=
    opened_eq base₂ rest
  have body : loadFileBody T firstFile ⟨R₀, M⟩ = .error .failed (Loading.withFile rest s) := by
    unfold loadFileBody
    rw [bind_ok header, bind_ok (get_run _)]
    simp only [fuel]
    rw [steps, loadElements, bind_ok (readerBegin_element (by omega) file₂ M₁)]
    simp only
    rw [opened]
    exact bind_error (loadElement_rejected shape (by omega) refused rest)
  rw [loadFile, body]

/-- A rejected transaction leaves no trace exactly if the changes that were read before
the rejection cancel out for every node. -/
theorem rejected_unseen_iff {magic : ℕ} {M₁ : Memory} {front : List RootElement}
    (rest : Bytes) (small : magic < 2 ^ 64) (expected : M.magic = 0 ∨ M.magic = magic)
    (fits : Addressable base (beginBytes T firstFile magic ++ rootBytes (front ++ [element])))
    (before : effects T firstFile base { M with dumpOn := firstFile } front = some M₁)
    (shape : element.IsTransaction) (rejected : element.Rejected T firstFile base M₁) :
    ∃ s, loadFile T firstFile ⟨Reader.init
        (beginBytes T firstFile magic ++ (rootBytes (front ++ [element]) ++ rest)) base, M⟩ =
          .ok .corrupted s ∧
      (s.memory.nodes = M₁.nodes ↔ ∀ id,
        CancelOut T ((element.changes T base M₁).filter fun change => change.id = id)
          (M₁.nodes id)) := by
  obtain ⟨s, run, left⟩ := loadFile_rejected rest small expected fits before shape rejected
  refine ⟨s, run, ?_⟩
  rw [left]
  constructor
  · intro same id
    have here := congrFun same id
    rw [nodes_applyChanges] at here
    exact cancelOut_iff.mp here
  · intro cancel
    funext id
    rw [nodes_applyChanges]
    exact cancelOut_iff.mpr (cancel id)

end Transaction

/-- A database with one type of nodes, which have no attributes. -/
def oneType : DatabaseType where
  name := []
  version := []
  nodeTypes := [⟨[], [], by decide⟩]
  names := short_unnamed
  count := by decide

/-- A transaction that creates the node 1, without its checksum. -/
def creation : RootElement :=
  .ofBody (encodeArray (encodeArray
    (encodeNumber cbeNodeCreated ++ (encodeNumber 0 ++ encodeNumber 1)))) false

theorem creation_rejected :
    creation.Rejected oneType true 4096 { Memory.empty with dumpOn := true } := ⟨_, rfl⟩

theorem creation_changes :
    creation.changes oneType 4096 { Memory.empty with dumpOn := true } = [.create 0 1] := rfl

theorem creation_isTransaction : creation.IsTransaction := ⟨_, rfl⟩

theorem creation_fits :
    Addressable 4096 (beginBytes oneType true 7 ++ rootBytes ([] ++ [creation])) :=
  ⟨by decide, by decide⟩

/-- A creation without a checksum is rejected, and is not unseen. -/
theorem creation_not_unseen :
    ∃ s, loadFile oneType true ⟨Reader.init
        (beginBytes oneType true 7 ++ (rootBytes ([] ++ [creation]) ++ [])) 4096,
        Memory.empty⟩ = .ok .corrupted s ∧
      s.memory.nodes ≠ Memory.empty.nodes := by
  obtain ⟨s, run, iff⟩ := rejected_unseen_iff (M := Memory.empty) [] (by decide) (.inl rfl)
    creation_fits rfl creation_isTransaction creation_rejected
  refine ⟨s, run, fun same => ?_⟩
  have cancel := iff.mp same 1
  rw [creation_changes] at cancel
  obtain ⟨later, member, -⟩ := cancel [] (.create 0 1) [] rfl trivial
  exact absurd member List.not_mem_nil

/-- A rejected transaction can leave a trace. -/
theorem rejected_transaction_seen :
    ¬ ∀ (T : DatabaseType) (firstFile : Bool) (magic : ℕ) (base : Bases) (M M₁ : Memory)
      (front : List RootElement) (bad : RootElement) (rest : Bytes) (s : Loading),
      magic < 2 ^ 64 → (M.magic = 0 ∨ M.magic = magic) →
      Addressable base (beginBytes T firstFile magic ++ rootBytes (front ++ [bad])) →
      effects T firstFile base { M with dumpOn := firstFile } front = some M₁ →
      bad.IsTransaction → bad.Rejected T firstFile base M₁ →
      loadFile T firstFile ⟨Reader.init
        (beginBytes T firstFile magic ++ (rootBytes (front ++ [bad]) ++ rest)) base, M⟩ =
          .ok .corrupted s →
      s.memory.nodes = M₁.nodes := by
  intro claim
  obtain ⟨s, run, left⟩ := loadFile_rejected (M := Memory.empty) [] (by decide) (.inl rfl)
    creation_fits rfl creation_isTransaction creation_rejected
  have same := claim oneType true 7 4096 Memory.empty _ [] creation [] s (by decide) (.inl rfl)
    creation_fits rfl creation_isTransaction creation_rejected run
  rw [left, creation_changes] at same
  have here := congrFun same 1
  cases here

end HybridDatabase.Database
