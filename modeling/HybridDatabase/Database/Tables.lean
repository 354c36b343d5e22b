/-
# The tables of types while a file is loaded

Node types and attributes are found by numbers that stand in the file.  Here `load_file`
is run with a log of the places of the tables that it looks at, and of the modify records
that it meets.

The number of a node type is compared as it stands in the file.  The number of an attribute
goes through an `int` first: a number from `2 ^ 31` on may come out negative, which passes
the comparison, or as the number of an attribute that the record does not name.
-/

import HybridDatabase.Base.Logged
import HybridDatabase.Database.Files

namespace HybridDatabase.Database

open HybridDatabase.Base HybridDatabase.Storage

/-- A modify record of a node that is there: the type of the node and the number of the
attribute as it stands in the file. -/
structure ModifyRecord where
  type : ℕ
  number : ℕ
  deriving DecidableEq

/-- What is done with the tables. -/
inductive TableAccess
  /-- `D->node_types[index]` is used. -/
  | nodeType (index : ℕ)
  /-- The record is rejected. -/
  | reject (record : ModifyRecord)
  /-- `attributes[index]` of the type of the node is used for the record. -/
  | lookup (record : ModifyRecord) (index : ℤ)
  /-- The record changes the attribute of this index. -/
  | change (record : ModifyRecord) (index : ℤ)
  deriving DecidableEq

/-- Loads that log their accesses to the tables. -/
abbrev TableM := LoggedM ReadError Loading TableAccess

namespace Tables

variable (T : DatabaseType) (more : ℕ)

/-! ## Loading with a log

The calls are those of `load_file`.  The loops may take `more` turns than the loops there,
so a run that would not end is followed as far as one likes. -/

/-- `rSkip`. -/
def rSkip : LoadM Unit := do
  let fuel ← loopFuel
  onReader (readerSkip (fuel + more))

/-- `read_node_prepare`. -/
def readNodePrepare : TableM (Option (ℕ × NodeType)) := do
  let typeNr ← quiet (onReader readNumber)
  match T.nodeTypes[typeNr]? with
  | none => throw .failed
  | some type => do
      note (.nodeType typeNr)
      quiet do
        onMemory (Memory.call (.alloc typeNr))
        let id ← onReader readNumber
        onMemory (Memory.call (.setId id))
        let s ← get
        if (s.memory.nodes id).isSome then return none
        else do
          let node : Node := ⟨typeNr, type.attributes.map fun attr => attributeInit attr.type⟩
          onMemory fun M => { M.setNode id (some node) with counter := max M.counter id }
          onMemory (Memory.call .insert)
          return some (id, type)

/-- `read_node_load`. -/
def readNodeLoad : TableM Unit := do
  match ← readNodePrepare T with
  | none => throw .failed
  | some (id, type) => quiet (loadAttributes id 0 type.attributes)

/-- `read_node_create`. -/
def readNodeCreate : TableM Unit := do
  let _ ← readNodePrepare T
  return ()

/-- `read_node_modify`. -/
def readNodeModify : TableM Unit := do
  let id ← quiet (onReader readNumber)
  let number ← quiet (onReader readNumber)
  let attrId := toInt number
  let s ← quiet get
  match s.memory.nodes id with
  | none => quiet (rSkip more)
  | some node =>
      if attrId < 0 then do
        note (.lookup ⟨node.type, number⟩ attrId)
        throw .fault
      else
        match attributeAt T node.type attrId.toNat with
        | none => do
            note (.reject ⟨node.type, number⟩)
            throw .failed
        | some attr => do
            note (.lookup ⟨node.type, number⟩ attrId)
            let value ← quiet (onReader (attributeLoad attr.type))
            note (.change ⟨node.type, number⟩ attrId)
            quiet (onMemory fun M => M.setValue id attrId.toNat value)

/-- The record behind its number. -/
def readEvent (event : ℕ) : TableM Unit :=
  if event = cbeNodeModified then readNodeModify T more
  else if event = cbeNodeCreated then readNodeCreate T
  else if event = cbeNodeDeleted then quiet readNodeDelete
  else throw .failed

/-- The records of a transaction, up to the end of its array. -/
def readRecords : ℕ → TableM Unit
  | 0 => throw .outOfFuel
  | fuel + 1 => do
      match ← quiet (onReader readerNext) with
      | .arrayEnd => return ()
      | _ => do
          quiet (onReader readArray)
          let event ← quiet (onReader readNumber)
          readEvent T more event
          quiet (onReader readArrayEnd)
          readRecords fuel

/-- The nodes in an element of a dump, up to the end of its array. -/
def readDump : ℕ → TableM Unit
  | 0 => throw .outOfFuel
  | fuel + 1 => do
      match ← quiet (onReader readerNext) with
      | .arrayEnd => return ()
      | _ => do
          quiet (onReader readArray)
          readNodeLoad T
          quiet (onReader readArrayEnd)
          readDump fuel

/-- The items of the outer array of an element. -/
def loadItems (firstFile : Bool) : TableM Unit := do
  let fuel ← quiet loopFuel
  match ← quiet (onReader readerNext) with
  | .arrayBegin => readRecords T more (fuel + more)
  | .string => do
      quiet (onReader (rCheckNumber 0))
      let dumpOn ← quiet getDumpOn
      quiet (ensure dumpOn)
      if firstFile then readDump T (fuel + more) else quiet (rSkip more)
  | _ => throw .failed

/-- An element that is an array. -/
def loadArray (firstFile : Bool) : TableM Unit := do
  quiet (onReader readArray)
  loadItems T more firstFile
  quiet (onReader readArrayEnd)
  quiet (onReader (readerFinish true))

/-- One element, which `reader_begin` has loaded. -/
def loadElement (firstFile : Bool) : TableM Bool := do
  match ← quiet (onReader readerNext) with
  | .arrayBegin => do
      loadArray T more firstFile
      return false
  | .string => quiet loadMark
  | _ => throw .failed

/-- The loop of `load_file`. -/
def loadElements (firstFile : Bool) : ℕ → TableM LoadStatus
  | 0 => throw .outOfFuel
  | fuel + 1 => do
      match ← quiet (onReader readerBegin) with
      | .fail => throw .failed
      | .endOfFile => return .unfinished
      | .success => do
          let footer ← loadElement T more firstFile
          if footer then return .success else loadElements firstFile fuel

/-- `load_file`, with an exit for every failure. -/
def loadFileBody (firstFile : Bool) : TableM LoadStatus := do
  quiet (loadHeader T firstFile)
  let s ← quiet get
  loadElements T more firstFile (s.reader.file.length + 1)

/-- `load_file`. -/
def loadFile (firstFile : Bool) : TableM LoadStatus := fun s =>
  match loadFileBody T more firstFile s with
  | .error .failed s => .ok .corrupted s
  | result => result

end Tables

/-! ## What the log holds -/

variable (T : DatabaseType)

/-- `attributes_count` of a node type. -/
def attributesCount (type : ℕ) : ℕ := ((T.nodeTypes[type]?).map (·.attributes.length)).getD 0

theorem attributeAt_eq_none {type index : ℕ} (absent : attributeAt T type index = none) :
    attributesCount T type ≤ index := by
  unfold attributeAt at absent
  unfold attributesCount
  cases found : T.nodeTypes[type]? with
  | none => exact Nat.zero_le _
  | some nodeType =>
      rw [found] at absent
      exact List.getElem?_eq_none_iff.mp absent

theorem attributeAt_eq_some {type index : ℕ} {attr : NodeAttribute}
    (present : attributeAt T type index = some attr) : index < attributesCount T type := by
  unfold attributeAt at present
  unfold attributesCount
  cases found : T.nodeTypes[type]? with
  | none =>
      rw [found] at present
      cases present
  | some nodeType =>
      rw [found] at present
      exact (List.getElem?_eq_some_iff.mp present).1

namespace TableAccess

/-- The access stays inside the tables and uses the attribute that the record names; a
record is rejected only where it names no attribute. -/
def Right : TableAccess → Prop
  | nodeType index => index < T.nodeTypes.length
  | reject record => attributesCount T record.type ≤ record.number
  | lookup record index => 0 ≤ index ∧ index < attributesCount T record.type ∧
      index = record.number
  | change record index => 0 ≤ index ∧ index < attributesCount T record.type ∧
      index = record.number

/-- The record that is met, if it is one. -/
def record : TableAccess → Option ModifyRecord
  | nodeType _ => none
  | reject record => some record
  | lookup record _ => some record
  | change record _ => some record

/-- What the source does: it works with the number as an `int`. -/
def AsInt : TableAccess → Prop
  | nodeType index => index < T.nodeTypes.length
  | reject record => attributesCount T record.type ≤ toInt record.number
  | lookup record index => index = toInt record.number ∧
      index < attributesCount T record.type
  | change record index => index = toInt record.number ∧
      index < attributesCount T record.type

end TableAccess

/-- The number of the attribute is an `int`, or it is out of range as an `int` too. -/
def ModifyRecord.Plain (record : ModifyRecord) : Prop :=
  record.number < 2 ^ 31 ∨ attributesCount T record.type ≤ toInt record.number

theorem toInt_lt (x : ℤ) : toInt x < 2 ^ 31 := by
  unfold toInt
  have below := Int.bmod_lt (x := x) (m := 2 ^ 32) (by decide)
  omega

theorem toInt_le_natCast (n : ℕ) : toInt n ≤ n := by
  by_cases small : n < 2 ^ 31
  · rw [toInt_natCast small]
  · have below := toInt_lt n
    omega

theorem right_iff_plain {record : ModifyRecord}
    (inside : toInt record.number < attributesCount T record.type) :
    (0 ≤ toInt record.number ∧ toInt record.number < attributesCount T record.type ∧
      toInt record.number = record.number) ↔
      ∀ other, some record = some other → other.Plain T := by
  constructor
  · rintro ⟨-, -, same⟩ _ ⟨⟩
    have below := toInt_lt record.number
    exact .inl (by omega)
  · intro plain
    cases plain record rfl with
    | inl small =>
        rw [toInt_natCast small] at inside ⊢
        exact ⟨Int.natCast_nonneg _, inside, rfl⟩
    | inr outside => omega

/-- An access is right just when its record is plain. -/
theorem TableAccess.right_iff {access : TableAccess} (asInt : access.AsInt T) :
    access.Right T ↔ ∀ record, access.record = some record → record.Plain T := by
  cases access with
  | nodeType index => exact ⟨fun _ _ some => (nomatch some), fun _ => asInt⟩
  | reject record =>
      have low := toInt_le_natCast record.number
      have asInt : attributesCount T record.type ≤ toInt record.number := asInt
      refine ⟨?_, fun _ => ?_⟩
      · rintro - _ ⟨⟩
        exact .inr asInt
      · show attributesCount T record.type ≤ record.number
        omega
  | lookup record index =>
      obtain ⟨same, inside⟩ := asInt
      unfold Right TableAccess.record
      rw [same] at inside ⊢
      exact right_iff_plain T inside
  | change record index =>
      obtain ⟨same, inside⟩ := asInt
      unfold Right TableAccess.record
      rw [same] at inside ⊢
      exact right_iff_plain T inside

namespace Tables

variable {T} {more : ℕ}

theorem logs_rSkip : Logs (more = 0) (TableAccess.AsInt T) (quiet (rSkip more)) Database.rSkip := by
  have logs : Logs (more = 0) (TableAccess.AsInt T) (quiet (rSkip more)) (rSkip more) :=
    Logs.quiet _
  refine ⟨fun same => ?_, logs.entries⟩
  have erased := logs.erases same
  subst same
  exact erased

theorem logs_readNodePrepare :
    Logs (more = 0) (TableAccess.AsInt T) (readNodePrepare T) (Database.readNodePrepare T) := by
  refine (Logs.quiet _).bind fun typeNr => ?_
  cases found : T.nodeTypes[typeNr]? with
  | none => exact Logs.throw _
  | some type =>
      have inside : typeNr < T.nodeTypes.length := (List.getElem?_eq_some_iff.mp found).1
      exact Logs.note inside (Logs.quiet _)

theorem logs_readNodeLoad :
    Logs (more = 0) (TableAccess.AsInt T) (readNodeLoad T) (Database.readNodeLoad T) := by
  refine logs_readNodePrepare.bind fun prepared => ?_
  cases prepared with
  | none => exact Logs.throw _
  | some node => exact Logs.quiet _

theorem logs_readNodeCreate :
    Logs (more = 0) (TableAccess.AsInt T) (readNodeCreate T) (Database.readNodeCreate T) :=
  logs_readNodePrepare.bind fun _ => Logs.pure _

theorem logs_readNodeModify :
    Logs (more = 0) (TableAccess.AsInt T) (readNodeModify T more) (Database.readNodeModify T) := by
  refine (Logs.quiet _).bind fun id => (Logs.quiet _).bind fun number => Logs.get fun s => ?_
  cases s.memory.nodes id with
  | none => exact logs_rSkip
  | some node =>
      refine Logs.ite (fun negative => ?_) fun positive => ?_
      · refine Logs.note ⟨rfl, ?_⟩ (Logs.throw _)
        have none : (0 : ℤ) ≤ attributesCount T node.type := Int.natCast_nonneg _
        exact lt_of_lt_of_le negative none
      · have index : ((toInt number).toNat : ℤ) = toInt number :=
          Int.toNat_of_nonneg (not_lt.mp positive)
        cases found : attributeAt T node.type (toInt number).toNat with
        | none =>
            have outside := attributeAt_eq_none T found
            refine Logs.note ?_ (Logs.throw _)
            show (attributesCount T node.type : ℤ) ≤ toInt number
            omega
        | some attr =>
            have inside := attributeAt_eq_some T found
            have asInt : toInt number < attributesCount T node.type := by omega
            exact Logs.note ⟨rfl, asInt⟩ ((Logs.quiet _).bind fun value =>
              Logs.note ⟨rfl, asInt⟩ (Logs.quiet _))

theorem logs_readEvent (event : ℕ) :
    Logs (more = 0) (TableAccess.AsInt T) (readEvent T more event) (Database.readEvent T event) :=
  Logs.ite (fun _ => logs_readNodeModify) fun _ => Logs.ite (fun _ => logs_readNodeCreate) fun _ =>
    Logs.ite (fun _ => Logs.quiet _) fun _ => Logs.throw _

theorem logs_readRecords (fuel : ℕ) :
    Logs (more = 0) (TableAccess.AsInt T) (readRecords T more fuel)
      (Database.readRecords T fuel) := by
  induction fuel with
  | zero => exact Logs.throw _
  | succ fuel ih =>
      have one : Logs (more = 0) (TableAccess.AsInt T)
          (do
            quiet (onReader readArray)
            let event ← quiet (onReader readNumber)
            readEvent T more event
            quiet (onReader readArrayEnd)
            readRecords T more fuel)
          (do
            onReader readArray
            let event ← onReader readNumber
            Database.readEvent T event
            onReader readArrayEnd
            Database.readRecords T fuel) :=
        (Logs.quiet _).bind fun _ => (Logs.quiet _).bind fun event =>
          (logs_readEvent event).bind fun _ => (Logs.quiet _).bind fun _ => ih
      refine (Logs.quiet _).bind fun next => ?_
      cases next with
      | arrayEnd => exact Logs.pure _
      | arrayBegin => exact one
      | crc => exact one
      | dot => exact one
      | string => exact one
      | error => exact one

theorem logs_readDump (fuel : ℕ) :
    Logs (more = 0) (TableAccess.AsInt T) (readDump T fuel) (Database.readDump T fuel) := by
  induction fuel with
  | zero => exact Logs.throw _
  | succ fuel ih =>
      have one : Logs (more = 0) (TableAccess.AsInt T)
          (do
            quiet (onReader readArray)
            readNodeLoad T
            quiet (onReader readArrayEnd)
            readDump T fuel)
          (do
            onReader readArray
            Database.readNodeLoad T
            onReader readArrayEnd
            Database.readDump T fuel) :=
        (Logs.quiet _).bind fun _ => logs_readNodeLoad.bind fun _ =>
          (Logs.quiet _).bind fun _ => ih
      refine (Logs.quiet _).bind fun next => ?_
      cases next with
      | arrayEnd => exact Logs.pure _
      | arrayBegin => exact one
      | crc => exact one
      | dot => exact one
      | string => exact one
      | error => exact one

/-- A loop that may take more turns. -/
theorem Logs.longer {α : Type} {x : ℕ → TableM α} {y : ℕ → LoadM α} {P : TableAccess → Prop}
    (each : ∀ fuel, Logs (more = 0) P (x fuel) (y fuel)) (fuel : ℕ) :
    Logs (more = 0) P (x (fuel + more)) (y fuel) := by
  refine ⟨fun same => ?_, (each (fuel + more)).entries⟩
  subst same
  exact (each fuel).erases rfl

theorem logs_loadItems (firstFile : Bool) :
    Logs (more = 0) (TableAccess.AsInt T) (loadItems T more firstFile)
      (Database.loadItems T firstFile) := by
  refine (Logs.quiet _).bind fun fuel => (Logs.quiet _).bind fun next => ?_
  cases next with
  | arrayBegin => exact Logs.longer logs_readRecords fuel
  | string =>
      refine (Logs.quiet _).bind fun _ => (Logs.quiet _).bind fun dumpOn =>
        (Logs.quiet _).bind fun _ => ?_
      exact Logs.ite (fun _ => Logs.longer logs_readDump fuel) fun _ => logs_rSkip
  | arrayEnd => exact Logs.throw _
  | crc => exact Logs.throw _
  | dot => exact Logs.throw _
  | error => exact Logs.throw _

theorem logs_loadElement (firstFile : Bool) :
    Logs (more = 0) (TableAccess.AsInt T) (loadElement T more firstFile)
      (Database.loadElement T firstFile) := by
  have array : Logs (more = 0) (TableAccess.AsInt T) (loadArray T more firstFile)
      (Database.loadArray T firstFile) :=
    (Logs.quiet _).bind fun _ => (logs_loadItems firstFile).bind fun _ =>
      (Logs.quiet _).bind fun _ => Logs.quiet _
  refine (Logs.quiet _).bind fun next => ?_
  cases next with
  | arrayBegin => exact array.bind fun _ => Logs.pure _
  | string => exact Logs.quiet _
  | arrayEnd => exact Logs.throw _
  | crc => exact Logs.throw _
  | dot => exact Logs.throw _
  | error => exact Logs.throw _

theorem logs_loadElements (firstFile : Bool) (fuel : ℕ) :
    Logs (more = 0) (TableAccess.AsInt T) (loadElements T more firstFile fuel)
      (Database.loadElements T firstFile fuel) := by
  induction fuel with
  | zero => exact Logs.throw _
  | succ fuel ih =>
      refine (Logs.quiet _).bind fun status => ?_
      cases status with
      | fail => exact Logs.throw _
      | endOfFile => exact Logs.pure _
      | success =>
          refine (logs_loadElement firstFile).bind fun footer => ?_
          exact Logs.ite (fun _ => Logs.pure _) fun _ => ih

theorem logs_loadFileBody (firstFile : Bool) :
    Logs (more = 0) (TableAccess.AsInt T) (loadFileBody T more firstFile)
      (Database.loadFileBody T firstFile) :=
  (Logs.quiet _).bind fun _ => Logs.get fun _ => logs_loadElements firstFile _

theorem loadFile_log (firstFile : Bool) (s : Logged Loading TableAccess) :
    logOf (loadFile T more firstFile s) = logOf (loadFileBody T more firstFile s) := by
  unfold loadFile
  cases loadFileBody T more firstFile s with
  | ok status t => rfl
  | error e t =>
      cases e with
      | failed => rfl
      | fault => rfl
      | abort => rfl
      | outOfFuel => rfl

/-- Without its log the load is `load_file`. -/
theorem unlogged_loadFile (T : DatabaseType) (firstFile : Bool) (s : Loading) :
    unlogged (loadFile T 0 firstFile ⟨s, []⟩) = Database.loadFile T firstFile s := by
  have logs : Logs (0 = 0) (TableAccess.AsInt T) (loadFileBody T 0 firstFile)
      (Database.loadFileBody T firstFile) := logs_loadFileBody firstFile
  have erased := logs.erases rfl ⟨s, []⟩
  unfold loadFile Database.loadFile
  rw [erased]
  cases loadFileBody T 0 firstFile ⟨s, []⟩ with
  | ok status t => rfl
  | error e t =>
      cases e with
      | failed => rfl
      | fault => rfl
      | abort => rfl
      | outOfFuel => rfl

/-- `load_file` stays inside the tables and uses the attributes that the records name just
when every modify record of a node that is there has a plain number. -/
theorem loadFile_tables (T : DatabaseType) (firstFile : Bool) (s : Loading) :
    unlogged (loadFile T 0 firstFile ⟨s, []⟩) = Database.loadFile T firstFile s ∧
      ∀ more, (∀ access ∈ logOf (loadFile T more firstFile ⟨s, []⟩), access.Right T) ↔
        ∀ access ∈ logOf (loadFile T more firstFile ⟨s, []⟩),
          ∀ record, access.record = some record → record.Plain T := by
  refine ⟨unlogged_loadFile T firstFile s, fun more => ?_⟩
  have logs : Logs (more = 0) (TableAccess.AsInt T) (loadFileBody T more firstFile)
      (Database.loadFileBody T firstFile) := logs_loadFileBody firstFile
  have asInt := logs.logOf s
  rw [← loadFile_log] at asInt
  constructor
  · intro right access among
    exact (access.right_iff T (asInt access among)).mp (right access among)
  · intro plain access among
    exact (access.right_iff T (asInt access among)).mpr (plain access among)

/-- A database with one type of nodes, which have one attribute. -/
def oneAttribute : DatabaseType where
  name := [65]
  version := [49]
  nodeTypes := [⟨[78], [⟨[97], .uint8⟩], by decide⟩]
  names := by decide
  count := by decide

/-- A transaction creates a node and modifies its attribute with the number `2 ^ 32`. -/
def wideNumber : Bytes :=
  headerBytes oneAttribute 7 ++ frame (encodeArray (
    encodeArray (encodeNumber cbeNodeCreated ++ (encodeNumber 0 ++ encodeNumber 1)) ++
    encodeArray (encodeNumber cbeNodeModified ++
      (encodeNumber 1 ++ (encodeNumber (2 ^ 32) ++ encodeNumber 5))))) true

/-- The record changes the attribute 0, which it does not name. -/
theorem loadFile_other_attribute : ¬∀ (T : DatabaseType) (firstFile : Bool) (s : Loading) more,
    ∀ access ∈ logOf (loadFile T more firstFile ⟨s, []⟩), access.Right T := by
  intro right
  have log : logOf (loadFile oneAttribute 0 false
      ⟨⟨Reader.init wideNumber 4096, Memory.empty⟩, []⟩) =
        [.change ⟨0, 2 ^ 32⟩ 0, .lookup ⟨0, 2 ^ 32⟩ 0, .nodeType 0] := by decide +kernel
  have changed := right oneAttribute false ⟨Reader.init wideNumber 4096, Memory.empty⟩ 0
    (.change ⟨0, 2 ^ 32⟩ 0) (by rw [log]; exact List.mem_cons_self)
  obtain ⟨-, -, named⟩ : _ ∧ _ ∧ (0 : ℤ) = ((2 ^ 32 : ℕ) : ℤ) := changed
  exact absurd named (by decide)

end Tables

end HybridDatabase.Database
