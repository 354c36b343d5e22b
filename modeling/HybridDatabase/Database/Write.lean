/-
# Writing to data files

The schema of a database, the items of a transaction log, and the elements that are
written: headers, footers, the marks around a dump, nodes of a dump, and the records
of a transaction.
-/

import HybridDatabase.Database.Attribute

namespace HybridDatabase.Database

open HybridDatabase.Base HybridDatabase.Storage

/-! ## The schema -/

/-- The characters of a string constant of the source. -/
def ascii (text : String) : Bytes := text.toList.map fun c => UInt8.ofNat c.toNat

structure NodeAttribute where
  name : Bytes
  type : AttrType
  deriving DecidableEq, Repr

/-- A node type; `attributes_count` is an `int`. -/
structure NodeType where
  name : Bytes
  attributes : List NodeAttribute
  count : attributes.length < 2 ^ 31
  deriving DecidableEq, Repr

/-- The type of a database.  A node type has its position in `nodeTypes` as its id. -/
structure DatabaseType where
  name : Bytes
  version : Bytes
  nodeTypes : List NodeType
  names : name.length + version.length < 2 ^ 62
  count : nodeTypes.length < 2 ^ 64
  deriving DecidableEq, Repr

/-- Empty names are short enough. -/
theorem short_unnamed : ([] : Bytes).length + ([] : Bytes).length < 2 ^ 62 := by decide

/-- A node: the id of its type and what its attributes hold. -/
structure Node where
  type : ℕ
  values : List Value
  deriving DecidableEq, Repr

/-- `CBE_NODE_*`, the numbers in front of records. -/
def cbeNodeCreated : ℕ := 0
def cbeNodeModified : ℕ := 1
def cbeNodeDeleted : ℕ := 2

/-- The items of a transaction log.  Nodes are named by their ids.  A `LI_TYPE_RAW`
item saves a `ref_count` or another piece of transactional memory. -/
inductive LogItem
  | refCount (id dataOld : ℕ)
  | raw (address : ℕ) (dataOld : Bytes)
  | nodeModify (id index : ℕ) (attrType : AttrType) (dataOld dataNew : Value)
  | nodeAlloc (type id : ℕ)
  | nodeDelete (id : ℕ)
  | memoryAlloc (address : ℕ)
  | memoryDelete (address : ℕ)
  deriving DecidableEq, Repr

/-! ## Elements -/

/-- `wArray … wArrayEnd`. -/
def wArray (W : Writer) (items : Writer → Option Writer) : Option Writer := do
  let W ← W.writeArray
  let W ← items W
  W.writeArrayEnd

/-- `write_file_header`. -/
def writeFileHeader (W : Writer) (T : DatabaseType) (magic : ℕ) : Option Writer := do
  let W ← wArray W fun W => do
    let W ← W.writeString (ascii "HybridDatabase Data File")
    let W ← W.writeString T.name
    W.writeString T.version
  let W ← W.finish true
  let W ← W.writeNumber magic
  W.finish false

/-- `write_file_footer`. -/
def writeFileFooter (W : Writer) (magic : ℕ) : Option Writer := do
  let W ← W.writeString (ascii "END OF FILE")
  let W ← W.finish false
  let W ← W.writeNumber magic
  W.finish false

/-- `write_dump_begin`. -/
def writeDumpBegin (W : Writer) : Option Writer := do
  let W ← W.writeString (ascii "DUMP BEGIN")
  W.finish false

/-- `write_dump_end`. -/
def writeDumpEnd (W : Writer) : Option Writer := do
  let W ← W.writeString (ascii "DUMP END")
  W.finish false

/-- The generated `store` function of a node type. -/
def storeAttributes (W : Writer) : List NodeAttribute → List Value → Option Writer
  | attr :: attrs, value :: values => do
      let W ← attributeStore W attr.type value
      storeAttributes W attrs values
  | _, _ => some W

/-- `write_node_store`. -/
def writeNodeStore (W : Writer) (attrs : List NodeAttribute) (id : ℕ) (node : Node) :
    Option Writer :=
  wArray W fun W => do
    let W ← W.writeNumber node.type
    let W ← W.writeNumber id
    storeAttributes W attrs node.values

/-- The element that `do_dump` writes for one node. -/
def writeDumpNode (W : Writer) (attrs : List NodeAttribute) (id : ℕ) (node : Node) :
    Option Writer := do
  let W ← wArray W fun W => do
    let W ← W.writeNumber 0
    writeNodeStore W attrs id node
  W.finish true

/-- `write_node_alloc`. -/
def writeNodeAlloc (W : Writer) (type id : ℕ) : Option Writer :=
  wArray W fun W => do
    let W ← W.writeNumber cbeNodeCreated
    let W ← W.writeNumber type
    W.writeNumber id

/-- `write_node_delete`. -/
def writeNodeDelete (W : Writer) (id : ℕ) : Option Writer :=
  wArray W fun W => do
    let W ← W.writeNumber cbeNodeDeleted
    W.writeNumber id

/-- `write_node_modify`. -/
def writeNodeModify (W : Writer) (id attr : ℕ) (attrType : AttrType) (value : Value) :
    Option Writer :=
  wArray W fun W => do
    let W ← W.writeNumber cbeNodeModified
    let W ← W.writeNumber id
    let W ← W.writeNumber attr
    attributeStore W attrType value

/-- What `process_transaction_log` writes for one item. -/
def writeLogItem (W : Writer) : LogItem → Option Writer
  | .nodeModify id index attrType _ dataNew => writeNodeModify W id index attrType dataNew
  | .nodeAlloc type id => writeNodeAlloc W type id
  | .nodeDelete id => writeNodeDelete W id
  | _ => some W

/-- The loop of `process_transaction_log`. -/
def writeLogItems (W : Writer) : List LogItem → Option Writer
  | [] => some W
  | item :: log => do
      let W ← writeLogItem W item
      writeLogItems W log

/-- `process_transaction_log`, up to the garbage it collects. -/
def processTransactionLog (W : Writer) (log : List LogItem) : Option Writer := do
  let W ← wArray W fun W => writeLogItems W log
  W.finish true

/-! ## Records -/

/-- The records of a transaction. -/
inductive Record
  | modify (id index : ℕ) (attrType : AttrType) (value : Value)
  | create (type id : ℕ)
  | delete (id : ℕ)
  deriving DecidableEq, Repr

/-- The record of a log item, where it leaves one. -/
def LogItem.record : LogItem → Option Record
  | .nodeModify id index attrType _ dataNew => some (.modify id index attrType dataNew)
  | .nodeAlloc type id => some (.create type id)
  | .nodeDelete id => some (.delete id)
  | _ => none

/-- The records of a log, in its order. -/
def records (log : List LogItem) : List Record := log.filterMap LogItem.record

/-- The items of the array of a record. -/
def Record.items : Record → Option Bytes
  | .modify id index attrType value =>
      (attributeBytes attrType value).map fun enc =>
        encodeNumber cbeNodeModified ++ (encodeNumber id ++ (encodeNumber index ++ enc))
  | .create type id =>
      some (encodeNumber cbeNodeCreated ++ (encodeNumber type ++ encodeNumber id))
  | .delete id => some (encodeNumber cbeNodeDeleted ++ encodeNumber id)

/-- The bytes of a record; none where its value cannot be stored. -/
def Record.bytes (record : Record) : Option Bytes := record.items.map encodeArray

/-- The bytes of records one after another. -/
def recordsBytes : List Record → Option Bytes
  | [] => some []
  | record :: records => do
      let first ← record.bytes
      let others ← recordsBytes records
      return first ++ others

/-- The payload of the element of a transaction. -/
def transactionBytes (records : List Record) : Option Bytes :=
  (recordsBytes records).map encodeArray

theorem recordsBytes_cons {record : Record} {records : List Record} {enc : Bytes} :
    recordsBytes (record :: records) = some enc ↔
      ∃ first others, record.bytes = some first ∧ recordsBytes records = some others ∧
        enc = first ++ others := by
  simp only [recordsBytes, Option.bind_eq_bind, Option.bind_eq_some_iff, Option.pure_def,
    Option.some.injEq]
  constructor
  · rintro ⟨first, h, others, h', rfl⟩
    exact ⟨first, others, h, h', rfl⟩
  · rintro ⟨first, others, h, h', rfl⟩
    exact ⟨first, h, others, h', rfl⟩

/-! ## What is written -/

/-- The header of a data file. -/
def headerBytes (T : DatabaseType) (magic : ℕ) : Bytes :=
  frame (encodeArray (encodeString (ascii "HybridDatabase Data File") ++
    (encodeString T.name ++ encodeString T.version))) true ++ frame (encodeNumber magic) false

/-- The footer of a data file. -/
def footerBytes (magic : ℕ) : Bytes :=
  frame (encodeString (ascii "END OF FILE")) false ++ frame (encodeNumber magic) false

/-- The mark in front of a dump. -/
def dumpBeginBytes : Bytes := frame (encodeString (ascii "DUMP BEGIN")) false

/-- The mark behind a dump. -/
def dumpEndBytes : Bytes := frame (encodeString (ascii "DUMP END")) false

/-- The bytes of the attributes of a node. -/
def valuesBytes : List NodeAttribute → List Value → Option Bytes
  | attr :: attrs, value :: values => do
      let first ← attributeBytes attr.type value
      let others ← valuesBytes attrs values
      return first ++ others
  | _, _ => some []

/-- The array of a node in a dump. -/
def nodeBytes (attrs : List NodeAttribute) (id : ℕ) (node : Node) : Option Bytes :=
  (valuesBytes attrs node.values).map fun enc =>
    encodeArray (encodeNumber node.type ++ (encodeNumber id ++ enc))

/-- The payload of the element of a node in a dump. -/
def dumpNodeBytes (attrs : List NodeAttribute) (id : ℕ) (node : Node) : Option Bytes :=
  (nodeBytes attrs id node).map fun enc => encodeArray (encodeNumber 0 ++ enc)

theorem length_encodeArray (items : Bytes) : (encodeArray items).length = items.length + 2 := by
  simp [encodeArray]

theorem writes_text (contents : Bytes) (short : contents.length < 2 ^ 62) (d : ℕ) :
    Writes d (fun W => W.writeString contents) (encodeString contents) := by
  have fits : contents.length + stString < 2 ^ 64 := by simp only [stString]; omega
  have := length_encodeString_le fits
  exact Writes.writeString (by omega) d

theorem writesElements_writeFileHeader (T : DatabaseType) (magic : ℕ) :
    WritesElements (fun W => writeFileHeader W T magic) (headerBytes T magic) := by
  have names := T.names
  have title := writes_text (ascii "HybridDatabase Data File") (by decide) 0
  have rest := title.bind ((writes_text T.name (by omega) 0).bind
    (writes_text T.version (by omega) 0))
  have first := WritesElements.finish rest.array (by decide) true
  have second := WritesElements.finish (Writes.writeNumber magic 0) (by decide) false
  have both := first.bind second
  simpa only [writeFileHeader, wArray, headerBytes, Option.bind_eq_bind, Option.bind_assoc]
    using both

theorem writesElements_writeFileFooter (magic : ℕ) :
    WritesElements (fun W => writeFileFooter W magic) (footerBytes magic) := by
  have first := WritesElements.finish
    (writes_text (ascii "END OF FILE") (by decide) 0) (by decide) false
  have second := WritesElements.finish (Writes.writeNumber magic 0) (by decide) false
  have both := first.bind second
  simpa only [writeFileFooter, footerBytes, Option.bind_eq_bind, Option.bind_assoc] using both

theorem writesElements_writeDumpBegin : WritesElements writeDumpBegin dumpBeginBytes :=
  WritesElements.finish (writes_text (ascii "DUMP BEGIN") (by decide) 0) (by decide)
    false

theorem writesElements_writeDumpEnd : WritesElements writeDumpEnd dumpEndBytes :=
  WritesElements.finish (writes_text (ascii "DUMP END") (by decide) 0) (by decide)
    false

theorem writes_attributeStore {type : AttrType} {value : Value} {enc : Bytes}
    (stored : attributeBytes type value = some enc) (total : enc.length < 2 ^ 63) (d : ℕ) :
    Writes d (fun W => attributeStore W type value) enc :=
  fun _ _ _ h _ _ => holds_attributeStore h stored (by omega)

/-- The generated `store` function writes the attributes one after another. -/
theorem writes_storeAttributes {attrs : List NodeAttribute} {values : List Value} {enc : Bytes}
    (stored : valuesBytes attrs values = some enc) (total : enc.length < 2 ^ 63) (d : ℕ) :
    Writes d (fun W => storeAttributes W attrs values) enc := by
  induction attrs, values using valuesBytes.induct generalizing enc with
  | case1 attr attrs value values ih =>
      simp only [valuesBytes, Option.bind_eq_bind, Option.bind_eq_some_iff, Option.pure_def,
        Option.some.injEq] at stored
      obtain ⟨first, hfirst, others, hothers, rfl⟩ := stored
      rw [List.length_append] at total
      exact (writes_attributeStore hfirst (by omega) d).bind (ih hothers (by omega))
  | case2 attrs values short =>
      rw [valuesBytes.eq_2 attrs values short] at stored
      cases stored
      have nothing : (fun W => storeAttributes W attrs values) = some := by
        funext W
        exact storeAttributes.eq_2 W attrs values short
      rw [nothing]
      exact Writes.nothing d

/-- The element of a node in a dump. -/
theorem writesElements_writeDumpNode {attrs : List NodeAttribute} {id : ℕ} {node : Node}
    {body : Bytes} (bytes : dumpNodeBytes attrs id node = some body)
    (total : body.length < 2 ^ 63) :
    WritesElements (fun W => writeDumpNode W attrs id node) (frame body true) := by
  obtain ⟨array, hnode, rfl⟩ := Option.map_eq_some_iff.mp bytes
  obtain ⟨enc, stored, rfl⟩ := Option.map_eq_some_iff.mp hnode
  simp only [length_encodeArray, List.length_append] at total
  have values := writes_storeAttributes stored (by omega) 0
  have inner := ((Writes.writeNumber node.type 0).bind
    ((Writes.writeNumber id 0).bind values)).array
  exact WritesElements.finish ((Writes.writeNumber 0 1).bind inner).array (by decide) true

/-- An item of a log writes its record. -/
theorem writes_writeLogItem {item : LogItem} {record : Record} {enc : Bytes}
    (leaves : item.record = some record) (bytes : record.bytes = some enc)
    (total : enc.length < 2 ^ 63) : Writes 1 (fun W => writeLogItem W item) enc := by
  cases item with
  | refCount id dataOld => cases leaves
  | raw address dataOld => cases leaves
  | memoryAlloc address => cases leaves
  | memoryDelete address => cases leaves
  | nodeModify id index attrType dataOld dataNew =>
      cases leaves
      simp only [Record.bytes, Record.items, Option.map_map, Option.map_eq_some_iff,
        Function.comp_apply] at bytes
      obtain ⟨stored, value, rfl⟩ := bytes
      simp only [length_encodeArray, List.length_append] at total
      have items := (Writes.writeNumber cbeNodeModified 0).bind ((Writes.writeNumber id 0).bind
        ((Writes.writeNumber index 0).bind (writes_attributeStore value (by omega) 0)))
      exact items.array
  | nodeAlloc type id =>
      cases leaves
      cases bytes
      exact ((Writes.writeNumber cbeNodeCreated 0).bind
        ((Writes.writeNumber type 0).bind (Writes.writeNumber id 0))).array
  | nodeDelete id =>
      cases leaves
      cases bytes
      exact ((Writes.writeNumber cbeNodeDeleted 0).bind (Writes.writeNumber id 0)).array

theorem writeLogItem_of_record_none {item : LogItem} (leaves : item.record = none) (W : Writer) :
    writeLogItem W item = some W := by
  cases item with
  | refCount id dataOld => rfl
  | raw address dataOld => rfl
  | memoryAlloc address => rfl
  | memoryDelete address => rfl
  | nodeModify id index attrType dataOld dataNew => cases leaves
  | nodeAlloc type id => cases leaves
  | nodeDelete id => cases leaves

/-- A log writes its records one after another. -/
theorem writes_writeLogItems {log : List LogItem} {enc : Bytes}
    (bytes : recordsBytes (records log) = some enc) (total : enc.length < 2 ^ 63) :
    Writes 1 (fun W => writeLogItems W log) enc := by
  induction log generalizing enc with
  | nil =>
      cases bytes
      exact Writes.nothing 1
  | cons item log ih =>
      cases leaves : item.record with
      | none =>
          have same : records (item :: log) = records log := by
            simp only [records, List.filterMap_cons, leaves]
          rw [same] at bytes
          simpa only [writeLogItems, writeLogItem_of_record_none leaves, Option.bind_eq_bind,
            Option.bind_some] using ih bytes total
      | some record =>
          have split : records (item :: log) = record :: records log := by
            simp only [records, List.filterMap_cons, leaves]
          rw [split, recordsBytes_cons] at bytes
          obtain ⟨first, others, hfirst, hothers, rfl⟩ := bytes
          rw [List.length_append] at total
          exact (writes_writeLogItem leaves hfirst (by omega)).bind (ih hothers (by omega))

/-- The element of a transaction. -/
theorem writesElements_processTransactionLog {log : List LogItem} {body : Bytes}
    (bytes : transactionBytes (records log) = some body) (total : body.length < 2 ^ 63) :
    WritesElements (fun W => processTransactionLog W log) (frame body true) := by
  obtain ⟨enc, items, rfl⟩ := Option.map_eq_some_iff.mp bytes
  rw [length_encodeArray] at total
  exact WritesElements.finish (writes_writeLogItems items (by omega)).array (by decide) true

/-- What `write_node_modify` wrote can be stored. -/
theorem recordBytes_of_writeLogItem {W W' : Writer} {item : LogItem} {record : Record}
    (leaves : item.record = some record) (written : writeLogItem W item = some W') :
    ∃ enc, record.bytes = some enc := by
  cases item with
  | refCount id dataOld => cases leaves
  | raw address dataOld => cases leaves
  | memoryAlloc address => cases leaves
  | memoryDelete address => cases leaves
  | nodeAlloc type id =>
      cases leaves
      exact ⟨_, rfl⟩
  | nodeDelete id =>
      cases leaves
      exact ⟨_, rfl⟩
  | nodeModify id index attrType dataOld dataNew =>
      cases leaves
      simp only [writeLogItem, writeNodeModify, wArray, Option.bind_eq_bind,
        Option.bind_eq_some_iff] at written
      obtain ⟨_, _, _, ⟨_, _, _, _, _, _, stored⟩, _⟩ := written
      obtain ⟨enc, bytes⟩ := attributeBytes_of_attributeStore stored
      simp only [Record.bytes, Record.items, bytes, Option.map_some]
      exact ⟨_, rfl⟩

theorem recordsBytes_of_writeLogItems {W W' : Writer} {log : List LogItem}
    (written : writeLogItems W log = some W') : ∃ enc, recordsBytes (records log) = some enc := by
  induction log generalizing W with
  | nil => exact ⟨[], rfl⟩
  | cons item log ih =>
      simp only [writeLogItems, Option.bind_eq_bind, Option.bind_eq_some_iff] at written
      obtain ⟨W₁, first, others⟩ := written
      obtain ⟨rest, hrest⟩ := ih others
      cases leaves : item.record with
      | none =>
          have same : records (item :: log) = records log := by
            simp only [records, List.filterMap_cons, leaves]
          exact ⟨rest, by rw [same, hrest]⟩
      | some record =>
          have split : records (item :: log) = record :: records log := by
            simp only [records, List.filterMap_cons, leaves]
          obtain ⟨enc, henc⟩ := recordBytes_of_writeLogItem leaves first
          exact ⟨enc ++ rest, by rw [split, recordsBytes_cons]; exact ⟨_, _, henc, hrest, rfl⟩⟩

/-- A log that `process_transaction_log` comes through has an element. -/
theorem transactionBytes_of_written {W W' : Writer} {log : List LogItem}
    (written : processTransactionLog W log = some W') :
    ∃ body, transactionBytes (records log) = some body := by
  simp only [processTransactionLog, wArray, Option.bind_eq_bind, Option.bind_eq_some_iff]
    at written
  obtain ⟨_, ⟨_, _, _, items, _⟩, _⟩ := written
  obtain ⟨enc, bytes⟩ := recordsBytes_of_writeLogItems items
  exact ⟨encodeArray enc, by simp only [transactionBytes, bytes, Option.map_some]⟩

/-- The element that `process_transaction_log` leaves in a fresh writer holds the records. -/
theorem output_processTransactionLog {W : Writer} {log : List LogItem} {enc : Bytes}
    (total : ∀ body, transactionBytes (records log) = some body → body.length < 2 ^ 63)
    (written : processTransactionLog Writer.init log = some W) (output : W.output = some enc) :
    ∃ items, recordsBytes (records log) = some items ∧ enc = frame (encodeArray items) true := by
  obtain ⟨body, bytes⟩ := transactionBytes_of_written written
  obtain ⟨W', written', output'⟩ :=
    (writesElements_processTransactionLog bytes (total body bytes)).output
  obtain rfl := Option.some.inj (written.symm.trans written')
  obtain ⟨items, stored, rfl⟩ := Option.map_eq_some_iff.mp bytes
  exact ⟨items, stored, Option.some.inj (output.symm.trans output')⟩

end HybridDatabase.Database
