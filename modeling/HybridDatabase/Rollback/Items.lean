/-
# Log items

`struct LogItem` as it lies in memory: bit fields, which keep the low bits of what is stored
in them, and two arrays of `MAX_ATTR_SIZE` bytes, one behind the other, so that a `memcpy`
that is too long for the first one goes on in the second.

An item is made by an attribute write or by a write to transactional memory, undone by
`log_undo_item`, and recorded by `process_transaction_log`.
-/

import HybridDatabase.Rollback.Memory

namespace HybridDatabase.Rollback

open HybridDatabase.Storage HybridDatabase.Database

/-! ## The structure -/

/-- `LI_TYPE_*`. -/
inductive LogItemType
  | raw
  | nodeModify
  | nodeAlloc
  | nodeDelete
  | memoryAlloc
  | memoryDelete
  deriving DecidableEq, Repr

/-- `MAX_ATTR_SIZE`. -/
def maxAttrSize : ℕ := 16

/-- `struct LogItem`; `data` is `data_old` and `data_new`. -/
structure LogItem where
  ptr : ℕ
  type : LogItemType
  size : BitVec 5
  index : BitVec 8
  offset : BitVec 12
  attrType : BitVec 4
  data : Bytes
  deriving DecidableEq, Repr

namespace LogItem

/-- An item of which only the pointer and the type are given. -/
def ofPtr (ptr : ℕ) (type : LogItemType) : LogItem :=
  ⟨ptr, type, 0, 0, 0, 0, List.replicate (2 * maxAttrSize) 0⟩

def dataOld (item : LogItem) : Bytes := item.data.take maxAttrSize

def dataNew (item : LogItem) : Bytes := item.data.drop maxAttrSize

/-- `memcpy` into the two arrays from a position on. -/
def copy (item : LogItem) (place : ℕ) (bytes : Bytes) : LogItem :=
  { item with
    data := (item.data.take place ++ bytes ++ item.data.drop (place + bytes.length)).take
      (2 * maxAttrSize) }

/-- `memcpy(item.data_old, …)`. -/
def copyOld (item : LogItem) (bytes : Bytes) : LogItem := item.copy 0 bytes

/-- `memcpy(item.data_new, …)`. -/
def copyNew (item : LogItem) (bytes : Bytes) : LogItem := item.copy maxAttrSize bytes

/-- The item of `trMemoryInternalWrite_` for an object of so many bytes. -/
def ofMemory (m : Contents) (ptr size : ℕ) : LogItem :=
  { ofPtr ptr .raw with size := BitVec.ofNat 5 size }.copyOld (m.read ptr size)

/-- The bit fields of the item of `trInternalWrite_`. -/
def attributeFields (node index offset : ℕ) (type : AttrType) : LogItem :=
  { ofPtr node .nodeModify with
    size := BitVec.ofNat 5 (attributeSize type)
    index := BitVec.ofNat 8 index
    offset := BitVec.ofNat 12 offset
    attrType := BitVec.ofNat 4 type.number }

/-- The item of `trInternalWrite_` before the attribute is assigned. -/
def ofAttribute (m : Contents) (node index offset : ℕ) (type : AttrType) : LogItem :=
  (attributeFields node index offset type).copyOld (m.read (node + offset) (attributeSize type))

/-- `log_undo_item` of a write: `memcpy` from `data_old` to the place of the write. -/
def undoWrite (m : Contents) (item : LogItem) : Contents :=
  m.write (item.ptr + item.offset.toNat) (item.data.take item.size.toNat)

/-- What `process_transaction_log` writes for a write to an attribute of a node with an id
that holds a value now. -/
def writeModify (W : Writer) (id : ℕ) (item : LogItem) (type : AttrType) (value : Value) :
    Option Writer := writeNodeModify W id item.index.toNat type value

end LogItem

/-! ## What an item names -/

/-- A write: to an attribute, in a type of nodes, of a new value, or to an object. -/
inductive Write
  | modify (node type index : ℕ) (attr : NodeAttribute) (new : Bytes)
  | memory (ptr : ℕ) (new : Bytes)
  deriving DecidableEq, Repr

namespace Write

variable {T : DatabaseType}

/-- The attribute is one of the type, and the value has its size. -/
def Valid (T : DatabaseType) : Write → Prop
  | .modify _ type index attr new =>
      attributeAt T type index = some attr ∧ new.length = attributeSize attr.type
  | .memory .. => True

/-- The value that is written. -/
def new : Write → Bytes
  | .modify _ _ _ _ new => new
  | .memory _ new => new

/-- The object that is written to. -/
def ptr : Write → ℕ
  | .modify node _ _ _ _ => node
  | .memory ptr _ => ptr

/-- The place of the value in the object. -/
def offset (L : NodeLayout T) : Write → ℕ
  | .modify _ type index _ _ => L.offset type index
  | .memory .. => 0

/-- Memory after the write. -/
def run (L : NodeLayout T) (m : Contents) (w : Write) : Contents :=
  m.write (w.ptr + w.offset L) w.new

/-- The item of the write. -/
def item (L : NodeLayout T) (m : Contents) : Write → LogItem
  | .modify node type index attr new =>
      (LogItem.ofAttribute m node index (L.offset type index) attr.type).copyNew new
  | .memory ptr new => LogItem.ofMemory m ptr new.length

/-- The item says everything about the write: its fields hold the full values they were built
from, the arrays the whole old and new value, undoing it puts every byte back, and its record
names the attribute. -/
structure Named (L : NodeLayout T) (m : Contents) (w : Write) : Prop where
  size : (w.item L m).size.toNat = w.new.length
  offset : (w.item L m).offset.toNat = w.offset L
  dataOld : (w.item L m).dataOld.take w.new.length = m.read (w.ptr + w.offset L) w.new.length
  undone : LogItem.undoWrite (w.run L m) (w.item L m) = m
  index : ∀ node type index attr new, w = .modify node type index attr new →
    (w.item L m).index.toNat = index
  attrType : ∀ node type index attr new, w = .modify node type index attr new →
    (w.item L m).attrType.toNat = attr.type.number
  dataNew : ∀ node type index attr new, w = .modify node type index attr new →
    (w.item L m).dataNew.take new.length = new
  recorded : ∀ node type index attr new, w = .modify node type index attr new →
    ∀ W id value, LogItem.writeModify W id (w.item L m) attr.type value =
      writeNodeModify W id index attr.type value

/-- The number of an attribute fits into `index`, and an object into `data_old`. -/
def Fits : Write → Prop
  | .modify _ _ index _ _ => index < 256
  | .memory _ new => new.length ≤ maxAttrSize

end Write

/-! ## What the fields keep -/

theorem attributeSize_le (type : AttrType) : attributeSize type ≤ maxAttrSize := by
  cases type <;> decide

theorem number_lt (type : AttrType) : type.number < 2 ^ 4 := by
  cases type <;> decide

/-- The offset of an attribute fits into its field. -/
theorem NodeLayout.offset_lt {T : DatabaseType} (L : NodeLayout T) {type index : ℕ}
    {attr : NodeAttribute} (at_ : attributeAt T type index = some attr) :
    L.offset type index < 2 ^ 12 := by
  have inside := L.inside type index attr at_
  have page := L.page type
  unfold pageSize nodeAllocatorBlockSize at page
  omega

namespace LogItem

variable {item : LogItem} {bytes : Bytes} {m : Contents}

theorem length_ofPtr (ptr : ℕ) (type : LogItemType) :
    (ofPtr ptr type).data.length = 2 * maxAttrSize := List.length_replicate ..

/-- A `memcpy` that starts in the two arrays. -/
theorem length_copy {place : ℕ} (room : item.data.length = 2 * maxAttrSize)
    (low : place ≤ 2 * maxAttrSize) : (item.copy place bytes).data.length = 2 * maxAttrSize := by
  simp only [copy, List.length_take, List.length_append, List.length_drop, room]
  omega

/-- What the arrays keep of an object. -/
theorem take_copyOld (item : LogItem) (m : Contents) (address : ℕ) {size : ℕ}
    (room : size ≤ 2 * maxAttrSize) :
    (item.copyOld (m.read address size)).data.take size = m.read address size := by
  have whole : (m.read address size ++
      item.data.drop (0 + (m.read address size).length)).take (m.read address size).length =
        m.read address size := List.take_left
  rw [Contents.length_read] at whole
  simp only [copyOld, copy, List.take_zero, List.nil_append, List.take_take, Nat.min_eq_left room,
    Contents.length_read]
  exact whole

/-- `data_new` lies behind `data_old`. -/
theorem dataOld_copyNew (room : item.data.length = 2 * maxAttrSize) :
    (item.copyNew bytes).dataOld = item.dataOld := by
  have half : (item.data.take maxAttrSize).length = maxAttrSize := by
    rw [List.length_take, room]
    rfl
  rw [dataOld, copyNew, copy, List.take_take, List.append_assoc,
    List.take_append_of_le_length (by rw [half]; exact Nat.min_le_left _ _), List.take_take]
  rfl

theorem take_dataNew_copyNew (room : item.data.length = 2 * maxAttrSize)
    (short : bytes.length ≤ maxAttrSize) : (item.copyNew bytes).dataNew.take bytes.length = bytes := by
  have half : (item.data.take maxAttrSize).length = maxAttrSize := by
    rw [List.length_take, room]
    rfl
  rw [dataNew, copyNew, copy, List.drop_take, List.append_assoc, List.drop_left' half,
    List.take_take, Nat.min_eq_left (by rw [Nat.two_mul, Nat.add_sub_cancel]; exact short),
    List.take_left]

/-- A short prefix of the arrays lies in `data_old`. -/
theorem take_dataOld {n : ℕ} (short : n ≤ maxAttrSize) : item.dataOld.take n = item.data.take n := by
  rw [dataOld, List.take_take, Nat.min_eq_left short]

end LogItem

namespace Write

variable {T : DatabaseType} {L : NodeLayout T} {m : Contents} {w : Write}

/-- The old value put back. -/
theorem undone_of {item : LogItem} (ptr : item.ptr = w.ptr) (offset : item.offset.toNat = w.offset L)
    (saved : item.data.take item.size.toNat = m.read (w.ptr + w.offset L) w.new.length) :
    LogItem.undoWrite (w.run L m) item = m := by
  rw [LogItem.undoWrite, ptr, offset, saved]
  exact Contents.write_write_read m _ _

/-- A write to an attribute with a number below 256. -/
theorem named_attribute {node type index : ℕ} {attr : NodeAttribute} {new : Bytes}
    (at_ : attributeAt T type index = some attr) (length : new.length = attributeSize attr.type)
    (fits : index < 256) : Named L m (.modify node type index attr new) := by
  have short : attributeSize attr.type ≤ maxAttrSize := attributeSize_le attr.type
  have room : (LogItem.ofAttribute m node index (L.offset type index) attr.type).data.length =
      2 * maxAttrSize := LogItem.length_copy (LogItem.length_ofPtr node .nodeModify) (Nat.zero_le _)
  have size : attributeSize attr.type % 2 ^ 5 = new.length := by
    rw [length, Nat.mod_eq_of_lt (Nat.lt_of_le_of_lt short (by decide))]
  have offset : L.offset type index % 2 ^ 12 = L.offset type index :=
    Nat.mod_eq_of_lt (L.offset_lt at_)
  have number : index % 2 ^ 8 = index := Nat.mod_eq_of_lt fits
  have saved : (item L m (.modify node type index attr new)).dataOld.take new.length =
      m.read (node + L.offset type index) new.length := by
    rw [length, item, LogItem.dataOld_copyNew room, LogItem.take_dataOld short]
    exact LogItem.take_copyOld _ m _ (Nat.le_trans short (by decide))
  refine ⟨size, offset, saved, undone_of rfl offset ?_, ?_, ?_, ?_, ?_⟩
  · show List.take (attributeSize attr.type % 2 ^ 5) _ = _
    rw [size, ← LogItem.take_dataOld (length ▸ short)]
    exact saved
  · rintro _ _ _ _ _ ⟨⟩
    exact number
  · rintro _ _ _ _ _ ⟨⟩
    exact Nat.mod_eq_of_lt (number_lt attr.type)
  · rintro _ _ _ _ _ ⟨⟩
    exact LogItem.take_dataNew_copyNew room (length ▸ short)
  · rintro _ _ _ _ _ ⟨⟩ W id value
    show writeNodeModify W id (index % 2 ^ 8) attr.type value = _
    rw [number]

/-- A write to an object of at most `MAX_ATTR_SIZE` bytes. -/
theorem named_memory {ptr : ℕ} {new : Bytes} (fits : new.length ≤ maxAttrSize) :
    Named L m (.memory ptr new) := by
  have size : new.length % 2 ^ 5 = new.length :=
    Nat.mod_eq_of_lt (Nat.lt_of_le_of_lt fits (by decide))
  have saved : (item L m (.memory ptr new)).data.take new.length = m.read ptr new.length :=
    LogItem.take_copyOld _ m ptr (Nat.le_trans fits (by decide))
  refine ⟨size, rfl, (LogItem.take_dataOld fits).trans saved, undone_of rfl rfl ?_, ?_, ?_, ?_, ?_⟩
  · show List.take (new.length % 2 ^ 5) _ = _
    rw [size]
    exact saved
  all_goals rintro _ _ _ _ _ ⟨⟩

/-- The item of a write says everything about it exactly when the number of the attribute is
below 256, or the object has at most `MAX_ATTR_SIZE` bytes. -/
theorem named_iff (L : NodeLayout T) (m : Contents) (valid : w.Valid T) :
    w.Named L m ↔ w.Fits := by
  cases w with
  | modify node type index attr new =>
      refine ⟨fun named => ?_, named_attribute valid.1 valid.2⟩
      have number := named.index node type index attr new rfl
      have low := (item L m (.modify node type index attr new)).index.isLt
      rw [number] at low
      exact low
  | memory ptr new =>
      refine ⟨fun named => ?_, named_memory⟩
      have saved := congrArg List.length named.dataOld
      rw [Contents.length_read, List.length_take, LogItem.dataOld, List.length_take] at saved
      show new.length ≤ maxAttrSize
      have whole : (Write.memory ptr new).new.length = new.length := rfl
      omega

end Write

/-! ## A type with many attributes -/

/-- A type with 257 attributes of one byte. -/
def wideType : DatabaseType where
  name := []
  version := []
  nodeTypes := [{
    name := []
    attributes := List.replicate 257 ⟨[], .uint8⟩
    count := by rw [List.length_replicate]; decide }]
  names := short_unnamed
  count := by decide

/-- Its attributes one after another. -/
def wideLayout : NodeLayout wideType where
  size _ := 24 + 257
  offset _ index := min (24 + index) (24 + 256)
  header _ := by decide
  page _ := by decide
  behind _ _ _ _ := by omega
  inside type index attr at_ := by
    obtain ⟨nodeType, found, at_⟩ := Option.bind_eq_some_iff.mp at_
    have only := List.eq_of_mem_singleton (List.mem_of_getElem? found)
    rw [only] at at_
    rw [List.eq_of_mem_replicate (List.mem_of_getElem? at_)]
    show min (24 + index) (24 + 256) + 1 ≤ 24 + 257
    omega

/-- A write to an attribute of this type. -/
def wideWrite (index : ℕ) : Write := .modify 4096 0 index ⟨[], .uint8⟩ [7]

theorem valid_wideWrite {index : ℕ} (inside : index < 257) : (wideWrite index).Valid wideType :=
  ⟨List.getElem?_replicate_of_lt inside, rfl⟩

/-- The first attribute is written as it should be. -/
theorem named_first : (wideWrite 0).Named wideLayout fun _ => 0 :=
  (Write.named_iff wideLayout (fun _ => 0) (valid_wideWrite (by decide))).mpr (Nat.zero_lt_succ 255)

/-- The last one is recorded as the first one. -/
theorem not_named_last : ¬ ∀ (T : DatabaseType) (L : NodeLayout T) (m : Contents) (w : Write),
    w.Valid T → w.Named L m := by
  intro always
  have named := always wideType wideLayout (fun _ => 0) (wideWrite 256)
    (valid_wideWrite (by decide))
  have number : BitVec.toNat (BitVec.ofNat 8 256) = 256 :=
    named.index 4096 0 256 ⟨[], .uint8⟩ [7] rfl
  exact absurd number (by decide)

end HybridDatabase.Rollback
