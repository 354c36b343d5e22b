/-
# Loading data files

`load_file` reads the header of a data file and then root elements up to a footer or
the end of the file: transactions, the nodes of a dump, and marks.  The records of a
transaction are applied to the dictionary of nodes as they are read.

A load ends with `failed` where the source jumps to `read_failed` or returns `false`,
and with the other errors of `ReadError` where it does not come back.
-/

import HybridDatabase.Database.Write

namespace HybridDatabase.Database

open HybridDatabase.Base HybridDatabase.Storage

/-! ## The state of a load -/

/-- What a load does with the memory of the nodes: `node_allocator_alloc`, `node->id = id`
for the node allocated last, `ndict_insert` of it with the `type->init` behind it, and the
`destroy`, `node_allocator_free` and `ndict_remove` of `read_node_delete`. -/
inductive NodeCall
  | alloc (type : ℕ)
  | setId (id : ℕ)
  | insert
  | free (id : ℕ)
  deriving DecidableEq, Repr

/-- What loading builds: the dictionary `IdToNode`, `D->node_id_counter`, what was done
with the memory of the nodes, the last call first, `*magic_nr`, and `dump_on` of
`load_file`. -/
structure Memory where
  nodes : ℕ → Option Node
  counter : ℕ
  calls : List NodeCall
  magic : ℕ
  dumpOn : Bool

namespace Memory

/-- The memory of a database in which nothing has been loaded. -/
def empty : Memory where
  nodes := fun _ => none
  counter := 1
  calls := []
  magic := 0
  dumpOn := false

/-- Put a node into the dictionary, or take it out. -/
def setNode (M : Memory) (id : ℕ) (node : Option Node) : Memory :=
  { M with nodes := Function.update M.nodes id node }

/-- Note a call. -/
def call (call : NodeCall) (M : Memory) : Memory := { M with calls := call :: M.calls }

/-- Take a node out, if it is there. -/
def delete (id : ℕ) (M : Memory) : Memory :=
  if (M.nodes id).isSome then (M.setNode id none).call (.free id) else M

/-- Set an attribute of a node. -/
def setValue (M : Memory) (id index : ℕ) (value : Value) : Memory :=
  M.setNode id ((M.nodes id).map fun node =>
    { node with values := node.values.set index value })

@[simp] theorem nodes_call (M : Memory) (call : NodeCall) : (M.call call).nodes = M.nodes := rfl

@[simp] theorem nodes_delete (M : Memory) (id : ℕ) :
    (M.delete id).nodes = Function.update M.nodes id none := by
  by_cases present : (M.nodes id).isSome = true
  · rw [delete, if_pos present]
    rfl
  · rw [delete, if_neg present]
    have absent : M.nodes id = none := by simpa using present
    rw [← absent, Function.update_eq_self]

end Memory

/-- A load: the reader of the file and the memory. -/
structure Loading where
  reader : Reader
  memory : Memory

/-- Loading calls act on both. -/
abbrev LoadM := EStateM ReadError Loading

/-- A call that acts on the reader alone. -/
def onReader {α : Type} (m : ReaderM α) : LoadM α :=
  onPart Loading.reader (fun R s => { s with reader := R }) m

/-- A step that acts on the memory alone. -/
def onMemory (f : Memory → Memory) : LoadM Unit := modify fun s => { s with memory := f s.memory }

/-- `Ensure(cond)`. -/
def ensure (cond : Bool) : LoadM Unit := if cond then pure () else throw .failed

/-- Run a call that answers `false` where it fails. -/
def attempt (m : LoadM Unit) : LoadM Bool := fun s =>
  match m s with
  | .ok _ s => .ok true s
  | .error .failed s => .ok false s
  | .error e s => .error e s

/-- The iterations a loop over the items of the current element can take: each takes a
byte of it. -/
def loopFuel : LoadM ℕ := fun s => .ok (s.reader.data.length + 1) s

/-- `rSkip`. -/
def rSkip : LoadM Unit := do
  let fuel ← loopFuel
  onReader (readerSkip fuel)

/-- `rCheckString`. -/
def rCheckString (text : Bytes) : ReaderM Unit := do
  let (address, length) ← readString
  check (length = text.length)
  let contents ← fetchMany address length
  check (contents = text)

/-- `rCheckNumber`. -/
def rCheckNumber (number : ℕ) : ReaderM Unit := do
  let got ← readNumber
  check (got = number)

/-! ## Records -/

/-- `read_node_prepare`; `none` stands for the answer -1.  The node is put into the
dictionary as `type->init` leaves it, which both callers run next. -/
def readNodePrepare (T : DatabaseType) : LoadM (Option (ℕ × NodeType)) := do
  let typeNr ← onReader readNumber
  match T.nodeTypes[typeNr]? with
  | none => throw .failed
  | some type => do
      onMemory (Memory.call (.alloc typeNr))
      let id ← onReader readNumber
      onMemory (Memory.call (.setId id))
      let s ← get
      if (s.memory.nodes id).isSome then return none
      else do
        let node : Node := ⟨typeNr, type.attributes.map fun attr => attributeInit attr.type⟩
        onMemory fun M => { M.setNode id (some node) with counter := max M.counter id }
        onMemory (Memory.call .insert)
        return some (id, type)

/-- The generated `load` function of a node type, from the attribute `index` on. -/
def loadAttributes (id : ℕ) : ℕ → List NodeAttribute → LoadM Unit
  | _, [] => pure ()
  | index, attr :: attrs => do
      let value ← onReader (attributeLoad attr.type)
      onMemory fun M => M.setValue id index value
      loadAttributes id (index + 1) attrs

/-- `read_node_load`. -/
def readNodeLoad (T : DatabaseType) : LoadM Unit := do
  match ← readNodePrepare T with
  | none => throw .failed
  | some (id, type) => loadAttributes id 0 type.attributes

/-- `read_node_create`. -/
def readNodeCreate (T : DatabaseType) : LoadM Unit := do
  let _ ← readNodePrepare T
  return ()

/-- `read_node_delete`. -/
def readNodeDelete : LoadM Unit := do
  let id ← onReader readNumber
  onMemory (Memory.delete id)

/-- The attribute of a node type with this index. -/
def attributeAt (T : DatabaseType) (type index : ℕ) : Option NodeAttribute :=
  (T.nodeTypes[type]?).bind fun type => type.attributes[index]?

/-- `read_node_modify`.  The index is an `int`: a negative one passes the comparison and
reads in front of the table of attributes. -/
def readNodeModify (T : DatabaseType) : LoadM Unit := do
  let id ← onReader readNumber
  let number ← onReader readNumber
  let attrId := toInt number
  let s ← get
  match s.memory.nodes id with
  | none => rSkip
  | some node =>
      if attrId < 0 then throw .fault
      else
        match attributeAt T node.type attrId.toNat with
        | none => throw .failed
        | some attr => do
            let value ← onReader (attributeLoad attr.type)
            onMemory fun M => M.setValue id attrId.toNat value

/-- The record behind its number. -/
def readEvent (T : DatabaseType) (event : ℕ) : LoadM Unit :=
  if event = cbeNodeModified then readNodeModify T
  else if event = cbeNodeCreated then readNodeCreate T
  else if event = cbeNodeDeleted then readNodeDelete
  else throw .failed

/-- The records of a transaction, up to the end of its array. -/
def readRecords (T : DatabaseType) : ℕ → LoadM Unit
  | 0 => throw .outOfFuel
  | fuel + 1 => do
      match ← onReader readerNext with
      | .arrayEnd => return ()
      | _ => do
          onReader readArray
          let event ← onReader readNumber
          readEvent T event
          onReader readArrayEnd
          readRecords T fuel

/-- The nodes in an element of a dump, up to the end of its array. -/
def readDump (T : DatabaseType) : ℕ → LoadM Unit
  | 0 => throw .outOfFuel
  | fuel + 1 => do
      match ← onReader readerNext with
      | .arrayEnd => return ()
      | _ => do
          onReader readArray
          readNodeLoad T
          onReader readArrayEnd
          readDump T fuel

/-! ## Marks -/

/-- `read_file_header`. -/
def readFileHeader (T : DatabaseType) : ReaderM ℕ := do
  let status ← readerBegin
  check (status = .success)
  readArray
  rCheckString (ascii "HybridDatabase Data File")
  rCheckString T.name
  rCheckString T.version
  readArrayEnd
  readerFinish true
  let status ← readerBegin
  check (status = .success)
  let magic ← readNumber
  readerFinish false
  return magic

/-- `read_file_footer`; the element is begun by the caller. -/
def readFileFooter : LoadM Unit := do
  onReader do
    rCheckString (ascii "END OF FILE")
    readerFinish false
    let status ← readerBegin
    check (status = .success)
  let magic ← onReader readNumber
  onMemory fun M => { M with magic := magic }
  onReader (readerFinish false)

/-- `read_dump_begin`. -/
def readDumpBegin : ReaderM Unit := do
  rCheckString (ascii "DUMP BEGIN")
  readerFinish false

/-- `read_dump_end`. -/
def readDumpEnd : ReaderM Unit := do
  rCheckString (ascii "DUMP END")
  readerFinish false

/-! ## Elements and files -/

/-- What `load_file` returns. -/
inductive LoadStatus
  | success
  | unfinished
  | corrupted
  deriving DecidableEq, Repr

def getDumpOn : LoadM Bool := fun s => .ok s.memory.dumpOn s

def setDumpOn (on : Bool) : LoadM Unit := onMemory fun M => { M with dumpOn := on }

/-- `reader_set_pos` to the begin of the element, where `reader_get_pos` was taken. -/
def rewind : LoadM Unit := onReader (modify fun R => { R with ptr := R.begin })

/-- The items of the outer array of an element: a transaction begins with an array, a
node of a dump with a number. -/
def loadItems (T : DatabaseType) (firstFile : Bool) : LoadM Unit := do
  let fuel ← loopFuel
  match ← onReader readerNext with
  | .arrayBegin => readRecords T fuel
  | .string => do
      onReader (rCheckNumber 0)
      let dumpOn ← getDumpOn
      ensure dumpOn
      if firstFile then readDump T fuel else rSkip
  | _ => throw .failed

/-- An element that is an array. -/
def loadArray (T : DatabaseType) (firstFile : Bool) : LoadM Unit := do
  onReader readArray
  loadItems T firstFile
  onReader readArrayEnd
  onReader (readerFinish true)

/-- An element that is a string; the answer says whether it was the footer. -/
def loadMark : LoadM Bool := do
  let begun ← attempt (onReader readDumpBegin)
  if begun then do
    let dumpOn ← getDumpOn
    ensure !dumpOn
    setDumpOn true
    return false
  else do
    rewind
    let ended ← attempt (onReader readDumpEnd)
    if ended then do
      let dumpOn ← getDumpOn
      ensure dumpOn
      setDumpOn false
      return false
    else do
      rewind
      let footer ← attempt readFileFooter
      ensure footer
      return true

/-- One element, which `reader_begin` has loaded; the answer says whether it was the
footer. -/
def loadElement (T : DatabaseType) (firstFile : Bool) : LoadM Bool := do
  match ← onReader readerNext with
  | .arrayBegin => do
      loadArray T firstFile
      return false
  | .string => loadMark
  | _ => throw .failed

/-- The loop of `load_file`. -/
def loadElements (T : DatabaseType) (firstFile : Bool) : ℕ → LoadM LoadStatus
  | 0 => throw .outOfFuel
  | fuel + 1 => do
      match ← onReader readerBegin with
      | .fail => throw .failed
      | .endOfFile => return .unfinished
      | .success => do
          let footer ← loadElement T firstFile
          if footer then return .success else loadElements T firstFile fuel

/-- The beginning of `load_file`: the header, and in the first file the mark of a dump. -/
def loadHeader (T : DatabaseType) (firstFile : Bool) : LoadM Unit := do
  let magic ← onReader (readFileHeader T)
  setDumpOn false
  let s ← get
  ensure (s.memory.magic = 0 || s.memory.magic = magic)
  if firstFile then do
    onReader do
      let status ← readerBegin
      check (status = .success)
      readDumpBegin
    setDumpOn true
  else pure ()

/-- `load_file`, with an exit for every failure.  Each iteration of the loop takes at
least the header of an element off the file. -/
def loadFileBody (T : DatabaseType) (firstFile : Bool) : LoadM LoadStatus := do
  loadHeader T firstFile
  let s ← get
  loadElements T firstFile (s.reader.file.length + 1)

/-- `load_file`. -/
def loadFile (T : DatabaseType) (firstFile : Bool) : LoadM LoadStatus := fun s =>
  match loadFileBody T firstFile s with
  | .error .failed s => .ok .corrupted s
  | result => result

end HybridDatabase.Database
