/-
# Opening a database

`load_data` checks the schema, loads the data files of a directory in the order of their
numbers, and then creates a new data file or opens the last one for writing.

The directory is what `scandir` and `open` see of it.  No system call fails, except that
a file that exists cannot be created again, and file numbers stay below the range of
`int`.
-/

import HybridDatabase.Database.Load

namespace HybridDatabase.Database

open HybridDatabase.Base HybridDatabase.Storage

/-! ## The schema -/

def writeSchemaAttributes (W : Writer) : List NodeAttribute → Option Writer
  | [] => some W
  | attr :: attrs => do
      let W ← wArray W fun W => do
        let W ← W.writeString attr.name
        W.writeNumber attr.type.number
      writeSchemaAttributes W attrs

def writeSchemaTypes (W : Writer) : List NodeType → Option Writer
  | [] => some W
  | type :: types => do
      let W ← wArray W fun W => do
        let W ← W.writeString type.name
        writeSchemaAttributes W type.attributes
      writeSchemaTypes W types

/-- `write_schema`. -/
def writeSchema (T : DatabaseType) (W : Writer) : Option Writer := do
  let W ← wArray W fun W => do
    let W ← W.writeString (ascii "HybridDatabase Database Schema")
    let W ← W.writeString T.name
    let W ← W.writeString T.version
    writeSchemaTypes W T.nodeTypes
  W.finish true

def readSchemaAttributes : List NodeAttribute → ReaderM Unit
  | [] => pure ()
  | attr :: attrs => do
      readArray
      rCheckString attr.name
      rCheckNumber attr.type.number
      readArrayEnd
      readSchemaAttributes attrs

def readSchemaTypes : List NodeType → ReaderM Unit
  | [] => pure ()
  | type :: types => do
      readArray
      rCheckString type.name
      readSchemaAttributes type.attributes
      readArrayEnd
      readSchemaTypes types

/-- `read_schema`. -/
def readSchema (T : DatabaseType) : ReaderM Unit := do
  let status ← readerBegin
  check (status = .success)
  readArray
  rCheckString (ascii "HybridDatabase Database Schema")
  rCheckString T.name
  rCheckString T.version
  readSchemaTypes T.nodeTypes
  readArrayEnd
  readerFinish true

/-! ## Directories -/

/-- The schema and the data files of a database, by their numbers. -/
structure Directory where
  schema : Option Bytes
  files : List (ℕ × Bytes)
  sorted : files.Pairwise fun a b => a.1 < b.1

namespace Directory

/-- Add bytes to the end of a file. -/
def append (directory : Directory) (number : ℕ) (bytes : Bytes) : Directory where
  schema := directory.schema
  files := directory.files.map fun file =>
    if file.1 = number then (file.1, file.2 ++ bytes) else file
  sorted := by
    refine directory.sorted.map _ fun a b less => ?_
    split <;> split <;> exact less

/-- Put an empty file between those with other numbers. -/
def insertFile (number : ℕ) : List (ℕ × Bytes) → List (ℕ × Bytes)
  | [] => [(number, [])]
  | file :: files =>
      if number < file.1 then (number, []) :: file :: files else file :: insertFile number files

theorem mem_insertFile {number : ℕ} {files : List (ℕ × Bytes)} {file : ℕ × Bytes}
    (member : file ∈ insertFile number files) : file = (number, []) ∨ file ∈ files := by
  induction files with
  | nil => exact .inl (List.mem_singleton.mp member)
  | cons first files ih =>
      rw [insertFile] at member
      split at member
      · exact List.mem_cons.mp member
      · rcases List.mem_cons.mp member with rfl | member
        · exact .inr List.mem_cons_self
        · rcases ih member with same | member
          · exact .inl same
          · exact .inr (List.mem_cons_of_mem _ member)

theorem sorted_insertFile {number : ℕ} {files : List (ℕ × Bytes)}
    (sorted : files.Pairwise fun a b => a.1 < b.1) (fresh : ∀ file ∈ files, file.1 ≠ number) :
    (insertFile number files).Pairwise fun a b => a.1 < b.1 := by
  induction files with
  | nil => exact List.pairwise_singleton _ _
  | cons first files ih =>
      obtain ⟨above, others⟩ := List.pairwise_cons.mp sorted
      have different : first.1 ≠ number := fresh first List.mem_cons_self
      rw [insertFile]
      split
      · rename_i less
        refine List.pairwise_cons.mpr ⟨fun file member => ?_, sorted⟩
        rcases List.mem_cons.mp member with rfl | member
        · exact less
        · exact less.trans (above file member)
      · refine List.pairwise_cons.mpr ⟨fun file member => ?_,
          ih others fun file member => fresh file (List.mem_cons_of_mem _ member)⟩
        rcases mem_insertFile member with rfl | member
        · show first.1 < number
          omega
        · exact above file member

/-- `open` with `O_CREAT | O_EXCL`. -/
def create (directory : Directory) (number : ℕ) : Option Directory :=
  if fresh : ∀ file ∈ directory.files, file.1 ≠ number then
    some {
      schema := directory.schema
      files := insertFile number directory.files
      sorted := sorted_insertFile directory.sorted fresh }
  else none

end Directory

/-! ## The database -/

/-- What `D->file_desc` refers to. -/
inductive Descriptor
  /-- The value -1. -/
  | closed
  | devNull
  | file (number : ℕ)
  deriving DecidableEq, Repr

/-- A database while it is opened: whether `D->filename` is not empty, the flags
`DB_READ_ONLY` and `DB_CREATE`, and what `load_data` changes. -/
structure Opening where
  named : Bool
  readOnly : Bool
  create : Bool
  directory : Directory
  fileIndex : ℕ
  descriptor : Descriptor
  memory : Memory

/-- A database that `database_create` has allocated. -/
def Opening.start (readOnly create : Bool) (directory : Directory) : Opening where
  named := true
  readOnly := readOnly
  create := create
  directory := directory
  fileIndex := 0
  descriptor := .closed
  memory := Memory.empty

/-- `util_fd_write`. -/
def Opening.fdWrite (D : Opening) (bytes : Bytes) : Opening :=
  match D.descriptor with
  | .file number => { D with directory := D.directory.append number bytes }
  | _ => D

/-- What a fresh writer gives out. -/
def written (m : Writer → Option Writer) : Except ReadError Bytes :=
  match (m Writer.init).bind Writer.output with
  | some bytes => .ok bytes
  | none => .error .abort

/-- The part of `_database_new_file` that closes the current file. -/
def closeFile (D : Opening) (magic : ℕ) : Except ReadError Opening :=
  if D.descriptor = .closed then .ok D
  else do
    let footer ← written fun W => writeFileFooter W magic
    return D.fdWrite footer

/-- `_database_new_file`. -/
def databaseNewFile (T : DatabaseType) (D : Opening) (dumpBegin : Bool) (magic : ℕ) :
    Except ReadError Opening :=
  if D.readOnly then .ok D
  else do
    let D ← closeFile D magic
    match D.directory.create (D.fileIndex + 1) with
    | none => throw .failed
    | some directory => do
        let header ← written fun W => do
          let W ← writeFileHeader W T magic
          if dumpBegin then writeDumpBegin W else some W
        let D : Opening := { D with
          directory := directory
          fileIndex := D.fileIndex + 1
          descriptor := .file (D.fileIndex + 1) }
        return D.fdWrite header

/-- The schema in the directory, or the one that is written for a new database. -/
def schemaFile (T : DatabaseType) (D : Opening) : Except ReadError Bytes :=
  match D.directory.schema with
  | some schema => .ok schema
  | none =>
      if D.directory.files = [] ∧ D.create then written (writeSchema T) else .error .failed

/-- The part of `load_data` that checks the schema. -/
def checkSchema (T : DatabaseType) (base : Bases) (D : Opening) : Except ReadError Opening := do
  let schema ← schemaFile T D
  match readSchema T (Reader.init schema base) with
  | .ok _ _ => return { D with directory := { D.directory with schema := some schema } }
  | .error e _ => throw e

/-- The part of `load_data` that looks for holes in the sequence of data files. -/
def checkNumbers (D : Opening) : Except ReadError Opening :=
  match D.directory.files.head?, D.directory.files.getLast? with
  | some first, some last =>
      if (last.1 : ℤ) - first.1 = D.directory.files.length - 1 then
        .ok { D with fileIndex := last.1 }
      else .error .failed
  | _, _ => .ok D

/-- How the loop over the data files ends. -/
inductive FilesEnd
  | readOnly
  | append
  | createNew
  deriving DecidableEq, Repr

/-- The loop of `load_data` over the data files. -/
def loadFiles (T : DatabaseType) (base : Bases) :
    Bool → Memory → List (ℕ × Bytes) → Except ReadError (Memory × FilesEnd)
  | _, M, [] => .ok (M, .createNew)
  | firstFile, M, file :: files =>
      match loadFile T firstFile ⟨Reader.init file.2 base, M⟩ with
      | .error e _ => .error e
      | .ok .corrupted s => .ok (s.memory, .readOnly)
      | .ok .unfinished s => .ok (s.memory, if files = [] then .append else .readOnly)
      | .ok .success s => loadFiles T base false s.memory files

/-- `if (create_new_file) _database_new_file(…)`. -/
def createFile (T : DatabaseType) (D : Opening) (createNew dumpBegin : Bool) :
    Except ReadError Opening :=
  if createNew then databaseNewFile T D dumpBegin D.memory.magic else .ok D

/-- The end of `load_data`.  The `else` of the source belongs to `if (!files_count)`: it
opens the last file that was loaded also where a new file has been created. -/
def openForWriting (T : DatabaseType) (D : Opening) (createNew : Bool)
    (files : List (ℕ × Bytes)) : Except ReadError Opening :=
  if D.readOnly then .ok { D with descriptor := .devNull }
  else do
    let D ← createFile T D createNew (files = [])
    match files.getLast? with
    | none => do
        let mark ← written writeDumpEnd
        return D.fdWrite mark
    | some last => return { D with descriptor := .file last.1 }

/-- `load_data`. -/
def loadData (T : DatabaseType) (base : Bases) (D : Opening) : Except ReadError Opening :=
  if D.named then do
    let D ← checkSchema T base D
    let D ← checkNumbers D
    let (memory, ending) ← loadFiles T base true D.memory D.directory.files
    let D := { D with memory := memory, readOnly := D.readOnly || ending = .readOnly }
    openForWriting T D (ending = .createNew) D.directory.files
  else .ok { D with readOnly := true, descriptor := .devNull }

end HybridDatabase.Database
