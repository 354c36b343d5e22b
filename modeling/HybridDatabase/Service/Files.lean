/-
# Files of the service thread

The service thread writes to the last data file of the database.  Where it is asked to,
it closes that file with a footer and goes on in a new one.

The database was opened for writing, so `_database_new_file` does not stop at its check
of `DB_READ_ONLY`, and `D->file_desc` is not -1.  A system call on an open descriptor does
what it is asked for; whether a new file can be opened is a parameter of the job.
-/

import HybridDatabase.Database.Reopen
import HybridDatabase.Service.Output

namespace HybridDatabase.Service

open HybridDatabase.Base HybridDatabase.Storage HybridDatabase.Database

/-! ## Files -/

/-- The ways the process can end. -/
inductive Death
  | utilDie
  | assertion
  deriving DecidableEq, Repr

/-- The data files and the writer of the service thread. -/
structure Files where
  /-- The files that were closed for a new one. -/
  earlier : List (ℕ × Bytes)
  /-- The number of the file that `D->file_desc` was opened for. -/
  number : ℕ
  /-- Whether `D->file_desc` is an open descriptor. -/
  isOpen : Bool
  output : Output
  /-- `D->current_file_index`. -/
  fileIndex : ℕ

/-- The service thread acts on the files, and the process may end. -/
abbrev FilesM := EStateM Death Files

namespace Files

/-- All data files, as they are on the disk. -/
def all (F : Files) : List (ℕ × Bytes) := F.earlier ++ [(F.number, F.output.written)]

/-- The file that was written first, and an empty writer. -/
def ofFile (number : ℕ) (file : Bytes) : Files where
  earlier := []
  number := number
  isOpen := true
  output := Output.ofFile file
  fileIndex := number

/-- The new file becomes the last one. -/
def startFile (header : Bytes) (F : Files) : Files where
  earlier := F.all
  number := F.fileIndex
  isOpen := true
  output := {
    buffer := F.output.buffer
    written := header
    synced := header
    synced_prefix := List.prefix_rfl }
  fileIndex := F.fileIndex

end Files

/-- `util_fd_write`. -/
def fdWrite (bytes : Bytes) : FilesM Unit := do
  let F ← get
  if F.isOpen then set { F with output := F.output.fdWrite bytes }
  else throw .utilDie

/-- `fsync`, of which nobody looks at the result. -/
def fsync : FilesM Unit := modify fun F =>
  if F.isOpen then { F with output := F.output.fsync } else F

/-- `util_fd_write` of the whole buffer and `writer_discart`. -/
def flush : FilesM Unit := do
  let F ← get
  fdWrite F.output.buffer
  modify fun F => { F with output := { F.output with buffer := [] } }

/-- `writer_direct_write`. -/
def directWrite (bytes : Bytes) : FilesM Unit := modify fun F =>
  { F with output := { F.output with buffer := F.output.buffer ++ bytes } }

/-- `buffered_write`. -/
def bufferedWrite (bytes : Bytes) : FilesM Unit := do
  let F ← get
  if F.output.buffer.length + bytes.length ≤ dbWriteBufferSize then directWrite bytes
  else if dbWriteBufferSize / 2 < bytes.length then do
    flush
    fdWrite bytes
  else do
    flush
    directWrite bytes

/-- `buffered_sync`. -/
def bufferedSync : FilesM Unit := do
  let F ← get
  if F.output.buffer.length ≠ 0 then do
    flush
    fsync
  else fsync

/-- What a fresh writer gives out. -/
@[irreducible]
def made (m : Writer → Option Writer) : FilesM Bytes :=
  match written m with
  | .ok bytes => pure bytes
  | .error _ => throw .assertion

/-- `utilEnsure(close(D->file_desc) == 0)`. -/
def closeDescriptor : FilesM Unit := do
  let F ← get
  if F.isOpen then set { F with isOpen := false }
  else throw .utilDie

/-- `_database_new_file`; `opens` says whether the new file can be opened. -/
def newFile (T : DatabaseType) (dumpBegin : Bool) (magic : ℕ) (opens : Bool) : FilesM Bool := do
  let footer ← made fun W => writeFileFooter W magic
  fdWrite footer
  closeDescriptor
  modify fun F => { F with fileIndex := F.fileIndex + 1 }
  if opens then do
    let header ← made fun W => do
      let W ← writeFileHeader W T magic
      if dumpBegin then writeDumpBegin W else some W
    modify (Files.startFile header)
    return true
  else return false

/-! ## Jobs -/

/-- `enum DbError`, where no dump is running. -/
inductive DbError
  | success
  | cannotCreateNewFile
  deriving DecidableEq, Repr

/-- The jobs that concern the files.  Of a commit this is what its writer holds; the new
file of a dump is one that cannot be opened. -/
inductive FileJob
  | commit (W : Bytes) (sync : Bool)
  | syncMe
  | createNewFile (magic : ℕ) (opens : Bool)
  | startDump (magic : ℕ)
  deriving DecidableEq, Repr

/-- `DB_SERVICE__CREATE_NEW_FILE`, and `DB_SERVICE__START_DUMP` up to its answer. -/
def serviceNewFile (T : DatabaseType) (dumpBegin : Bool) (magic : ℕ) (opens : Bool) :
    FilesM (Option DbError) := do
  bufferedSync
  let made ← newFile T dumpBegin magic opens
  return some (if made then .success else .cannotCreateNewFile)

/-- One job of `service_thread`, with the answer where the job has one. -/
def serviceJob (T : DatabaseType) : FileJob → FilesM (Option DbError)
  | .commit W false => do
      bufferedWrite W
      return none
  | .commit W true => do
      bufferedWrite W
      bufferedSync
      return none
  | .syncMe => do
      bufferedSync
      return none
  | .createNewFile magic opens => serviceNewFile T false magic opens
  | .startDump magic => serviceNewFile T true magic false

/-- The loop of `service_thread` over the jobs, and the last `buffered_sync`. -/
def serviceThread (T : DatabaseType) : List FileJob → FilesM Unit
  | [] => bufferedSync
  | job :: jobs => do
      let _ ← serviceJob T job
      serviceThread T jobs

/-! ## An open descriptor -/

section Open

variable {F : Files}

theorem fdWrite_open (isOpen : F.isOpen = true) (bytes : Bytes) :
    fdWrite bytes F = .ok () { F with output := F.output.fdWrite bytes } := by
  unfold fdWrite
  rw [bind_ok (get_run F), if_pos isOpen]
  rfl

theorem fsync_open (isOpen : F.isOpen = true) :
    fsync F = .ok () { F with output := F.output.fsync } := by
  rw [fsync, modify_run, if_pos isOpen]

theorem flush_open (isOpen : F.isOpen = true) :
    flush F = .ok () { F with output := F.output.flush } := by
  unfold flush
  rw [bind_ok (get_run F), bind_ok (fdWrite_open isOpen _)]
  rfl

theorem bufferedWrite_open (isOpen : F.isOpen = true) (bytes : Bytes) :
    bufferedWrite bytes F = .ok () { F with output := F.output.bufferedWrite bytes } := by
  unfold bufferedWrite Output.bufferedWrite
  rw [bind_ok (get_run F)]
  split
  · rfl
  · split
    · rw [bind_ok (flush_open isOpen)]
      exact fdWrite_open (F := { F with output := F.output.flush }) isOpen _
    · rw [bind_ok (flush_open isOpen)]
      rfl

theorem bufferedSync_open (isOpen : F.isOpen = true) :
    bufferedSync F = .ok () { F with output := F.output.bufferedSync } := by
  unfold bufferedSync Output.bufferedSync
  rw [bind_ok (get_run F)]
  split
  · rw [bind_ok (flush_open isOpen)]
    exact fsync_open isOpen
  · exact fsync_open isOpen

theorem made_of_writes {m : Writer → Option Writer} {enc : Bytes} (h : WritesElements m enc)
    (F : Files) : made m F = .ok enc F := by
  rw [made, written_of_writes h]
  rfl

/-- The file with its footer, closed. -/
def Files.close (magic : ℕ) (F : Files) : Files :=
  { F with
    isOpen := false
    output := F.output.fdWrite (footerBytes magic)
    fileIndex := F.fileIndex + 1 }

/-- `_database_new_file` closes the file before it opens the new one. -/
theorem newFile_open (T : DatabaseType) (isOpen : F.isOpen = true) (dumpBegin : Bool)
    (magic : ℕ) (opens : Bool) :
    newFile T dumpBegin magic opens F =
      if opens then .ok true ((F.close magic).startFile (beginBytes T dumpBegin magic))
      else .ok false (F.close magic) := by
  have closed : closeDescriptor { F with output := F.output.fdWrite (footerBytes magic) } =
      .ok () { F with output := F.output.fdWrite (footerBytes magic), isOpen := false } := by
    unfold closeDescriptor
    rw [bind_ok (get_run _)]
    simp only [isOpen, if_true]
    rfl
  unfold newFile
  rw [bind_ok (made_of_writes (writesElements_writeFileFooter magic) F),
    bind_ok (fdWrite_open isOpen _), bind_ok closed, bind_ok (modify_run _ _)]
  cases opens with
  | false => rfl
  | true =>
      have header : made (fun W => do
          let W ← writeFileHeader W T magic
          if dumpBegin then writeDumpBegin W else some W) (F.close magic) =
          .ok (beginBytes T dumpBegin magic) (F.close magic) := by
        rw [made, written_header]
        rfl
      simp only [if_true]
      exact bind_ok header

theorem serviceNewFile_open (T : DatabaseType) (isOpen : F.isOpen = true) (dumpBegin : Bool)
    (magic : ℕ) (opens : Bool) :
    serviceNewFile T dumpBegin magic opens F =
      if opens then .ok (some .success)
        ((Files.close magic { F with output := F.output.bufferedSync }).startFile
          (beginBytes T dumpBegin magic))
      else .ok (some .cannotCreateNewFile)
        (Files.close magic { F with output := F.output.bufferedSync }) := by
  unfold serviceNewFile
  rw [bind_ok (bufferedSync_open isOpen)]
  have new := newFile_open (F := { F with output := F.output.bufferedSync }) T isOpen dumpBegin
    magic opens
  cases opens with
  | false => rw [bind_ok new]; rfl
  | true => rw [bind_ok new]; rfl

end Open

/-! ## A closed descriptor -/

/-- What is on the disk behind a run, also where the process ended in it. -/
def onDisk {α : Type} : EStateM.Result Death Files α → List (ℕ × Bytes)
  | .ok _ F => F.all
  | .error _ F => F.all

/-- Behind `m` the descriptor is closed if it was, and the files are the same. -/
def LeavesClosed {α : Type} (m : FilesM α) : Prop :=
  ∀ files, Triple (fun F => F.isOpen = false ∧ F.all = files) m
    (fun _ F => F.isOpen = false ∧ F.all = files) (fun _ F => F.all = files)

/-- Without an open descriptor every `write` ends the process. -/
theorem fdWrite_closed {F : Files} (closed : F.isOpen = false) (bytes : Bytes) :
    fdWrite bytes F = .error .utilDie F := by
  unfold fdWrite
  rw [bind_ok (get_run F), closed, if_neg (by decide)]
  rfl

namespace LeavesClosed

variable {α β : Type} {m : FilesM α}

theorem pure (a : α) : LeavesClosed (Pure.pure a) := fun _ _ closed => closed

theorem bind {f : α → FilesM β} (h : LeavesClosed m) (hf : ∀ a, LeavesClosed (f a)) :
    LeavesClosed (m >>= f) := fun files =>
  Triple.bind (h files) fun a => hf a files

theorem look {f : Files → FilesM β} (h : ∀ F, LeavesClosed (f F)) :
    LeavesClosed (get >>= f) := by
  intro files F closed
  rw [bind_ok (get_run F)]
  exact h F files F closed

theorem change {f : Files → Files}
    (same : ∀ F : Files, F.isOpen = false → (f F).isOpen = false ∧ (f F).all = F.all) :
    LeavesClosed (modify f) := by
  rintro files F ⟨closed, rfl⟩
  exact same F closed

theorem fdWrite (bytes : Bytes) : LeavesClosed (Service.fdWrite bytes) := by
  rintro files F ⟨closed, rfl⟩
  rw [fdWrite_closed closed]
  exact rfl

theorem fsync : LeavesClosed Service.fsync := by
  rintro files F ⟨closed, rfl⟩
  rw [Service.fsync, modify_run, closed, if_neg (by decide)]
  exact ⟨closed, rfl⟩

theorem flush : LeavesClosed Service.flush :=
  look fun _ => (fdWrite _).bind fun _ => change fun _ closed => ⟨closed, rfl⟩

theorem directWrite (bytes : Bytes) : LeavesClosed (Service.directWrite bytes) :=
  change fun _ closed => ⟨closed, rfl⟩

theorem bufferedWrite (bytes : Bytes) : LeavesClosed (Service.bufferedWrite bytes) := by
  refine look fun F => ?_
  split
  · exact directWrite bytes
  · split
    · exact flush.bind fun _ => fdWrite bytes
    · exact flush.bind fun _ => directWrite bytes

theorem bufferedSync : LeavesClosed Service.bufferedSync := by
  refine look fun F => ?_
  split
  · exact flush.bind fun _ => fsync
  · exact fsync

/-- `_database_new_file` dies at the footer. -/
theorem newFile (T : DatabaseType) (dumpBegin : Bool) (magic : ℕ) (opens : Bool) :
    LeavesClosed (Service.newFile T dumpBegin magic opens) := by
  unfold Service.newFile
  intro files F closed
  rw [bind_ok (made_of_writes (writesElements_writeFileFooter magic) F),
    bind_error (fdWrite_closed closed.1 _)]
  exact closed.2

theorem serviceNewFile (T : DatabaseType) (dumpBegin : Bool) (magic : ℕ) (opens : Bool) :
    LeavesClosed (Service.serviceNewFile T dumpBegin magic opens) := by
  exact bufferedSync.bind fun _ => (newFile T dumpBegin magic opens).bind fun _ => pure _

theorem serviceJob (T : DatabaseType) (job : FileJob) :
    LeavesClosed (Service.serviceJob T job) := by
  cases job with
  | commit W sync =>
      cases sync with
      | false => exact (bufferedWrite W).bind fun _ => pure none
      | true => exact (bufferedWrite W).bind fun _ => bufferedSync.bind fun _ => pure none
  | syncMe => exact bufferedSync.bind fun _ => pure none
  | createNewFile magic opens => exact serviceNewFile T false magic opens
  | startDump magic => exact serviceNewFile T true magic false

theorem serviceThread (T : DatabaseType) (jobs : List FileJob) :
    LeavesClosed (Service.serviceThread T jobs) := by
  induction jobs with
  | nil => exact bufferedSync
  | cons job jobs ih => exact (serviceJob T job).bind fun _ => ih

end LeavesClosed

/-- Without an open descriptor nothing that is given to the service thread reaches a
file. -/
theorem onDisk_of_closed (T : DatabaseType) (jobs : List FileJob) {F : Files}
    (closed : F.isOpen = false) : onDisk (serviceThread T jobs F) = F.all := by
  have kept := LeavesClosed.serviceThread T jobs F.all F ⟨closed, rfl⟩
  cases run : serviceThread T jobs F with
  | ok a t =>
      rw [run] at kept
      exact kept.2
  | error e t =>
      rw [run] at kept
      exact kept

/-! ## A file that cannot be opened -/

/-- The jobs that open a new file. -/
def FileJob.opensFile (magic : ℕ) (job : FileJob) : Prop :=
  job = .createNewFile magic false ∨ job = .startDump magic

/-- What a job that could not open its file should leave behind: the current file is the
same, it is still open and has got nothing but what the writer held, and later
transactions get into it and are loaded with it. -/
structure LeavesDatabase (T : DatabaseType) (F F' : Files) : Prop where
  isOpen : F'.isOpen = true ∧ F'.number = F.number
  appended : F'.all = F.earlier ++ [(F.number, F.output.contents)]
  fileIndex : F'.fileIndex = F.fileIndex
  later : ∀ W sync, onDisk (serviceThread T [.commit W sync] F') =
    F.earlier ++ [(F.number, F.output.contents ++ W)]
  readBack : ∀ base parts sync M M',
    loadFiles T base true Memory.empty (F.earlier ++ [(F.number, F.output.contents)]) =
      .ok (M, .append) →
    effects T (F.earlier = []) base M parts = some M' →
    loadFiles T base true Memory.empty
      (onDisk (serviceThread T [.commit (rootBytes parts) sync] F')) = .ok (M', .append)

theorem bufferedSync_written (O : Output) : O.bufferedSync.written = O.contents := by
  unfold Output.bufferedSync
  split
  · rfl
  · next empty =>
      have none : O.buffer = [] := List.eq_nil_of_length_eq_zero (not_not.mp empty)
      simp [Output.contents, Output.fsync, none]

/-- A job that cannot open its file leaves the current one closed, behind a footer. -/
theorem serviceJob_notOpened (T : DatabaseType) {F : Files} (isOpen : F.isOpen = true)
    {magic : ℕ} {job : FileJob} (opens : job.opensFile magic) :
    ∃ F', serviceJob T job F = .ok (some .cannotCreateNewFile) F' ∧ F'.isOpen = false ∧
      F'.fileIndex = F.fileIndex + 1 ∧
      F'.all = F.earlier ++ [(F.number, F.output.contents ++ footerBytes magic)] := by
  refine ⟨Files.close magic { F with output := F.output.bufferedSync }, ?_, rfl, rfl, ?_⟩
  · rcases opens with rfl | rfl
    · exact serviceNewFile_open T isOpen false magic false
    · exact serviceNewFile_open T isOpen true magic false
  · show F.earlier ++ [(F.number, F.output.bufferedSync.written ++ footerBytes magic)] = _
    rw [bufferedSync_written]

theorem append_footer_ne (contents : Bytes) (magic : ℕ) :
    contents ++ footerBytes magic ≠ contents := by
  intro same
  have none : footerBytes magic = [] :=
    List.append_cancel_left (same.trans (List.append_nil contents).symm)
  rw [footerBytes, frame, Writer.frameHeader] at none
  cases none

/-- A job that cannot open its file never leaves the database as it was: the descriptor is
closed, the current file has got a footer, the number of the current file has changed, and
whatever is committed afterwards, the files stay as they are. -/
theorem notOpened_destroys (T : DatabaseType) (F : Files) (isOpen : F.isOpen = true)
    (magic : ℕ) (job : FileJob) (opens : job.opensFile magic) :
    ∃ F', serviceJob T job F = .ok (some .cannotCreateNewFile) F' ∧
      ¬ LeavesDatabase T F F' ∧ F'.isOpen = false ∧
      F'.all ≠ F.earlier ++ [(F.number, F.output.contents)] ∧
      F'.fileIndex ≠ F.fileIndex ∧
      ∀ jobs, onDisk (serviceThread T jobs F') = F'.all := by
  obtain ⟨F', run, closed, index, files⟩ := serviceJob_notOpened T isOpen opens
  refine ⟨F', run, fun kept => ?_, closed, fun same => ?_, by omega,
    fun jobs => onDisk_of_closed T jobs closed⟩
  · rw [kept.isOpen.1] at closed
    cases closed
  · rw [files] at same
    have last := List.append_cancel_left same
    rw [List.cons.injEq, Prod.mk.injEq] at last
    exact append_footer_ne _ _ last.1.2

/-- A new database: its file has a header and the marks of an empty dump. -/
def newDatabase (T : DatabaseType) : Files := Files.ofFile 1 (beginBytes T true 0 ++ dumpEndBytes)

/-- `load_data` leaves these files where there were none. -/
theorem newDatabase_of_loadData {T : DatabaseType} {base : Bases} {create : Bool}
    {directory : Directory} {D : Opening} (none : directory.files = [])
    (opened : loadData T base (Opening.start false create directory) = .ok D) :
    D.directory.files = (newDatabase T).all ∧ D.fileIndex = (newDatabase T).fileIndex ∧
      D.descriptor = .file (newDatabase T).number ∧ D.readOnly = false := by
  obtain ⟨present, files, sorted⟩ := directory
  obtain rfl : files = [] := none
  obtain ⟨D₁, checked, rest⟩ := exceptBind_eq_ok.mp opened
  obtain ⟨schema, -, rfl⟩ := checkSchema_ok checked
  obtain ⟨D₁, numbered, rest⟩ := exceptBind_eq_ok.mp rest
  simp only [checkNumbers, Opening.start, List.head?_nil] at numbered
  obtain rfl := Except.ok.inj numbered
  obtain ⟨⟨M, ending⟩, loaded, opened'⟩ := exceptBind_eq_ok.mp rest
  rw [loadFiles] at loaded
  obtain ⟨rfl, rfl⟩ := Prod.mk.inj (Except.ok.inj loaded)
  simp only [reduceCtorEq, decide_false, decide_true, Bool.or_false] at opened'
  set D₁ : Opening :=
    ⟨true, false, create, ⟨some schema, [], sorted⟩, 0, .closed, Memory.empty⟩ with hD₁
  have empty : D₁.directory.files = [] := rfl
  obtain ⟨new, made, files, -⟩ := create_empty empty 1
  set D₂ : Opening := { D₁ with directory := new, fileIndex := 1, descriptor := .file 1 } with hD₂
  have created : databaseNewFile T D₁ true 0 = .ok (D₂.fdWrite (beginBytes T true 0)) :=
    databaseNewFile_of rfl rfl made true 0
  have mark : written writeDumpEnd = .ok dumpEndBytes :=
    written_of_writes writesElements_writeDumpEnd
  have whole : openForWriting T D₁ true [] =
      .ok ((D₂.fdWrite (beginBytes T true 0)).fdWrite dumpEndBytes) := by
    rw [openForWriting, if_neg (show ¬ D₁.readOnly = true from Bool.false_ne_true)]
    refine exceptBind_eq_ok.mpr ⟨_, ?_, exceptBind_eq_ok.mpr ⟨_, mark, rfl⟩⟩
    rw [createFile, if_pos rfl]
    exact created
  obtain rfl := Except.ok.inj (opened'.symm.trans whole)
  refine ⟨?_, rfl, rfl, rfl⟩
  have begun : new.files = [] ++ [(1, [])] := files
  have first := files_append_last begun (beginBytes T true 0)
  rw [List.nil_append (beginBytes T true 0)] at first
  exact files_append_last first dumpEndBytes

/-- The second file of a new database cannot be opened. -/
theorem notOpened_destroys_new :
    ∃ F', serviceJob noTypes (.createNewFile 7 false) (newDatabase noTypes) =
      .ok (some .cannotCreateNewFile) F' ∧ ¬ LeavesDatabase noTypes (newDatabase noTypes) F' := by
  obtain ⟨F', run, destroyed, -⟩ :=
    notOpened_destroys noTypes (newDatabase noTypes) rfl 7 (.createNewFile 7 false) (.inl rfl)
  exact ⟨F', run, destroyed⟩

/-- A job that cannot open its file is not harmless. -/
theorem notOpened_not_harmless :
    ¬ ∀ (T : DatabaseType) (F F' : Files) (magic : ℕ) (job : FileJob), F.isOpen = true →
      job.opensFile magic → serviceJob T job F = .ok (some .cannotCreateNewFile) F' →
      LeavesDatabase T F F' := by
  intro claim
  obtain ⟨F', run, closed, -⟩ := serviceJob_notOpened (F := newDatabase noTypes) noTypes rfl
    (.inl rfl : (FileJob.createNewFile 7 false).opensFile 7)
  have kept := claim noTypes _ F' 7 _ rfl (.inl rfl) run
  rw [kept.isOpen.1] at closed
  cases closed

end HybridDatabase.Service
