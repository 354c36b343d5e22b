/-
# Appending to an opened database

The service thread appends transactions to the file that `load_data` has opened.  They
are seen by the next load if there was no data file or the last one was not closed by a
footer.  Behind a closed file, `load_data` creates a new one and then opens the closed
one again, and what is written there is behind its footer.
-/

import HybridDatabase.Database.Files
import HybridDatabase.Database.Open

namespace HybridDatabase.Database

open HybridDatabase.Base HybridDatabase.Storage

/-! ## Files to which elements are appended -/

/-- The load of a longer file. -/
def Loading.longer (more : Bytes) (s : Loading) : Loading :=
  { s with reader := s.reader.longer more }

section Longer

variable {T : DatabaseType} {firstFile : Bool} {more : Bytes}

theorem survives_begin {α : Type} {f : ReaderM α}
    (h : Survives (Reader.longer more) Reader.base f) :
    Survives (Reader.longer more) Reader.base (do
      let status ← readerBegin
      check (status = .success)
      f) := by
  intro R a R' run
  obtain ⟨status, R₁, begun, rest⟩ := bind_eq_ok.mp run
  by_cases success : status = .success
  · subst success
    obtain ⟨longer, -, base⟩ := readerBegin_longer begun more
    obtain ⟨others, base'⟩ := h _ _ _ rest
    refine ⟨?_, base'.trans base⟩
    rw [bind_ok longer]
    exact others
  · have failed : check (status = .success) R₁ = .error .failed R₁ := by
      simp only [check, success, decide_false, Bool.false_eq_true, if_false, throw_run]
    rw [bind_error failed] at rest
    cases rest

theorem survives_onReader {α : Type} {m : ReaderM α}
    (h : Survives (Reader.longer more) Reader.base m) :
    Survives (Loading.longer more) Loading.base (onReader m) :=
  h.onPart (fun _ => rfl) (fun _ _ => rfl) fun _ _ same => same

theorem survives_setDumpOn (on : Bool) :
    Survives (Loading.longer more) Loading.base (setDumpOn on) := by
  intro s a t run
  cases run
  exact ⟨rfl, rfl⟩

theorem survives_ensure (cond : Bool) :
    Survives (Loading.longer more) Loading.base (ensure cond) := by
  intro s a t run
  cases cond with
  | true =>
      cases run
      exact ⟨rfl, rfl⟩
  | false => cases run

theorem survives_readFileHeader :
    Survives (Reader.longer more) Reader.base (readFileHeader T) := by
  have now {α : Type} {m : ReaderM α} (h : Local m) := survives_of_local h more
  exact survives_begin <| (now local_readArray).bind fun _ =>
    (now (local_rCheckString _)).bind fun _ => (now (local_rCheckString _)).bind fun _ =>
      (now (local_rCheckString _)).bind fun _ => (now local_readArrayEnd).bind fun _ =>
        (now (local_readerFinish _)).bind fun _ => survives_begin <|
          (now local_readNumber).bind fun _ => (now (local_readerFinish _)).bind fun _ =>
            now (Blind.pure _)

theorem survives_loadHeader (more : Bytes) :
    Survives (Loading.longer more) Loading.base (loadHeader T firstFile) := by
  refine (survives_onReader survives_readFileHeader).bind fun magic =>
    (survives_setDumpOn false).bind fun _ => Survives.get (fun _ => rfl) fun s =>
      (survives_ensure _).bind fun _ => ?_
  cases firstFile with
  | true =>
      exact (survives_onReader (survives_begin (survives_of_local local_readDumpBegin more))).bind
        fun _ => survives_setDumpOn true
  | false =>
      intro s a t run
      cases run
      exact ⟨rfl, rfl⟩

/-- A loop that comes to the end of a file goes on with what is appended. -/
theorem loadElements_longer {fuel : ℕ} {R : Reader} {M : Memory} {s : Loading}
    (run : loadElements T firstFile fuel ⟨R, M⟩ = .ok .unfinished s) (more : Bytes) :
    ∃ (taken : ℕ) (R' : Reader), taken ≤ R.file.length ∧ R'.base = R.base ∧ R'.file = more ∧
      ∀ n, loadElements T firstFile (n + taken) ⟨R.longer more, M⟩ =
        loadElements T firstFile n ⟨R', s.memory⟩ := by
  induction fuel generalizing R M with
  | zero => cases run
  | succ fuel ih =>
      rw [loadElements] at run
      obtain ⟨status, ⟨R₁, M₁⟩, begun, rest⟩ := bind_eq_ok.mp run
      have reading : readerBegin R = .ok status R₁ ∧ M₁ = M := by
        cases inner : readerBegin R with
        | ok a R₂ =>
            rw [onReader_ok inner M] at begun
            cases begun
            exact ⟨rfl, rfl⟩
        | error e R₂ =>
            rw [onReader_error inner M] at begun
            cases begun
      obtain ⟨reading, rfl⟩ := reading
      cases status with
      | fail => cases rest
      | endOfFile =>
          cases rest
          obtain ⟨ended, -⟩ := readerBegin_endOfFile reading
          refine ⟨0, R.longer more, Nat.zero_le _, rfl, ?_, fun n => rfl⟩
          show R.file ++ more = more
          rw [ended, List.nil_append]
      | success =>
          simp only at rest
          obtain ⟨footer, t, taken, last⟩ := bind_eq_ok.mp rest
          cases footer with
          | true => cases last
          | false =>
              simp only [Bool.false_eq_true, if_false] at last
              obtain ⟨begun', shorter, base₁⟩ := readerBegin_longer reading more
              obtain ⟨base₂, moved⟩ := localUnlessTrue_loadElement firstFile _ _ taken
              have same : t.reader.file = R₁.file := by
                have here := moved R₁.file
                have start : Loading.withFile R₁.file ⟨R₁, M₁⟩ = ⟨R₁, M₁⟩ := rfl
                rw [start, taken] at here
                injection here with _ state
                exact (congrArg (fun t => t.reader.file) state).trans rfl
              have longer : loadElement T firstFile ⟨R₁.longer more, M₁⟩ =
                  .ok false ⟨t.reader.longer more, t.memory⟩ := by
                have there := moved (R₁.file ++ more)
                have target : t.reader.longer more = t.reader.withFile (R₁.file ++ more) := by
                  rw [← same]
                  rfl
                rw [target]
                exact there
              obtain ⟨count, R', enough, base', file', steps⟩ := ih last
              rw [same] at enough
              have base₃ : R'.base = R.base := base'.trans (base₂.trans base₁)
              refine ⟨count + 1, R', by omega, base₃, file', fun n => ?_⟩
              rw [← Nat.add_assoc, loadElements, bind_ok (onReader_ok begun' M₁)]
              simp only
              rw [bind_ok longer]
              exact steps n

/-- A file that is loaded to its end can be extended by elements. -/
theorem loadFile_longer {base : Bases} {content : Bytes} {M M' : Memory} {parts : List RootElement}
    {s : Loading} (run : loadFile T firstFile ⟨Reader.init content base, M⟩ = .ok .unfinished s)
    (small : (rootBytes parts).length < 2 ^ 64)
    (h : effects T firstFile base s.memory parts = some M') :
    ∃ R, loadFile T firstFile ⟨Reader.init (content ++ rootBytes parts) base, M⟩ =
      .ok .unfinished ⟨R, M'⟩ := by
  rw [loadFile, loadFileBody] at run
  cases header : loadHeader T firstFile ⟨Reader.init content base, M⟩ with
  | error e t =>
      rw [bind_error header] at run
      cases e <;> cases run
  | ok a t =>
      obtain ⟨R₁, M₁⟩ := t
      rw [bind_ok header, bind_ok (get_run _)] at run
      obtain ⟨header', base₁⟩ := survives_loadHeader (rootBytes parts) _ _ _ header
      cases loop : loadElements T firstFile (R₁.file.length + 1) ⟨R₁, M₁⟩ with
      | error e t =>
          simp only [loop] at run
          cases e <;> cases run
      | ok status t =>
          simp only [loop] at run
          cases run
          obtain ⟨taken, R₂, enough, base₂, file₂, steps⟩ :=
            loadElements_longer loop (rootBytes parts)
          have base₃ : R₂.base = base := base₂.trans base₁
          obtain ⟨R₃, base₄, file₃, steps'⟩ := loadElements_effects small base₃
            (show R₂.file = rootBytes parts ++ [] by rw [file₂, List.append_nil]) h
          have count := length_le_rootBytes parts
          have length : (R₁.longer (rootBytes parts)).file.length =
              R₁.file.length + (rootBytes parts).length := List.length_append
          obtain ⟨spare, fuel⟩ : ∃ n, (R₁.longer (rootBytes parts)).file.length + 1 =
              n + 1 + parts.length + taken :=
            ⟨R₁.file.length + (rootBytes parts).length - parts.length - taken, by omega⟩
          refine ⟨{ R₃ with file := [] }, ?_⟩
          have start : Loading.longer (rootBytes parts) ⟨Reader.init content base, M⟩ =
              ⟨Reader.init (content ++ rootBytes parts) base, M⟩ := rfl
          have reached : Loading.longer (rootBytes parts) ⟨R₁, M₁⟩ =
              ⟨R₁.longer (rootBytes parts), M₁⟩ := rfl
          rw [start, reached] at header'
          rw [loadFile, loadFileBody, bind_ok header', bind_ok (get_run _)]
          simp only [fuel]
          rw [steps, steps', loadElements, bind_ok (onReader_ok (readerBegin_end file₃) _)]
          rfl

end Longer

/-! ## Transactions -/

/-- Each transaction is accepted after the ones before it. -/
def TransactionsAccepted (T : DatabaseType) : Memory → List (List Record) → Prop
  | _, [] => True
  | M, records :: others =>
      (records ≠ [] ∧ RecordsFit T M records) ∧
        TransactionsAccepted T (applyRecords T M records) others

/-- What transactions one after another do to the memory. -/
def applyTransactions (T : DatabaseType) (M : Memory) (transactions : List (List Record)) :
    Memory :=
  transactions.foldl (applyRecords T) M

theorem effects_transactions {T : DatabaseType} {base : Bases} {M : Memory}
    {transactions : List (List Record)} {parts : List RootElement}
    (accepted : TransactionsAccepted T M transactions)
    (stored : roots T (transactions.map .transaction) = some parts)
    (fits : Addressable base (rootBytes parts)) (firstFile : Bool) :
    effects T firstFile base M parts = some (applyTransactions T M transactions) := by
  have elements : ElementsAccepted T firstFile M (transactions.map .transaction) := by
    clear stored
    induction transactions generalizing M with
    | nil => trivial
    | cons records others ih => exact ⟨accepted.1, ih accepted.2⟩
  have same : applyElements T firstFile M (transactions.map .transaction) =
      applyTransactions T M transactions := by
    rw [applyElements, List.foldl_map]
    rfl
  rw [← same]
  exact effects_of_accepted elements stored fits

/-! ## The loop over the data files -/

/-- How the last file changes the outcome of the loop. -/
def lastFile (T : DatabaseType) (base : Bases) (firstFile : Bool) (M : Memory) (content : Bytes) :
    Except ReadError (Memory × FilesEnd) :=
  match loadFile T firstFile ⟨Reader.init content base, M⟩ with
  | .error e _ => .error e
  | .ok .corrupted s => .ok (s.memory, .readOnly)
  | .ok .unfinished s => .ok (s.memory, .append)
  | .ok .success s => .ok (s.memory, .createNew)

theorem loadFiles_concat {T : DatabaseType} {base : Bases} {firstFile : Bool} {M : Memory}
    {before : List (ℕ × Bytes)} {file : ℕ × Bytes} :
    loadFiles T base firstFile M (before ++ [file]) =
      match loadFiles T base firstFile M before with
      | .ok (M₁, .createNew) => lastFile T base (firstFile && before.isEmpty) M₁ file.2
      | .ok (M₁, .append) => .ok (M₁, .readOnly)
      | other => other := by
  induction before generalizing firstFile M with
  | nil =>
      simp only [List.nil_append, loadFiles, List.isEmpty_nil, Bool.and_true, lastFile]
      cases loadFile T firstFile ⟨Reader.init file.2 base, M⟩ with
      | error e s => rfl
      | ok status s => cases status <;> rfl
  | cons first before ih =>
      simp only [List.cons_append, loadFiles, List.isEmpty_cons, Bool.and_false]
      cases loadFile T firstFile ⟨Reader.init first.2 base, M⟩ with
      | error e s => rfl
      | ok status s =>
          cases status with
          | corrupted => rfl
          | unfinished =>
              have more : before ++ [file] ≠ [] := List.append_ne_nil_of_right_ne_nil _ (by simp)
              by_cases empty : before = []
              · simp only [if_neg more, if_pos empty]
              · simp only [if_neg more, if_neg empty]
          | success =>
              simp only [ih, Bool.false_and]

/-- The last data file is closed: `load_file` comes to its footer. -/
def LastFileClosed (T : DatabaseType) (base : Bases) (files : List (ℕ × Bytes)) : Prop :=
  ∃ before file M s, files = before ++ [file] ∧
    loadFiles T base true Memory.empty before = .ok (M, .createNew) ∧
    loadFile T before.isEmpty ⟨Reader.init file.2 base, M⟩ = .ok .success s

theorem lastFileClosed_of_createNew {T : DatabaseType} {base : Bases} {files : List (ℕ × Bytes)}
    {M : Memory} (nonempty : files ≠ [])
    (loaded : loadFiles T base true Memory.empty files = .ok (M, .createNew)) :
    LastFileClosed T base files := by
  obtain ⟨before, file, rfl⟩ : ∃ before file, files = before ++ [file] :=
    ⟨_, _, (List.dropLast_append_getLast nonempty).symm⟩
  rw [loadFiles_concat] at loaded
  cases front : loadFiles T base true Memory.empty before with
  | error e =>
      rw [front] at loaded
      cases loaded
  | ok result =>
      obtain ⟨M₁, ending⟩ := result
      rw [front] at loaded
      cases ending with
      | readOnly => cases loaded
      | append => cases loaded
      | createNew =>
          simp only [lastFile, Bool.true_and] at loaded
          cases last : loadFile T before.isEmpty ⟨Reader.init file.2 base, M₁⟩ with
          | error e s =>
              rw [last] at loaded
              cases loaded
          | ok status s =>
              rw [last] at loaded
              cases status with
              | corrupted => cases loaded
              | unfinished => cases loaded
              | success => exact ⟨before, file, M₁, s, rfl, front, last⟩

theorem not_lastFileClosed_of_append {T : DatabaseType} {base : Bases} {files : List (ℕ × Bytes)}
    {M : Memory} (loaded : loadFiles T base true Memory.empty files = .ok (M, .append)) :
    ¬ LastFileClosed T base files := by
  rintro ⟨before, file, M₁, s, rfl, front, last⟩
  rw [loadFiles_concat, front] at loaded
  simp only [lastFile, Bool.true_and, last] at loaded
  cases loaded

/-- Elements that are appended to the last file are loaded behind it. -/
theorem loadFiles_longer {T : DatabaseType} {base : Bases} {before : List (ℕ × Bytes)} {number : ℕ}
    {content : Bytes} {M M' : Memory} {parts : List RootElement}
    (loaded : loadFiles T base true Memory.empty (before ++ [(number, content)]) =
      .ok (M, .append))
    (small : (rootBytes parts).length < 2 ^ 64)
    (h : ∀ firstFile, effects T firstFile base M parts = some M') :
    loadFiles T base true Memory.empty (before ++ [(number, content ++ rootBytes parts)]) =
      .ok (M', .append) := by
  rw [loadFiles_concat] at loaded ⊢
  cases front : loadFiles T base true Memory.empty before with
  | error e =>
      rw [front] at loaded
      cases loaded
  | ok result =>
      obtain ⟨M₁, ending⟩ := result
      rw [front] at loaded
      cases ending with
      | readOnly => cases loaded
      | append => cases loaded
      | createNew =>
          simp only [lastFile, Bool.true_and] at loaded ⊢
          cases last : loadFile T before.isEmpty ⟨Reader.init content base, M₁⟩ with
          | error e s =>
              rw [last] at loaded
              cases loaded
          | ok status s =>
              rw [last] at loaded
              cases status with
              | corrupted => cases loaded
              | success => cases loaded
              | unfinished =>
                  cases loaded
                  obtain ⟨R, longer⟩ := loadFile_longer last small (h before.isEmpty)
                  rw [longer]

/-! ## Directories -/

theorem files_append_last {directory : Directory} {before : List (ℕ × Bytes)} {number : ℕ}
    {content : Bytes} (files : directory.files = before ++ [(number, content)]) (bytes : Bytes) :
    (directory.append number bytes).files = before ++ [(number, content ++ bytes)] := by
  have sorted := directory.sorted
  rw [files] at sorted
  have below := (List.pairwise_append.mp sorted).2.2
  simp only [Directory.append, files, List.map_append, List.map_cons, List.map_nil, if_true]
  congr 1
  refine (List.map_congr_left fun file member => ?_).trans (List.map_id _)
  have less := below file member (number, content) (List.mem_singleton_self _)
  rw [if_neg (by omega)]
  rfl

theorem numbers_append (directory : Directory) (number : ℕ) (bytes : Bytes) :
    (directory.append number bytes).files.map Prod.fst = directory.files.map Prod.fst := by
  simp only [Directory.append, List.map_map]
  refine List.map_congr_left fun file _ => ?_
  simp only [Function.comp_apply]
  split <;> rfl

/-- There are no holes in the sequence of data files. -/
def NoHoles (files : List (ℕ × Bytes)) : Prop :=
  ∀ first last, files.head? = some first → files.getLast? = some last →
    (last.1 : ℤ) - first.1 = files.length - 1

theorem checkNumbers_ok {D D' : Opening} (h : checkNumbers D = .ok D') :
    NoHoles D.directory.files ∧ ∃ index, D' = { D with fileIndex := index } ∧
      ∀ last, D.directory.files.getLast? = some last → index = last.1 := by
  unfold checkNumbers at h
  split at h
  · rename_i first last hfirst hlast
    split at h
    · rename_i full
      cases h
      refine ⟨fun first' last' h h' => ?_, last.1, rfl, fun last' h' => ?_⟩
      · rw [hfirst] at h
        rw [hlast] at h'
        cases h
        cases h'
        exact full
      · rw [hlast] at h'
        cases h'
        rfl
    · cases h
  · rename_i missing
    cases h
    refine ⟨fun first last hfirst hlast => absurd hlast (missing first last hfirst), D.fileIndex,
      rfl, fun last hlast => ?_⟩
    cases files : D.directory.files with
    | nil =>
        rw [files] at hlast
        cases hlast
    | cons first others => exact absurd hlast (missing first last (by rw [files]; rfl))

theorem checkNumbers_of {D : Opening} (full : NoHoles D.directory.files) :
    ∃ index, checkNumbers D = .ok { D with fileIndex := index } := by
  unfold checkNumbers
  split
  · rename_i first last hfirst hlast
    rw [if_pos (full first last hfirst hlast)]
    exact ⟨last.1, rfl⟩
  · exact ⟨D.fileIndex, rfl⟩

/-- The schema of the directory is accepted. -/
def SchemaAccepted (T : DatabaseType) (base : Bases) (schema : Bytes) : Prop :=
  ∃ R, readSchema T (Reader.init schema base) = .ok () R

theorem checkSchema_ok {T : DatabaseType} {base : Bases} {D D' : Opening}
    (h : checkSchema T base D = .ok D') :
    ∃ schema, SchemaAccepted T base schema ∧
      D' = { D with directory := { D.directory with schema := some schema } } := by
  obtain ⟨schema, -, rest⟩ := exceptBind_eq_ok.mp h
  cases read : readSchema T (Reader.init schema base) with
  | error e R =>
      rw [read] at rest
      cases rest
  | ok a R =>
      rw [read] at rest
      cases rest
      exact ⟨schema, ⟨R, read⟩, rfl⟩

theorem checkSchema_of {T : DatabaseType} {base : Bases} {D : Opening} {schema : Bytes}
    (present : D.directory.schema = some schema) (accepted : SchemaAccepted T base schema) :
    checkSchema T base D = .ok D := by
  obtain ⟨R, read⟩ := accepted
  have found : schemaFile T D = .ok schema := by rw [schemaFile, present]
  refine exceptBind_eq_ok.mpr ⟨schema, found, ?_⟩
  rw [read]
  obtain ⟨named, readOnly, create, ⟨schema', files, sorted⟩, fileIndex, descriptor, memory⟩ := D
  cases present
  rfl

/-- What an opening that succeeds has found. -/
theorem loadData_ok {T : DatabaseType} {base : Bases} {readOnly create : Bool}
    {directory : Directory}
    {D : Opening} (h : loadData T base (Opening.start readOnly create directory) = .ok D) :
    ∃ schema M ending index, SchemaAccepted T base schema ∧ NoHoles directory.files ∧
      (∀ last, directory.files.getLast? = some last → index = last.1) ∧
      loadFiles T base true Memory.empty directory.files = .ok (M, ending) ∧
      openForWriting T
        { Opening.start readOnly create { directory with schema := some schema } with
          fileIndex := index, memory := M, readOnly := readOnly || ending = .readOnly }
        (ending = .createNew) directory.files = .ok D := by
  obtain ⟨D₁, checked, rest⟩ := exceptBind_eq_ok.mp h
  obtain ⟨schema, accepted, rfl⟩ := checkSchema_ok checked
  obtain ⟨D₂, numbered, rest⟩ := exceptBind_eq_ok.mp rest
  obtain ⟨full, index, rfl, last⟩ := checkNumbers_ok numbered
  obtain ⟨⟨M, ending⟩, loaded, opened⟩ := exceptBind_eq_ok.mp rest
  exact ⟨schema, M, ending, index, accepted, full, last, loaded, opened⟩

/-- A directory in which everything is in order is opened, and the last file is loaded to
its end. -/
theorem loadData_of {T : DatabaseType} {base : Bases} {directory : Directory} {schema : Bytes}
    {M : Memory} (present : directory.schema = some schema)
    (accepted : SchemaAccepted T base schema) (full : NoHoles directory.files)
    (loaded : loadFiles T base true Memory.empty directory.files = .ok (M, .append))
    (readOnly create : Bool) :
    ∃ D, loadData T base (Opening.start readOnly create directory) = .ok D ∧ D.memory = M := by
  have checked := checkSchema_of (D := Opening.start readOnly create directory) present accepted
  obtain ⟨index, numbered⟩ := checkNumbers_of (D := Opening.start readOnly create directory) full
  obtain ⟨last, hlast⟩ : ∃ last, directory.files.getLast? = some last := by
    cases files : directory.files.getLast? with
    | some last => exact ⟨last, rfl⟩
    | none =>
        rw [List.getLast?_eq_none_iff.mp files] at loaded
        cases loaded
  set D₂ : Opening := { Opening.start readOnly create directory with
    fileIndex := index, memory := M, readOnly := readOnly || FilesEnd.append = .readOnly } with hD₂
  have opened : ∃ D, openForWriting T D₂ (FilesEnd.append = .createNew) directory.files = .ok D ∧
      D.memory = M := by
    unfold openForWriting
    by_cases locked : D₂.readOnly = true
    · exact ⟨{ D₂ with descriptor := .devNull }, if_pos locked, rfl⟩
    · refine ⟨{ D₂ with descriptor := .file last.1 }, ?_, rfl⟩
      rw [if_neg locked]
      refine exceptBind_eq_ok.mpr ⟨D₂, rfl, ?_⟩
      rw [hlast]
      rfl
  obtain ⟨D, opened, memory⟩ := opened
  refine ⟨D, ?_, memory⟩
  exact exceptBind_eq_ok.mpr ⟨_, checked, exceptBind_eq_ok.mpr ⟨_, numbered,
    exceptBind_eq_ok.mpr ⟨(M, .append), loaded, opened⟩⟩⟩

/-! ## Transactions that are appended after an opening -/

/-- After the opening `D->file_desc` refers to the last data file, which has no footer;
and transactions that are appended to it are exactly what the next load adds. -/
def AppendsSeen (T : DatabaseType) (base : Bases) (D : Opening) : Prop :=
  ∃ before number content, D.directory.files = before ++ [(number, content)] ∧
    D.descriptor = .file number ∧ ¬ LastFileClosed T base D.directory.files ∧
    ∀ (readOnly create : Bool) (transactions : List (List Record)) (parts : List RootElement),
      TransactionsAccepted T D.memory transactions →
      roots T (transactions.map .transaction) = some parts →
      Addressable base (content ++ rootBytes parts) →
      ∃ D', loadData T base (Opening.start readOnly create
          (D.directory.append number (rootBytes parts))) = .ok D' ∧
        D'.memory.nodes = (applyTransactions T D.memory transactions).nodes

section Appends

variable {T : DatabaseType} {base : Bases}

theorem noHoles_append {directory : Directory} (full : NoHoles directory.files) (number : ℕ)
    (bytes : Bytes) : NoHoles (directory.append number bytes).files := by
  intro first last hfirst hlast
  simp only [Directory.append, List.head?_map, List.getLast?_map, Option.map_eq_some_iff]
    at hfirst hlast
  obtain ⟨first', hfirst', rfl⟩ := hfirst
  obtain ⟨last', hlast', rfl⟩ := hlast
  have same (file : ℕ × Bytes) :
      (if file.1 = number then (file.1, file.2 ++ bytes) else file).1 = file.1 := by
    split <;> rfl
  simp only [Directory.append, List.length_map, same]
  exact full first' last' hfirst' hlast'

/-- Where the last file is loaded to its end and is the one to be written, what is
appended is seen. -/
theorem appendsSeen_of_open {D : Opening} {schema : Bytes} {before : List (ℕ × Bytes)}
    {number : ℕ} {content : Bytes} (present : D.directory.schema = some schema)
    (accepted : SchemaAccepted T base schema) (full : NoHoles D.directory.files)
    (files : D.directory.files = before ++ [(number, content)])
    (descriptor : D.descriptor = .file number)
    (loaded : loadFiles T base true Memory.empty D.directory.files = .ok (D.memory, .append)) :
    AppendsSeen T base D := by
  refine ⟨before, number, content, files, descriptor, not_lastFileClosed_of_append loaded,
    fun readOnly create transactions parts taken stored fits => ?_⟩
  have fitsParts := fits.of_append.2
  have total := fitsParts.total
  have longer := files_append_last files (rootBytes parts)
  rw [files] at loaded
  have loaded' := loadFiles_longer loaded (by omega)
    (effects_transactions taken stored fitsParts)
  rw [← longer] at loaded'
  have present' : (D.directory.append number (rootBytes parts)).schema = some schema := present
  obtain ⟨D', opened, memory⟩ := loadData_of present' accepted (noHoles_append full number _)
    loaded' readOnly create
  exact ⟨D', opened, by rw [memory]⟩

theorem written_of_writes {m : Writer → Option Writer} {enc : Bytes} (h : WritesElements m enc) :
    written m = .ok enc := by
  obtain ⟨W, gives, output⟩ := h.output
  simp only [written, gives, Option.bind_some, output]

theorem written_header (T : DatabaseType) (dumpBegin : Bool) (magic : ℕ) :
    (written fun W => do
      let W ← writeFileHeader W T magic
      if dumpBegin then writeDumpBegin W else some W) = .ok (beginBytes T dumpBegin magic) := by
  refine written_of_writes ((writesElements_writeFileHeader T magic).bind ?_)
  cases dumpBegin with
  | true => exact writesElements_writeDumpBegin
  | false => exact WritesElements.nothing

theorem length_newFile (T : DatabaseType) :
    (beginBytes T true 0 ++ dumpEndBytes).length ≤ T.name.length + T.version.length + 512 := by
  have names := T.names
  have title : (encodeString (ascii "HybridDatabase Data File")).length ≤ 64 := by decide
  have number : (frame (encodeNumber 0) false).length ≤ 64 := by decide
  have begin_ : dumpBeginBytes.length ≤ 64 := by decide
  have end_ : dumpEndBytes.length ≤ 64 := by decide
  have name := length_encodeString_le (show T.name.length + stString < 2 ^ 64 by
    simp only [stString]; omega)
  have version := length_encodeString_le (show T.version.length + stString < 2 ^ 64 by
    simp only [stString]; omega)
  have trailer := Writer.length_trailer_le (encodeArray (encodeString (ascii "HybridDatabase Data File") ++
    (encodeString T.name ++ encodeString T.version))) true
  simp only [beginBytes, headerBytes, if_true, List.length_append, length_frame,
    length_encodeArray] at trailer number ⊢
  omega

/-- The first data file of a new database is in the address space. -/
theorem addressable_newFile (T : DatabaseType) (low : base.top ≤ 2 ^ 63) :
    Addressable base (beginBytes T true 0 ++ dumpEndBytes) := by
  have names := T.names
  have short := length_newFile T
  exact ⟨by omega, by omega⟩

theorem create_empty {directory : Directory} (files : directory.files = []) (number : ℕ) :
    ∃ new, directory.create number = some new ∧ new.files = [(number, [])] ∧
      new.schema = directory.schema := by
  have fresh : ∀ file ∈ directory.files, file.1 ≠ number := by
    rw [files]
    exact fun _ member => absurd member List.not_mem_nil
  refine ⟨_, dif_pos fresh, ?_, rfl⟩
  show Directory.insertFile number directory.files = _
  rw [files]
  rfl

/-- A new file begins with its header. -/
theorem databaseNewFile_of {D : Opening} {new : Directory} (writable : D.readOnly = false)
    (closed : D.descriptor = .closed) (made : D.directory.create (D.fileIndex + 1) = some new)
    (dumpBegin : Bool) (magic : ℕ) :
    databaseNewFile T D dumpBegin magic =
      .ok (Opening.fdWrite { D with
        directory := new
        fileIndex := D.fileIndex + 1
        descriptor := .file (D.fileIndex + 1) } (beginBytes T dumpBegin magic)) := by
  rw [databaseNewFile, if_neg (by rw [writable]; decide)]
  refine exceptBind_eq_ok.mpr ⟨D, by rw [closeFile, if_pos closed], ?_⟩
  simp only [made]
  exact exceptBind_eq_ok.mpr ⟨_, written_header T dumpBegin magic, rfl⟩

/-- A new database has one file, which is loaded to its end. -/
theorem appendsSeen_of_new {D D₁ : Opening} {schema : Bytes} (low : base.top ≤ 2 ^ 63)
    (accepted : SchemaAccepted T base schema) (present : D₁.directory.schema = some schema)
    (writable : D₁.readOnly = false) (closed : D₁.descriptor = .closed)
    (empty : D₁.memory = Memory.empty) (none : D₁.directory.files = [])
    (opened : openForWriting T D₁ true [] = .ok D) : AppendsSeen T base D := by
  have mark : written writeDumpEnd = .ok dumpEndBytes := written_of_writes writesElements_writeDumpEnd
  obtain ⟨new, made, files, schema'⟩ := create_empty none (D₁.fileIndex + 1)
  set D₂ : Opening := { D₁ with
    directory := new
    fileIndex := D₁.fileIndex + 1
    descriptor := .file (D₁.fileIndex + 1) } with hD₂
  have created : databaseNewFile T D₁ true 0 = .ok (D₂.fdWrite (beginBytes T true 0)) :=
    databaseNewFile_of writable closed made true 0
  have whole : openForWriting T D₁ true [] =
      .ok ((D₂.fdWrite (beginBytes T true 0)).fdWrite dumpEndBytes) := by
    rw [openForWriting, writable, if_neg (by decide)]
    refine exceptBind_eq_ok.mpr ⟨_, ?_, exceptBind_eq_ok.mpr ⟨_, mark, rfl⟩⟩
    rw [createFile, if_pos rfl, empty]
    exact created
  rw [whole] at opened
  cases opened
  have begun : new.files = [] ++ [(D₁.fileIndex + 1, [])] := files
  have first := files_append_last begun (beginBytes T true 0)
  rw [List.nil_append (beginBytes T true 0)] at first
  have onlyFile : ((D₂.fdWrite (beginBytes T true 0)).fdWrite dumpEndBytes).directory.files =
      [] ++ [(D₁.fileIndex + 1, beginBytes T true 0 ++ dumpEndBytes)] :=
    files_append_last first dumpEndBytes
  have fits := addressable_newFile T low
  have ended : effects T true base { Memory.empty with dumpOn := true }
      [.ofBody (encodeString (ascii "DUMP END")) false] = some Memory.empty := by
    rw [effects, effect_dumpEnd rfl (by have := fits.space; omega)]
    rfl
  have bytes : rootBytes [.ofBody (encodeString (ascii "DUMP END")) false] = dumpEndBytes :=
    List.append_nil _
  rw [← bytes] at fits
  obtain ⟨R, loaded⟩ := loadFile_unfinished (M := Memory.empty) (by decide) (.inl rfl) fits ended
  rw [bytes] at loaded
  refine appendsSeen_of_open (schema'.trans present) accepted ?_ onlyFile rfl ?_
  · intro first last hfirst hlast
    rw [onlyFile] at hfirst hlast ⊢
    cases hfirst
    cases hlast
    simp
  · have memory : ((D₂.fdWrite (beginBytes T true 0)).fdWrite dumpEndBytes).memory =
        Memory.empty := empty
    rw [onlyFile, memory, List.nil_append, loadFiles]
    simp only [loaded, if_true]

theorem mem_insertFile_self (number : ℕ) (files : List (ℕ × Bytes)) :
    (number, []) ∈ Directory.insertFile number files := by
  induction files with
  | nil => exact List.mem_singleton_self _
  | cons first files ih =>
      rw [Directory.insertFile]
      split
      · exact List.mem_cons_self
      · exact List.mem_cons_of_mem _ ih

/-- A new file has the number behind the last one. -/
theorem databaseNewFile_number {D D' : Opening} {dumpBegin : Bool} {magic : ℕ}
    (writable : D.readOnly = false) (closed : D.descriptor = .closed)
    (created : databaseNewFile T D dumpBegin magic = .ok D') :
    D.fileIndex + 1 ∈ D'.directory.files.map Prod.fst := by
  unfold databaseNewFile at created
  rw [writable, if_neg (by decide)] at created
  obtain ⟨D₁, same, rest⟩ := exceptBind_eq_ok.mp created
  rw [closeFile, if_pos closed] at same
  obtain rfl := Except.ok.inj same
  cases made : D.directory.create (D.fileIndex + 1) with
  | none =>
      simp only [made] at rest
      cases rest
  | some directory =>
      simp only [made] at rest
      obtain ⟨header, -, rest⟩ := exceptBind_eq_ok.mp rest
      cases rest
      show _ ∈ (directory.append _ header).files.map Prod.fst
      rw [numbers_append]
      unfold Directory.create at made
      split at made
      · cases made
        exact List.mem_map.mpr ⟨_, mem_insertFile_self _ _, rfl⟩
      · cases made

/-- Behind a closed file a new one is created, but the closed one is written. -/
theorem not_appendsSeen_of_createNew {D D₁ : Opening} (writable : D₁.readOnly = false)
    (closed : D₁.descriptor = .closed)
    (index : ∀ last, D₁.directory.files.getLast? = some last → D₁.fileIndex = last.1)
    (nonempty : D₁.directory.files ≠ [])
    (opened : openForWriting T D₁ true D₁.directory.files = .ok D) : ¬ AppendsSeen T base D := by
  rintro ⟨before, number, content, files, descriptor, -, -⟩
  unfold openForWriting at opened
  rw [writable, if_neg (by decide)] at opened
  obtain ⟨D₂, created, rest⟩ := exceptBind_eq_ok.mp opened
  have higher := databaseNewFile_number writable closed created
  obtain ⟨last, hlast⟩ : ∃ last, D₁.directory.files.getLast? = some last :=
    ⟨_, List.getLast?_eq_some_getLast nonempty⟩
  rw [hlast] at rest
  cases rest
  obtain rfl : last.1 = number := Descriptor.file.inj descriptor
  have sorted := D₂.directory.sorted
  rw [files] at sorted higher
  rw [index last hlast] at higher
  obtain ⟨file, member, same⟩ := List.mem_map.mp higher
  rcases List.mem_append.mp member with member | member
  · have below := (List.pairwise_append.mp sorted).2.2 file member _ (List.mem_singleton_self _)
    simp only at below
    omega
  · rw [List.mem_singleton.mp member] at same
    simp only at same
    omega

theorem appendsSeen_cases {readOnly create : Bool} {directory : Directory} {D : Opening}
    (low : base.top ≤ 2 ^ 63)
    (opened : loadData T base (Opening.start readOnly create directory) = .ok D)
    (writable : D.readOnly = false) :
    (AppendsSeen T base D ∧ ¬ LastFileClosed T base directory.files) ∨
      (¬ AppendsSeen T base D ∧ LastFileClosed T base directory.files) := by
  obtain ⟨schema, M, ending, index, accepted, full, last, loaded, rest⟩ := loadData_ok opened
  set D₁ : Opening := { Opening.start readOnly create { directory with schema := some schema } with
    fileIndex := index, memory := M, readOnly := readOnly || ending = .readOnly } with hD₁
  have unlocked : D₁.readOnly = false := by
    by_contra locked
    rw [Bool.not_eq_false] at locked
    rw [openForWriting, if_pos locked] at rest
    cases rest
    rw [locked] at writable
    cases writable
  by_cases empty : directory.files = []
  · -- a new database
    rw [empty] at loaded rest
    cases loaded
    have none : ¬ LastFileClosed T base directory.files := by
      rintro ⟨before, file, _, _, files, -, -⟩
      rw [empty] at files
      exact absurd files.symm (List.append_ne_nil_of_right_ne_nil _ (List.cons_ne_nil _ _))
    exact .inl ⟨appendsSeen_of_new low accepted rfl unlocked rfl rfl empty rest, none⟩
  · obtain ⟨before, file, files⟩ : ∃ before file, directory.files = before ++ [file] :=
      ⟨_, _, (List.dropLast_append_getLast empty).symm⟩
    cases ending with
    | readOnly => exact absurd unlocked (by simp [hD₁])
    | append =>
        -- the last file is opened for appending
        have hlast : directory.files.getLast? = some file := by
          rw [files, List.getLast?_append_of_ne_nil _ (List.cons_ne_nil _ _)]
          rfl
        rw [openForWriting, unlocked, if_neg (by decide)] at rest
        obtain ⟨D₂, same, rest⟩ := exceptBind_eq_ok.mp rest
        cases same
        rw [hlast] at rest
        cases rest
        exact .inl ⟨appendsSeen_of_open rfl accepted full files rfl loaded,
          not_lastFileClosed_of_append loaded⟩
    | createNew =>
        exact .inr ⟨not_appendsSeen_of_createNew unlocked rfl last empty rest,
          lastFileClosed_of_createNew empty loaded⟩

/-- What is appended after an opening is seen by the next load, exactly if the last data
file was not closed by a footer. -/
theorem appendsSeen_iff {readOnly create : Bool} {directory : Directory} {D : Opening}
    (low : base.top ≤ 2 ^ 63)
    (opened : loadData T base (Opening.start readOnly create directory) = .ok D)
    (writable : D.readOnly = false) :
    AppendsSeen T base D ↔ ¬ LastFileClosed T base directory.files := by
  rcases appendsSeen_cases low opened writable with ⟨seen, open_⟩ | ⟨unseen, closed⟩
  · exact iff_of_true seen open_
  · exact iff_of_false unseen fun open_ => open_ closed

end Appends

/-! ## A file that is closed -/

/-- The schema of a database without node types. -/
def emptySchema : Bytes :=
  frame (encodeArray (encodeString (ascii "HybridDatabase Database Schema") ++
    (encodeString [] ++ encodeString []))) true

theorem schemaAccepted_empty : SchemaAccepted noTypes 4096 emptySchema := by
  have names := (reads_rCheckString (ascii "HybridDatabase Database Schema") 0).seq
    ((reads_rCheckString [] 0).seq (reads_rCheckString [] 0))
  have all := Reads.array names.items
  simp only [bind_assoc, bind_pure_unit] at all
  have file : (Reader.init emptySchema 4096).file = emptySchema ++ [] := (List.append_nil _).symm
  obtain ⟨R, -, -, begun, read, finished⟩ :=
    readElement_at all (by decide) (by decide) file id
  refine ⟨R, ?_⟩
  have passed (R : Reader) : check (ReadStatus.success = .success) R = .ok () R := rfl
  have parts : readSchema noTypes = (do
      let status ← readerBegin
      check (status = .success)
      (do readArray
          rCheckString (ascii "HybridDatabase Database Schema")
          rCheckString []
          rCheckString []
          readArrayEnd)
      readerFinish true) := by
    simp only [readSchema, noTypes, readSchemaTypes, bind_assoc, pure_bind]
  rw [parts, bind_ok begun, bind_ok (passed _), bind_ok read, finished]

/-- A directory with one data file, which is closed. -/
def closedDirectory : Directory where
  schema := some emptySchema
  files := [(1, beginBytes noTypes true 0 ++ (dumpEndBytes ++ footerBytes 7))]
  sorted := List.pairwise_singleton _ _

theorem loadFiles_success {T : DatabaseType} {base : Bases} {number : ℕ} {content : Bytes}
    {M : Memory}
    {s : Loading} (loaded : loadFile T true ⟨Reader.init content base, M⟩ = .ok .success s) :
    loadFiles T base true M [(number, content)] = .ok (s.memory, .createNew) := by
  simp only [loadFiles, loaded]

/-- The footer of the file is seen. -/
theorem closedDirectory_loaded :
    loadFiles noTypes 4096 true Memory.empty closedDirectory.files =
      .ok ({ Memory.empty with magic := 7 }, .createNew) := by
  have ended : effects noTypes true 4096 { Memory.empty with dumpOn := true }
      [.ofBody (encodeString (ascii "DUMP END")) false] = some Memory.empty := by
    rw [effects, effect_dumpEnd rfl (by decide)]
    rfl
  have bytes : rootBytes [.ofBody (encodeString (ascii "DUMP END")) false] = dumpEndBytes :=
    List.append_nil _
  have total : (beginBytes noTypes true 0 ++ (dumpEndBytes ++ footerBytes 7)).length ≤ 640 := by
    have footer : (footerBytes 7).length ≤ 128 := by decide
    rw [← List.append_assoc, List.length_append]
    exact Nat.add_le_add (length_newFile noTypes) footer
  have fits : Addressable 4096 (beginBytes noTypes true 0 ++
      (rootBytes [.ofBody (encodeString (ascii "DUMP END")) false] ++ footerBytes 7)) := by
    have small (n : ℕ) (le : n ≤ 640) : 4096 + n + 1024 ≤ 2 ^ 64 ∧ n < 2 ^ 63 := by omega
    rw [bytes]
    exact ⟨by rw [Bases.top_ofNat]; exact (small _ total).1, (small _ total).2⟩
  obtain ⟨R, loaded⟩ : ∃ R, loadFile noTypes true ⟨Reader.init (beginBytes noTypes true 0 ++
      (rootBytes [.ofBody (encodeString (ascii "DUMP END")) false] ++ footerBytes 7) ++ []) 4096,
      Memory.empty⟩ = .ok .success ⟨R, { Memory.empty with magic := 7 }⟩ :=
    loadFile_success (by decide) (by decide) (.inl rfl) fits ended []
  rw [bytes, List.append_nil] at loaded
  exact loadFiles_success loaded

/-- A closed database is opened, and it is not read-only. -/
theorem closedDirectory_opened :
    ∃ D, loadData noTypes 4096 (Opening.start false true closedDirectory) = .ok D ∧
      D.readOnly = false := by
  have checked := checkSchema_of (D := Opening.start false true closedDirectory)
    (show closedDirectory.schema = some emptySchema from rfl) schemaAccepted_empty
  have numbered : checkNumbers (Opening.start false true closedDirectory) =
      .ok { Opening.start false true closedDirectory with fileIndex := 1 } := rfl
  set D₁ : Opening := { Opening.start false true closedDirectory with
    fileIndex := 1, memory := { Memory.empty with magic := 7 }, readOnly := false } with hD₁
  obtain ⟨new, made⟩ : ∃ new, D₁.directory.create (1 + 1) = some new :=
    ⟨_, dif_pos (by rintro file (_ | ⟨_, _, ⟨⟩⟩); decide)⟩
  have created := databaseNewFile_of (T := noTypes) (D := D₁) rfl rfl made false 7
  exact ⟨_, exceptBind_eq_ok.mpr ⟨_, checked, exceptBind_eq_ok.mpr ⟨_, numbered,
    exceptBind_eq_ok.mpr ⟨_, closedDirectory_loaded, exceptBind_eq_ok.mpr ⟨_, created, rfl⟩⟩⟩⟩, rfl⟩

theorem closedDirectory_closed : LastFileClosed noTypes 4096 closedDirectory.files :=
  lastFileClosed_of_createNew (List.cons_ne_nil _ _) closedDirectory_loaded

/-- What is appended behind a footer is not seen. -/
theorem closedDirectory_unseen :
    ∃ D, loadData noTypes 4096 (Opening.start false true closedDirectory) = .ok D ∧
      ¬ AppendsSeen noTypes 4096 D := by
  obtain ⟨D, opened, writable⟩ := closedDirectory_opened
  exact ⟨D, opened, fun seen =>
    (appendsSeen_iff (by norm_num) opened writable).mp seen closedDirectory_closed⟩

/-- Not every opening is one after which appended transactions are seen. -/
theorem appends_not_always_seen :
    ¬ ∀ (T : DatabaseType) (base : Bases) (readOnly create : Bool) (directory : Directory)
      (D : Opening), base.top ≤ 2 ^ 63 →
      loadData T base (Opening.start readOnly create directory) = .ok D →
      D.readOnly = false → AppendsSeen T base D := by
  intro claim
  obtain ⟨D, opened, writable⟩ := closedDirectory_opened
  have seen := claim noTypes 4096 false true closedDirectory D (by norm_num) opened writable
  rcases appendsSeen_cases (by norm_num) opened writable with ⟨-, open_⟩ | ⟨unseen, -⟩
  · exact open_ closedDirectory_closed
  · exact unseen seen

end HybridDatabase.Database
