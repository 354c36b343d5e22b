/-
# Interrupted dumps

The first data file of a chain begins with a dump, and `load_file` knows whether it is
inside of one.  No exit of its loop looks at that: a dump that stops with the file, at
the end of an element, or at a footer is taken for a whole one.

The loop of `load_file` is seen here as steps from root element to root element, in any
file.
-/

import Mathlib.Logic.Relation
import HybridDatabase.Database.Reopen
import HybridDatabase.Database.Truncate

namespace HybridDatabase.Database

open HybridDatabase.Base HybridDatabase.Storage

variable {T : DatabaseType} {base : Bases} {firstFile : Bool}

/-! ## The loop as steps -/

/-- The loop of `load_file` takes one element and goes on. -/
def LoopStep (T : DatabaseType) (firstFile : Bool) (s t : Loading) : Prop :=
  ∃ u, onReader readerBegin s = .ok .success u ∧ loadElement T firstFile u = .ok false t

/-- The loop comes from one root element to another. -/
def LoopReaches (T : DatabaseType) (firstFile : Bool) : Loading → Loading → Prop :=
  Relation.ReflTransGen (LoopStep T firstFile)

/-- The loop is at the mark behind a dump. -/
def AtDumpEnd (s : Loading) : Prop :=
  ∃ u R, onReader readerBegin s = .ok .success u ∧ readDumpEnd u.reader = .ok () R

theorem file_of_loadElement {s t : Loading} (run : loadElement T firstFile s = .ok false t) :
    t.reader.file = s.reader.file ∧ t.reader.base = s.reader.base := by
  obtain ⟨base, moved⟩ := localUnlessTrue_loadElement firstFile s t run
  have same := moved s.reader.file
  have here : Loading.withFile s.reader.file s = s := rfl
  rw [here, run] at same
  have kept : t = Loading.withFile s.reader.file t := by
    injection same
  refine ⟨?_, base⟩
  rw [kept]
  rfl

theorem onReader_eq_ok {α : Type} {m : ReaderM α} {s t : Loading} {a : α}
    (h : onReader m s = .ok a t) :
    ∃ R, m s.reader = .ok a R ∧ t = { s with reader := R } := by
  unfold onReader onPart at h
  cases run : m s.reader with
  | ok b R =>
      rw [run] at h
      cases h
      exact ⟨R, rfl, rfl⟩
  | error e R =>
      rw [run] at h
      cases h

/-- The loop takes elements that have effects one after another. -/
theorem loopReaches_of_effects {parts : List RootElement} {R : Reader} {M M' : Memory}
    {rest : Bytes} (small : (rootBytes parts).length < 2 ^ 64) (hbase : R.base = base)
    (file : R.file = rootBytes parts ++ rest)
    (h : effects T firstFile base M parts = some M') :
    ∃ R' : Reader, R'.base = base ∧ R'.file = rest ∧ LoopReaches T firstFile ⟨R, M⟩ ⟨R', M'⟩ := by
  induction parts generalizing R M with
  | nil =>
      cases h
      exact ⟨R, hbase, file, .refl⟩
  | cons part parts ih =>
      obtain ⟨M₁, first, others⟩ := Option.bind_eq_some_iff.mp h
      rw [rootBytes_cons, List.append_assoc] at file
      rw [rootBytes_cons, List.length_append, part.length_bytes] at small
      have begun := readerBegin_element (by omega) file M
      obtain ⟨R₁, base₁, file₁, taken⟩ := loadElement_of_effect hbase (rootBytes parts ++ rest) first
      obtain ⟨R₂, base₂, file₂, reaches⟩ := ih (by omega) base₁ file₁ others
      exact ⟨R₂, base₂, file₂, .head ⟨_, begun, taken⟩ reaches⟩

/-- Where the loop cannot go on behind some elements, it stands in front of some of the last
ones. -/
theorem rest_of_loopReaches {parts : List RootElement} {tail : Bytes} {s u : Loading}
    (small : (rootBytes parts).length < 2 ^ 64) (hbase : s.reader.base = base)
    (file : s.reader.file = rootBytes parts ++ tail)
    (stuck : ∀ v w : Loading, v.reader.base = base → v.reader.file = tail →
      ¬ LoopStep T firstFile v w)
    (reaches : LoopReaches T firstFile s u) :
    ∃ done rest, parts = done ++ rest ∧ u.reader.file = rootBytes rest ++ tail ∧
      u.reader.base = base := by
  induction reaches with
  | refl => exact ⟨[], parts, rfl, file, hbase⟩
  | @tail v w _ step ih =>
      obtain ⟨done, rest, split, here, hbase'⟩ := ih
      cases rest with
      | nil => exact absurd step (stuck v w hbase' here)
      | cons part rest =>
          obtain ⟨x, begun, taken⟩ := step
          rw [split, rootBytes_append, rootBytes_cons, List.length_append, List.length_append,
            part.length_bytes] at small
          have fits : part.data.length < 2 ^ 64 := by omega
          rw [rootBytes_cons, List.append_assoc] at here
          cases begun.symm.trans (readerBegin_element fits here v.memory)
          obtain ⟨file', base'⟩ := file_of_loadElement taken
          exact ⟨done ++ [part], rest, by rw [split, List.append_assoc]; rfl, file',
            base'.trans hbase'⟩

/-! ## Opening a chain -/

/-- The directory has the schema of the database. -/
def HasSchema (T : DatabaseType) (base : Bases) (directory : Directory) : Prop :=
  ∃ schema, directory.schema = some schema ∧ SchemaAccepted T base schema

theorem schema_of_files {D D' : Opening} (checked : checkSchema T base D = .ok D')
    (nonempty : D.directory.files ≠ []) : HasSchema T base D.directory := by
  obtain ⟨schema, found, rest⟩ := exceptBind_eq_ok.mp checked
  cases present : D.directory.schema with
  | none =>
      have missing : schemaFile T D = .error .failed := by
        rw [schemaFile, present]
        exact if_neg fun h => nonempty h.1
      cases missing.symm.trans found
  | some schema' =>
      have there : schemaFile T D = .ok schema' := by rw [schemaFile, present]
      cases there.symm.trans found
      cases read : readSchema T (Reader.init schema base) with
      | error e R =>
          rw [read] at rest
          cases rest
      | ok a R => exact ⟨schema, present, R, read⟩

/-- A file behind the last one can be created. -/
theorem create_behind {directory : Directory} {last : ℕ × Bytes}
    (isLast : directory.files.getLast? = some last) :
    ∃ new, directory.create (last.1 + 1) = some new := by
  have fresh : ∀ file ∈ directory.files, file.1 ≠ last.1 + 1 := by
    intro file member
    obtain ⟨before, files⟩ := List.getLast?_eq_some_iff.mp isLast
    have sorted := directory.sorted
    rw [files] at sorted member
    rcases List.mem_append.mp member with member | member
    · have below := (List.pairwise_append.mp sorted).2.2 file member _ (List.mem_singleton_self _)
      omega
    · rw [List.mem_singleton.mp member]
      omega
  exact ⟨_, dif_pos fresh⟩

/-- The last file is opened, whether or not there is a new one behind it. -/
theorem openForWriting_last {D D' : Opening} {createNew : Bool} {files : List (ℕ × Bytes)}
    {last : ℕ × Bytes} (writable : D.readOnly = false) (isLast : files.getLast? = some last)
    (created : createFile T D createNew (files = []) = .ok D') :
    openForWriting T D createNew files = .ok { D' with descriptor := .file last.1 } := by
  rw [openForWriting, if_neg (by rw [writable]; decide)]
  refine exceptBind_eq_ok.mpr ⟨D', created, ?_⟩
  rw [isLast]
  rfl

/-- A directory whose files are loaded is opened for writing. -/
theorem loadData_writable {directory : Directory} {M : Memory} {ending : FilesEnd}
    (nonempty : directory.files ≠ []) (has : HasSchema T base directory)
    (full : NoHoles directory.files)
    (loaded : loadFiles T base true Memory.empty directory.files = .ok (M, ending))
    (writes : ending ≠ .readOnly) :
    ∃ D, loadData T base (Opening.start false false directory) = .ok D ∧ D.readOnly = false := by
  obtain ⟨schema, present, accepted⟩ := has
  obtain ⟨last, isLast⟩ : ∃ last, directory.files.getLast? = some last :=
    ⟨_, List.getLast?_eq_some_getLast nonempty⟩
  have checked := checkSchema_of (D := Opening.start false false directory) present accepted
  obtain ⟨index, numbered⟩ := checkNumbers_of (D := Opening.start false false directory) full
  obtain ⟨-, index', same, found⟩ := checkNumbers_ok numbered
  obtain rfl : index = last.1 := by
    have := found last isLast
    rw [← this]
    injection same
  set D₁ : Opening := { Opening.start false false directory with
    fileIndex := last.1, memory := M, readOnly := false || ending = .readOnly } with hD₁
  have unlocked : D₁.readOnly = false := by simp [hD₁, writes]
  obtain ⟨D₂, created, writable⟩ : ∃ D₂,
      createFile T D₁ (ending = .createNew) (directory.files = []) = .ok D₂ ∧
        D₂.readOnly = false := by
    by_cases new : ending = .createNew
    · obtain ⟨files, made⟩ := create_behind isLast
      rw [createFile, if_pos (decide_eq_true new)]
      exact ⟨_, databaseNewFile_of unlocked rfl made (directory.files = []) M.magic, unlocked⟩
    · refine ⟨D₁, ?_, unlocked⟩
      rw [createFile, if_neg (by simpa using new)]
  have opened := openForWriting_last unlocked isLast created
  exact ⟨_, exceptBind_eq_ok.mpr ⟨_, checked, exceptBind_eq_ok.mpr ⟨_, numbered,
    exceptBind_eq_ok.mpr ⟨_, loaded, opened⟩⟩⟩, writable⟩

/-- A directory with a file that is not read to its end is opened for reading at most. -/
theorem readOnly_of_loadFiles {readOnly create : Bool} {directory : Directory} {D : Opening}
    {M : Memory} (loaded : loadFiles T base true Memory.empty directory.files = .ok (M, .readOnly))
    (opened : loadData T base (Opening.start readOnly create directory) = .ok D) :
    D.readOnly = true := by
  obtain ⟨schema, M', ending, index, -, -, -, loaded', rest⟩ := loadData_ok opened
  cases loaded.symm.trans loaded'
  have locked : (readOnly || decide (FilesEnd.readOnly = FilesEnd.readOnly)) = true := by simp
  rw [openForWriting, if_pos locked] at rest
  cases rest
  exact locked

/-! ## Whole dumps -/

/-- The first file has the mark in front of a dump and, at a later root element, the mark
behind it. -/
def HasWholeDump (T : DatabaseType) (base : Bases) (file : Bytes) : Prop :=
  ∃ s u, loadHeader T true ⟨Reader.init file base, Memory.empty⟩ = .ok () s ∧
    LoopReaches T true s u ∧ AtDumpEnd u

/-- A directory that is opened for writing has a whole dump in its first file. -/
def OpensWhole (T : DatabaseType) (base : Bases) (directory : Directory) : Prop :=
  ∀ (readOnly create : Bool) (D : Opening),
    loadData T base (Opening.start readOnly create directory) = .ok D → D.readOnly = false →
      ∀ first, directory.files.head? = some first → HasWholeDump T base first.2

/-- A directory that is not opened for writing. -/
theorem opensWhole_of_readOnly {directory : Directory} {M : Memory}
    (loaded : loadFiles T base true Memory.empty directory.files = .ok (M, .readOnly)) :
    OpensWhole T base directory := by
  intro readOnly create D opened writable
  rw [readOnly_of_loadFiles loaded opened] at writable
  cases writable

/-- A directory that is not opened at all. -/
theorem opensWhole_of_schema {directory : Directory} (other : ¬ HasSchema T base directory) :
    OpensWhole T base directory := by
  intro readOnly create D opened _ first isFirst
  obtain ⟨D₁, checked, -⟩ := exceptBind_eq_ok.mp opened
  refine absurd (schema_of_files checked ?_) other
  intro empty
  rw [show directory.files = [] from empty] at isFirst
  cases isFirst

/-- A directory that is opened for writing with the files behind its first one. -/
theorem opensWhole_iff_schema {directory : Directory} {first : ℕ × Bytes}
    {others : List (ℕ × Bytes)} {M : Memory} {ending : FilesEnd}
    (files : directory.files = first :: others) (full : NoHoles directory.files)
    (loaded : loadFiles T base true Memory.empty directory.files = .ok (M, ending))
    (writes : ending ≠ .readOnly) (broken : ¬ HasWholeDump T base first.2) :
    OpensWhole T base directory ↔ ¬ HasSchema T base directory := by
  refine ⟨fun opens has => ?_, opensWhole_of_schema⟩
  have nonempty : directory.files ≠ [] := by rw [files]; exact List.cons_ne_nil _ _
  obtain ⟨D, opened, writable⟩ := loadData_writable nonempty has full loaded writes
  exact broken (opens false false D opened writable first (by rw [files]; rfl))

/-! ## Dumps -/

/-- A dump up to the mark behind it: nodes, and transactions that were committed meanwhile. -/
structure DumpParts (T : DatabaseType) (base : Bases) (magic : ℕ) (elements : List Element)
    (parts : List RootElement) : Prop where
  accepted : ElementsAccepted T true { Memory.empty with dumpOn := true } elements
  inside : Element.dumpEnd ∉ elements
  stored : roots T elements = some parts
  small : magic < 2 ^ 64
  fits : Addressable base (beginBytes T true magic ++ (rootBytes parts ++ dumpEndBytes))

theorem dumpOn_apply {M : Memory} (dumping : M.dumpOn = true) {element : Element}
    (inside : element ≠ .dumpEnd) : (element.apply T firstFile M).dumpOn = true := by
  cases element with
  | transaction records =>
      show (records.foldl (fun M record => record.apply T M) M).dumpOn = true
      induction records generalizing M with
      | nil => exact dumping
      | cons record records ih =>
          exact ih ((record.dumpOn_apply T M).trans dumping) (by simp)
  | dumpNode id node =>
      cases firstFile with
      | true => exact dumping
      | false => exact dumping
  | dumpBegin => rfl
  | dumpEnd => exact absurd rfl inside

theorem dumpOn_applyElements {elements : List Element} {M : Memory} (dumping : M.dumpOn = true)
    (inside : Element.dumpEnd ∉ elements) :
    (applyElements T firstFile M elements).dumpOn = true := by
  induction elements generalizing M with
  | nil => exact dumping
  | cons element elements ih =>
      have here : element ≠ .dumpEnd := fun same => inside (same ▸ List.mem_cons_self)
      exact ih (dumpOn_apply dumping here) fun member => inside (List.mem_cons_of_mem _ member)

/-- Inside of a dump every root element is an array. -/
theorem arrays_of_accepted {elements : List Element} {M : Memory} {parts : List RootElement}
    (dumping : M.dumpOn = true) (accepted : ElementsAccepted T firstFile M elements)
    (inside : Element.dumpEnd ∉ elements) (stored : roots T elements = some parts) :
    ∀ part ∈ parts, ∃ items, part = .ofBody (encodeArray items) true := by
  induction elements generalizing M parts with
  | nil =>
      cases stored
      exact fun part member => absurd member List.not_mem_nil
  | cons element elements ih =>
      obtain ⟨first, others, hfirst, hothers, rfl⟩ := roots_cons.mp stored
      have here : element ≠ .dumpEnd := fun same => inside (same ▸ List.mem_cons_self)
      have rest := ih (dumpOn_apply dumping here) accepted.2
        (fun member => inside (List.mem_cons_of_mem _ member)) hothers
      have array : ∃ items, first = .ofBody (encodeArray items) true := by
        cases element with
        | transaction records =>
            obtain ⟨body, hbody, rfl⟩ := Option.map_eq_some_iff.mp hfirst
            obtain ⟨items, -, rfl⟩ := Option.map_eq_some_iff.mp hbody
            exact ⟨items, rfl⟩
        | dumpNode id node =>
            obtain ⟨body, hbody, rfl⟩ := Option.map_eq_some_iff.mp hfirst
            obtain ⟨items, -, rfl⟩ := Option.map_eq_some_iff.mp hbody
            exact ⟨_, rfl⟩
        | dumpBegin =>
            have off : M.dumpOn = false := accepted.1
            rw [dumping] at off
            cases off
        | dumpEnd => exact absurd rfl here
      intro part member
      rcases List.mem_cons.mp member with rfl | member
      · exact array
      · exact rest part member

/-- `read_dump_end` refuses an array. -/
theorem readDumpEnd_array {R R' : Reader} {rest : Bytes} (at_ : R.At (stArrayBegin :: rest)) :
    readDumpEnd R ≠ .ok () R' := by
  have one : ensureSpace 1 R = .ok () R := ensureSpace_at (show R.At ([stArrayBegin] ++ rest) from at_)
  have low : check (decide (stString ≤ stArrayBegin.toNat)) (R.skip 1) =
      .error .failed (R.skip 1) := by
    have : decide (stString ≤ stArrayBegin.toNat) = false := by decide
    rw [check, this]
    rfl
  have code : readCode R = .error .failed (R.skip 1) := by
    unfold readCode
    rw [bind_ok one, bind_ok (takeByte_at at_), bind_error low]
  have string : readString R = .error .failed (R.skip 1) := by
    unfold readString
    rw [bind_error code]
  have text : rCheckString (ascii "DUMP END") R = .error .failed (R.skip 1) := by
    unfold rCheckString
    rw [bind_error string]
  unfold readDumpEnd
  rw [bind_error text]
  exact fun h => by cases h

/-! ## Where a dump stops -/

/-- The loop of `load_file` neither takes what is here for an element nor finds the mark behind
a dump. -/
def Stops (T : DatabaseType) (base : Bases) (tail : Bytes) : Prop :=
  ∀ v : Loading, v.reader.base = base → v.reader.file = tail →
    (∀ w, ¬ LoopStep T true v w) ∧ ¬ AtDumpEnd v

/-- The end of the file. -/
theorem stops_end (T : DatabaseType) (base : Bases) : Stops T base [] := by
  intro v _ file
  have ended (x : Loading) : onReader readerBegin v ≠ .ok .success x := by
    intro begun
    obtain ⟨R, read, -⟩ := onReader_eq_ok begun
    rw [readerBegin_end file] at read
    cases read
  exact ⟨fun w ⟨x, begun, _⟩ => ended x begun, fun ⟨x, _, begun, _⟩ => ended x begun⟩

/-- A footer. -/
theorem stops_footer {next : ℕ} (small : next < 2 ^ 64)
    (fits : base.top + (footerBytes next).length + 1024 ≤ 2 ^ 64) (rest : Bytes) :
    Stops T base (footerBytes next ++ rest) := by
  rintro ⟨R, M⟩ rfl file
  obtain ⟨R', -, -, ends⟩ := loadElements_footer T true M small fits file
  constructor
  · rintro w ⟨x, begun, taken⟩
    have run := ends 0
    rw [loadElements, bind_ok begun] at run
    simp only at run
    rw [bind_ok taken] at run
    cases run
  · rintro ⟨x, R₁, begun, mark⟩
    change R.base.top + _ + 1024 ≤ 2 ^ 64 at fits
    have split : footerBytes next =
        frame (encodeString (ascii "END OF FILE")) false ++ frame (encodeNumber next) false := rfl
    rw [split, List.length_append, length_frame] at fits
    rw [split, List.append_assoc] at file
    have here := @readerBegin_element (.ofBody (encodeString (ascii "END OF FILE")) false) R _
      (by decide) file M
    cases begun.symm.trans here
    set data := (RootElement.ofBody (encodeString (ascii "END OF FILE")) false).data with hdata
    have start : (R.opened (frame (encodeNumber next) false ++ rest) data).At data :=
      Reader.opened_at (by
        show R.base.top + (encodeString (ascii "END OF FILE") ++
          Writer.trailer (encodeString (ascii "END OF FILE")) false).length + 256 ≤ 2 ^ 64
        omega) _
    obtain ⟨n, refused⟩ := rCheckString_other
      (show Reader.At _ (encodeString (ascii "END OF FILE") ++ _) from start)
      le_rfl (show (0 : ℤ) < 2 ^ 31 by decide)
      (show ascii "END OF FILE" ≠ ascii "DUMP END" by decide)
    unfold readDumpEnd at mark
    rw [bind_error refused] at mark
    cases mark

namespace DumpParts

variable {magic : ℕ} {elements : List Element} {parts : List RootElement}

/-- A dump that stops behind some of its elements has no mark behind it. -/
theorem not_whole (dump : DumpParts T base magic elements parts) {done : List RootElement}
    (front : done <+: parts) {tail : Bytes} (stops : Stops T base tail) :
    ¬ HasWholeDump T base (beginBytes T true magic ++ (rootBytes done ++ tail)) := by
  rintro ⟨s, u, header, reaches, atMark⟩
  obtain ⟨fitsBegin, fitsParts⟩ := dump.fits.of_append
  obtain ⟨after, rfl⟩ := front
  rw [rootBytes_append] at fitsParts
  obtain ⟨total, space⟩ : (rootBytes done).length < 2 ^ 64 ∧
      base.top + (rootBytes done).length + 1024 ≤ 2 ^ 64 := by
    have fitsDone := fitsParts.of_append.1.of_append.1
    exact ⟨fitsDone.total.trans (by decide), fitsDone.space⟩
  obtain ⟨R₁, base₁, file₁, header'⟩ := loadHeader_at
    (R := Reader.init (beginBytes T true magic ++ (rootBytes done ++ tail)) base)
    (M := Memory.empty) dump.small (.inl rfl) fitsBegin.space rfl
  cases header.symm.trans header'
  have here : R₁.base = base := base₁
  obtain ⟨before, rest, split, file, hbase⟩ := rest_of_loopReaches total here file₁
    (fun v w same stands => (stops v same stands).1 w) reaches
  cases rest with
  | nil => exact (stops u hbase file).2 atMark
  | cons part rest =>
      obtain ⟨v, R, begun, mark⟩ := atMark
      rw [split, rootBytes_append, rootBytes_cons, List.length_append, List.length_append,
        part.length_bytes] at total space
      have fits : part.data.length < 2 ^ 64 := by omega
      rw [rootBytes_cons, List.append_assoc] at file
      cases begun.symm.trans (readerBegin_element fits file u.memory)
      obtain ⟨items, rfl⟩ := arrays_of_accepted rfl dump.accepted dump.inside dump.stored part
        (by rw [split, List.append_assoc]; exact List.mem_append_right _ List.mem_cons_self)
      have at_ : (u.reader.opened (rootBytes rest ++ tail)
          (RootElement.ofBody (encodeArray items) true).data).At
          (stArrayBegin :: (items ++ [stArrayEnd] ++ Writer.trailer (encodeArray items) true)) :=
        Reader.opened_at (by rw [hbase]; omega) _
      exact readDumpEnd_array at_ mark

theorem effects (dump : DumpParts T base magic elements parts) :
    Database.effects T true base { Memory.empty with dumpOn := true } parts =
      some (applyElements T true { Memory.empty with dumpOn := true } elements) :=
  effects_of_accepted dump.accepted dump.stored dump.fits.of_append.2.of_append.1

/-- With the mark behind it the dump is whole, whatever follows. -/
theorem whole (dump : DumpParts T base magic elements parts) (rest : Bytes) :
    HasWholeDump T base (beginBytes T true magic ++ (rootBytes parts ++ (dumpEndBytes ++ rest))) := by
  obtain ⟨fitsBegin, fitsRest⟩ := dump.fits.of_append
  obtain ⟨fitsParts, fitsMark⟩ := fitsRest.of_append
  obtain ⟨R₁, base₁, file₁, header⟩ := loadHeader_at
    (R := Reader.init (beginBytes T true magic ++ (rootBytes parts ++ (dumpEndBytes ++ rest))) base)
    (M := Memory.empty) dump.small (.inl rfl) fitsBegin.space rfl
  obtain ⟨R₂, base₂, file₂, reaches⟩ := loopReaches_of_effects
    (fitsParts.total.trans (by decide)) (show R₁.base = base from base₁) file₁ dump.effects
  have space := fitsMark.space
  rw [dumpEndBytes, length_frame] at space
  obtain ⟨R₃, -, -, begun, text, finished⟩ := readElement_at
    (reads_rCheckString (ascii "DUMP END") 0) (by decide) (by rw [base₂]; omega)
    (show R₂.file = frame (encodeString (ascii "DUMP END")) false ++ rest from file₂)
    (show false = true → false = true from id)
  refine ⟨_, _, header, reaches, _, R₃, onReader_ok begun _, ?_⟩
  unfold readDumpEnd
  rw [bind_ok text]
  exact finished

/-- Less than the dump and its mark is loaded to its end where it is cut at the end of an
element, and rejected elsewhere. -/
theorem loadFile_front (dump : DumpParts T base magic elements parts) {cut more : Bytes}
    (lost : more ≠ [])
    (split : beginBytes T true magic ++ (rootBytes parts ++ dumpEndBytes) = cut ++ more) :
    ∃ status s, loadFile T true ⟨Reader.init cut base, Memory.empty⟩ = .ok status s ∧
      (status = .unfinished ∨ status = .corrupted) ∧
      (status = .unfinished ↔
        ∃ done, done <+: parts ∧ cut = beginBytes T true magic ++ rootBytes done) := by
  set mark := RootElement.ofBody (encodeString (ascii "DUMP END")) false with hmark
  have all : rootBytes (parts ++ [mark]) = rootBytes parts ++ dumpEndBytes := by
    rw [rootBytes_append, rootBytes_cons, hmark, RootElement.bytes_ofBody]
    exact congrArg _ (List.append_nil _)
  have fits := dump.fits
  rw [← all] at split fits
  set M := applyElements T true { Memory.empty with dumpOn := true } elements with hM
  have marked : mark.effect T true base M = some { M with dumpOn := false } :=
    effect_dumpEnd (dumpOn_applyElements rfl dump.inside) (by have := fits.space; omega)
  have done : Database.effects T true base { Memory.empty with dumpOn := true } (parts ++ [mark]) =
      some { M with dumpOn := false } := by
    rw [effects_append, dump.effects, Option.bind_some, Database.effects, marked]
    rfl
  obtain ⟨status, s, M', run, answers, boundary, -⟩ :=
    loadFile_of_effects dump.small (.inl rfl) fits done split
  refine ⟨status, s, run, answers, boundary.trans ⟨?_, ?_⟩⟩
  · rintro ⟨front, isFront, rfl⟩
    rcases List.prefix_concat_iff.mp isFront with rfl | inside
    · exact absurd (List.self_eq_append_right.mp split) lost
    · exact ⟨front, inside, rfl⟩
  · rintro ⟨front, inside, rfl⟩
    exact ⟨front, inside.trans (List.prefix_append parts [mark]), rfl⟩

end DumpParts

/-- The files behind a closed one as they were written: each but the last one is closed. -/
inductive Continued (T : DatabaseType) (base : Bases) : Memory → List (ℕ × Bytes) → Prop
  | none {M : Memory} : Continued T base M []
  | last {M : Memory} {number magic : ℕ} {elements : List Element} {parts : List RootElement}
      (expected : M.magic = 0 ∨ M.magic = magic) (small : magic < 2 ^ 64)
      (accepted : ElementsAccepted T false { M with dumpOn := false } elements)
      (stored : roots T elements = some parts)
      (fits : Addressable base (beginBytes T false magic ++ rootBytes parts)) :
      Continued T base M [(number, beginBytes T false magic ++ rootBytes parts)]
  | closed {M : Memory} {number magic next : ℕ} {elements : List Element}
      {parts : List RootElement} {files : List (ℕ × Bytes)}
      (expected : M.magic = 0 ∨ M.magic = magic) (small : magic < 2 ^ 64)
      (smallNext : next < 2 ^ 64)
      (accepted : ElementsAccepted T false { M with dumpOn := false } elements)
      (stored : roots T elements = some parts)
      (fits : Addressable base
        (beginBytes T false magic ++ (rootBytes parts ++ footerBytes next)))
      (others : Continued T base
        { applyElements T false { M with dumpOn := false } elements with magic := next } files) :
      Continued T base M
        ((number, beginBytes T false magic ++ (rootBytes parts ++ footerBytes next)) :: files)

/-- They are loaded. -/
theorem loadFiles_of_continued {M : Memory} {files : List (ℕ × Bytes)}
    (continued : Continued T base M files) :
    ∃ M' ending, loadFiles T base false M files = .ok (M', ending) ∧ ending ≠ .readOnly := by
  induction continued with
  | none => exact ⟨_, .createNew, rfl, by decide⟩
  | @last M number magic elements parts expected small accepted stored fits =>
      have applied := effects_of_accepted accepted stored fits.of_append.2
      obtain ⟨R, loaded⟩ := loadFile_unfinished small expected fits applied
      refine ⟨applyElements T false { M with dumpOn := false } elements, .append, ?_, by decide⟩
      simp only [loadFiles, loaded, if_true]
  | closed expected small smallNext accepted stored fits others ih =>
      have applied := effects_of_accepted accepted stored fits.of_append.2.of_append.1
      obtain ⟨R, loaded⟩ := loadFile_success small smallNext expected fits applied []
      rw [List.append_nil] at loaded
      obtain ⟨M', ending, rest, writes⟩ := ih
      refine ⟨M', ending, ?_, writes⟩
      simp only [loadFiles, loaded]
      exact rest

/-! ## Directories with an interrupted dump -/

section Directories

variable {magic number : ℕ} {elements : List Element} {parts : List RootElement}
  {others : List (ℕ × Bytes)} {directory : Directory}

/-- In a directory with one file there are no holes. -/
theorem noHoles_single (file : ℕ × Bytes) : NoHoles [file] := by
  intro first last hfirst hlast
  cases hfirst
  cases hlast
  simp

/-- Of a first file that was cut off at the end of an element, nobody sees that the dump is not
whole. -/
theorem opensWhole_boundary (dump : DumpParts T base magic elements parts)
    {done : List RootElement} (front : done <+: parts)
    (files : directory.files = (number, beginBytes T true magic ++ rootBytes done) :: others) :
    OpensWhole T base directory ↔ others ≠ [] ∨ ¬ HasSchema T base directory := by
  obtain ⟨fitsBegin, fitsRest⟩ := dump.fits.of_append
  have all := dump.effects
  obtain ⟨after, rfl⟩ := front
  obtain ⟨M, applied⟩ := effects_of_prefix all
  have fits : Addressable base (beginBytes T true magic ++ rootBytes done) := by
    have whole := dump.fits
    rw [rootBytes_append, List.append_assoc, ← List.append_assoc] at whole
    exact whole.of_append.1
  obtain ⟨R, loaded⟩ := loadFile_unfinished (M := Memory.empty) dump.small (.inl rfl) fits applied
  have broken := dump.not_whole (List.prefix_append done after) (stops_end T base)
  rw [List.append_nil] at broken
  by_cases alone : others = []
  · subst alone
    have run : loadFiles T base true Memory.empty directory.files = .ok (M, .append) := by
      simp only [files, loadFiles, loaded, if_true]
    rw [opensWhole_iff_schema files (files ▸ noHoles_single _) run (by decide) broken]
    simp
  · have run : loadFiles T base true Memory.empty directory.files = .ok (M, .readOnly) := by
      simp only [files, loadFiles, loaded, alone, if_false]
    simp only [opensWhole_of_readOnly run, true_iff]
    exact .inl alone

/-- A first file that was cut off elsewhere is rejected, or its dump is whole. -/
theorem opensWhole_elsewhere (dump : DumpParts T base magic elements parts) {cut rest : Bytes}
    (front : cut <+: beginBytes T true magic ++ (rootBytes parts ++ (dumpEndBytes ++ rest)))
    (elsewhere : ¬ ∃ done, done <+: parts ∧ cut = beginBytes T true magic ++ rootBytes done)
    (files : directory.files = (number, cut) :: others) : OpensWhole T base directory := by
  obtain ⟨lost, split⟩ := front
  have regroup : (beginBytes T true magic ++ (rootBytes parts ++ dumpEndBytes)) ++ rest =
      cut ++ lost := by
    rw [split]
    simp only [List.append_assoc]
  rcases split_append regroup with ⟨more, lost', short⟩ | ⟨tail, rfl, -⟩
  · obtain ⟨status, s, run, answers, boundary⟩ := dump.loadFile_front lost' short
    obtain rfl : status = .corrupted :=
      answers.resolve_left fun ended => elsewhere (boundary.mp ended)
    have loaded : loadFiles T base true Memory.empty directory.files =
        .ok (s.memory, .readOnly) := by
      simp only [files, loadFiles, run]
    exact opensWhole_of_readOnly loaded
  · intro readOnly create D _ _ first isFirst
    rw [files] at isFirst
    obtain rfl := Option.some.inj isFirst
    have whole := dump.whole tail
    simp only [← List.append_assoc] at whole ⊢
    exact whole

end Directories

/-- Let the first file be any front part of one that holds a whole dump and anything behind it.
A directory with such a first file is opened for writing only with a whole dump in it exactly
if the file is not cut at the end of an element, behind the mark in front of the dump and in
front of the one behind it, or other files follow, or the schema is another one.  A first file
that a footer closes inside of its dump is taken for a whole one, with any files as they are
written behind it. -/
theorem opensWhole_iff (T : DatabaseType) (base : Bases) {magic : ℕ} {elements : List Element}
    {parts : List RootElement} (dump : DumpParts T base magic elements parts) (number : ℕ)
    (others : List (ℕ × Bytes)) (directory : Directory) :
    (∀ cut rest : Bytes, directory.files = (number, cut) :: others →
      cut <+: beginBytes T true magic ++ (rootBytes parts ++ (dumpEndBytes ++ rest)) →
      (OpensWhole T base directory ↔
        ¬ (∃ done, done <+: parts ∧ cut = beginBytes T true magic ++ rootBytes done) ∨
          others ≠ [] ∨ ¬ HasSchema T base directory)) ∧
    ∀ (next : ℕ) (rest : Bytes), next < 2 ^ 64 →
      Addressable base (beginBytes T true magic ++ (rootBytes parts ++ footerBytes next)) →
      directory.files = (number, beginBytes T true magic ++ (rootBytes parts ++ footerBytes next) ++
        rest) :: others →
      Continued T base { applyElements T true { Memory.empty with dumpOn := true } elements with
        magic := next } others →
      (OpensWhole T base directory ↔
        ¬ NoHoles directory.files ∨ ¬ HasSchema T base directory) := by
  constructor
  · intro cut rest files front
    by_cases boundary : ∃ done, done <+: parts ∧ cut = beginBytes T true magic ++ rootBytes done
    · obtain ⟨done, isFront, rfl⟩ := boundary
      rw [opensWhole_boundary dump isFront files]
      exact ⟨.inr, fun holds => holds.resolve_left fun none => none ⟨done, isFront, rfl⟩⟩
    · exact ⟨fun _ => .inl boundary, fun _ => opensWhole_elsewhere dump front boundary files⟩
  · intro next rest small fits files continued
    obtain ⟨R, loaded⟩ := loadFile_success dump.small small (.inl rfl) fits dump.effects rest
    obtain ⟨M, ending, run, writes⟩ := loadFiles_of_continued continued
    have all : loadFiles T base true Memory.empty directory.files = .ok (M, ending) := by
      rw [files, loadFiles]
      simp only [loaded]
      exact run
    have broken := dump.not_whole (List.prefix_refl parts)
      (stops_footer (T := T) small fits.of_append.2.of_append.2.space rest)
    simp only [← List.append_assoc] at broken files
    by_cases full : NoHoles directory.files
    · rw [opensWhole_iff_schema files full all writes broken]
      exact ⟨.inr, fun holds => holds.resolve_left fun gap => gap full⟩
    · refine ⟨fun _ => .inl full, fun _ readOnly create D opened => ?_⟩
      obtain ⟨-, -, -, -, -, gapless, -⟩ := loadData_ok opened
      exact absurd gapless full

/-- A directory with one data file. -/
def oneFile (schema : Bytes) (number : ℕ) (file : Bytes) : Directory where
  schema := some schema
  files := [(number, file)]
  sorted := List.pairwise_singleton _ _

theorem addressable_deletion {tail : Bytes} (short : tail.length ≤ 128) :
    Addressable 4096 (beginBytes noTypes true 0 ++ (rootBytes [deletion] ++ tail)) := by
  have begins : (beginBytes noTypes true 0 ++ dumpEndBytes).length ≤ 512 := length_newFile noTypes
  have deletes : (rootBytes [deletion]).length ≤ 64 := by decide
  have top : (4096 : Bases).top = 4096 := rfl
  rw [List.length_append] at begins
  refine ⟨?_, ?_⟩ <;> rw [List.length_append, List.length_append] <;> omega

/-- A dump in which a node was deleted. -/
theorem dump_deletion : DumpParts noTypes 4096 0 [.transaction [.delete 5]] [deletion] where
  accepted := ⟨⟨by decide, show 5 < 2 ^ 64 by decide, trivial⟩, trivial⟩
  inside := by decide
  stored := rfl
  small := by decide
  fits := addressable_deletion (by decide)

/-- Cut off behind the deletion it is opened for writing, and also where a footer is there, but
not where it is cut off inside of the mark. -/
theorem opensWhole_iff_deletion :
    ¬ OpensWhole noTypes 4096
      (oneFile emptySchema 1 (beginBytes noTypes true 0 ++ rootBytes [deletion])) ∧
    OpensWhole noTypes 4096
      (oneFile emptySchema 1
        (beginBytes noTypes true 0 ++ (rootBytes [deletion] ++ dumpEndBytes.take 3))) ∧
    ¬ OpensWhole noTypes 4096
      (oneFile emptySchema 1
        (beginBytes noTypes true 0 ++ (rootBytes [deletion] ++ footerBytes 8) ++ [])) := by
  have has (file : Bytes) : HasSchema noTypes 4096 (oneFile emptySchema 1 file) :=
    ⟨emptySchema, rfl, schemaAccepted_empty⟩
  refine ⟨fun opens => ?_, ?_, fun opens => ?_⟩
  · have holds := ((opensWhole_iff noTypes 4096 dump_deletion 1 [] _).1 _ [] rfl
      ((List.prefix_append_right_inj _).mpr (List.prefix_append _ _))).mp opens
    rcases holds with elsewhere | more | other
    · exact elsewhere ⟨_, List.prefix_refl _, rfl⟩
    · exact more rfl
    · exact other (has _)
  · refine ((opensWhole_iff noTypes 4096 dump_deletion 1 [] _).1 _ [] rfl ?_).mpr (.inl ?_)
    · rw [List.append_nil]
      exact (List.prefix_append_right_inj _).mpr
        ((List.prefix_append_right_inj _).mpr (List.take_prefix 3 dumpEndBytes))
    · rintro ⟨done, front, same⟩
      have parts := List.append_cancel_left same
      rcases List.prefix_cons_iff.mp front with rfl | ⟨others, rfl, none⟩
      · exact absurd (congrArg List.length parts) (by decide)
      · rw [List.prefix_nil.mp none] at parts
        exact absurd (List.append_right_eq_self.mp parts) (by decide)
  · have holds := ((opensWhole_iff noTypes 4096 dump_deletion 1 [] _).2 8 [] (by decide)
      (addressable_deletion (by decide)) rfl .none).mp opens
    rcases holds with gap | other
    · exact gap (noHoles_single _)
    · exact other (has _)

/-- Not every directory that is opened for writing has a whole dump. -/
theorem not_opensWhole :
    ¬ ∀ (T : DatabaseType) (base : Bases) (directory : Directory), OpensWhole T base directory := by
  intro claim
  have holds := (opensWhole_boundary dump_deletion (List.nil_prefix)
    (show (oneFile emptySchema 1 (beginBytes noTypes true 0 ++ rootBytes [])).files = _ from rfl)).mp
    (claim noTypes 4096 _)
  exact holds.elim (fun some => some rfl) fun none => none ⟨emptySchema, rfl, schemaAccepted_empty⟩

end HybridDatabase.Database
