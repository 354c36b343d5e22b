/-
# Rotation of data files

Whatever jobs the service thread of a new database gets, its files hold the elements of
the commits in the order of the queue, and each file leads to the next one: it ends with a
footer that holds the magic number in the header of that file.

The files are compared with a list of `DataFile`, which says what each of them should
hold.  Each job keeps the two together, whether bytes wait in the writer or not.
-/

import HybridDatabase.Service.Files

namespace HybridDatabase.Service

open HybridDatabase.Base HybridDatabase.Storage HybridDatabase.Database

/-! ## Reading data files -/

/-- `read_file_footer` behind `reader_begin`, and the end of the file. -/
def readFooter : ReaderM ℕ := do
  rCheckString (ascii "END OF FILE")
  readerFinish false
  let status ← readerBegin
  check (status = .success)
  let magic ← readNumber
  readerFinish false
  let status ← readerBegin
  check (status = .endOfFile)
  return magic

/-- The array elements up to a footer or to the end of the file, and the magic number of
the footer. -/
def readTransactions (fuel : ℕ) : ℕ → ReaderM (List Tree × Option ℕ)
  | 0 => throw .outOfFuel
  | n + 1 => do
      match ← readerBegin with
      | .fail => throw .failed
      | .endOfFile => return ([], none)
      | .success => do
          match ← readerNext with
          | .arrayBegin => do
              let tree ← readTree fuel
              readerFinish true
              let (trees, next) ← readTransactions fuel n
              return (tree :: trees, next)
          | .string => do
              let next ← readFooter
              return ([], some next)
          | _ => throw .failed

/-- A mark that is a string. -/
def readMark (text : Bytes) : ReaderM Unit := do
  let status ← readerBegin
  check (status = .success)
  rCheckString text
  readerFinish false

/-- The marks of an empty dump, which the first file begins with. -/
def readMarks (first : Bool) : ReaderM Unit :=
  if first then do
    readMark (ascii "DUMP BEGIN")
    readMark (ascii "DUMP END")
  else pure ()

/-- A whole data file: the magic number of its header, its elements, and the magic number
of its footer. -/
def readDataFile (T : DatabaseType) (first : Bool) : ReaderM (ℕ × List Tree × Option ℕ) := do
  let magic ← readFileHeader T
  readMarks first
  let R ← get
  let (trees, next) ← readTransactions R.file.length (R.file.length + 1)
  return (magic, trees, next)

/-- `load_file` accepts the header of a file where it expects this magic number. -/
def HeaderAccepted (T : DatabaseType) (first : Bool) (base : Bases) (magic : ℕ) (file : Bytes) :
    Prop :=
  ∀ M : Memory, M.magic = magic →
    ∃ s, loadHeader T first ⟨Reader.init file base, M⟩ = .ok () s

/-- Reading files one after another gives these elements, file by file, where a file with
this magic number in its header is expected first. -/
inductive ReadsChain (T : DatabaseType) (base : Bases) :
    Bool → ℕ → List (ℕ × Bytes) → List (List Tree) → Prop
  /-- The last file has no footer. -/
  | last {first : Bool} {magic number : ℕ} {file : Bytes} {trees : List Tree} {R : Reader}
      (header : HeaderAccepted T first base magic file)
      (read : readDataFile T first (Reader.init file base) = .ok (magic, trees, none) R) :
      ReadsChain T base first magic [(number, file)] [trees]
  /-- The footer of any other file leads to the next one. -/
  | closed {first : Bool} {magic next number : ℕ} {file : Bytes} {trees : List Tree} {R : Reader}
      {files : List (ℕ × Bytes)} {parts : List (List Tree)}
      (header : HeaderAccepted T first base magic file)
      (read : readDataFile T first (Reader.init file base) = .ok (magic, trees, some next) R)
      (nonzero : next ≠ 0) (others : ReadsChain T base false next files parts) :
      ReadsChain T base first magic ((number, file) :: files) (trees :: parts)

/-! ## What the files should hold -/

/-- A root element that is an array; the depth of a writer is an `int`. -/
structure RootArray where
  items : List Tree
  shallow : (Tree.array items).nesting < 2 ^ 31

namespace RootArray

def tree (element : RootArray) : Tree := .array element.items

/-- The element as `writer_finish` leaves it. -/
def bytes (element : RootArray) : Bytes := frame element.tree.encode true

end RootArray

/-- What `_generate_magic_nr` can return. -/
structure Magic where
  number : ℕ
  nonzero : number ≠ 0
  small : number < 2 ^ 64

/-- The contents of a data file; `next` is the magic number of its footer. -/
structure DataFile where
  first : Bool
  magic : ℕ
  elements : List RootArray
  next : Option Magic

namespace DataFile

/-- The elements and the footer. -/
def rest (f : DataFile) : Bytes :=
  f.elements.flatMap RootArray.bytes ++ f.next.elim [] fun magic => footerBytes magic.number

/-- The bytes in front of the elements. -/
def front (T : DatabaseType) (f : DataFile) : Bytes :=
  beginBytes T f.first f.magic ++ if f.first then dumpEndBytes else []

def bytes (T : DatabaseType) (f : DataFile) : Bytes := f.front T ++ f.rest

def trees (f : DataFile) : List Tree := f.elements.map RootArray.tree

/-- One more element at the end. -/
def add (element : RootArray) (f : DataFile) : DataFile :=
  { f with elements := f.elements ++ [element] }

/-- The same file with a footer. -/
def close (magic : Magic) (f : DataFile) : DataFile := { f with next := some magic }

/-- A file behind the one with this footer. -/
def behind (magic : Magic) : DataFile := ⟨false, magic.number, [], none⟩

theorem rest_add {f : DataFile} (isOpen : f.next = none) (element : RootArray) :
    (f.add element).rest = f.rest ++ element.bytes := by
  simp [rest, add, isOpen]

theorem rest_close {f : DataFile} (isOpen : f.next = none) (magic : Magic) :
    (f.close magic).rest = f.rest ++ footerBytes magic.number := by
  simp [rest, close, isOpen]

theorem bytes_add (T : DatabaseType) {f : DataFile} (isOpen : f.next = none)
    (element : RootArray) : (f.add element).bytes T = f.bytes T ++ element.bytes := by
  rw [bytes, rest_add isOpen, ← List.append_assoc]
  rfl

theorem bytes_close (T : DatabaseType) {f : DataFile} (isOpen : f.next = none) (magic : Magic) :
    (f.close magic).bytes T = f.bytes T ++ footerBytes magic.number := by
  rw [bytes, rest_close isOpen, ← List.append_assoc]
  rfl

theorem bytes_behind (T : DatabaseType) (magic : Magic) :
    (behind magic).bytes T = beginBytes T false magic.number := by
  simp [bytes, front, rest, behind]

end DataFile

/-- Where a file with this magic number in its header is expected first, each file has a
footer that leads to the next one, and the last has none. -/
def Linked : Bool → ℕ → List DataFile → Prop
  | _, _, [] => False
  | first, magic, f :: files =>
      f.first = first ∧ f.magic = magic ∧
        match f.next with
        | none => files = []
        | some next => Linked false next.number files

namespace Linked

variable {first : Bool} {magic : ℕ} {files : List DataFile} {f : DataFile}

/-- The last file can be replaced by files that it could stand for alone. -/
theorem replace {others : List DataFile} (linked : Linked first magic (files ++ [f]))
    (same : ∀ first magic, Linked first magic [f] → Linked first magic others) :
    Linked first magic (files ++ others) := by
  induction files generalizing first magic with
  | nil => exact same first magic linked
  | cons g files ih =>
      obtain ⟨isFirst, isMagic, next⟩ := linked
      refine ⟨isFirst, isMagic, ?_⟩
      cases footer : g.next with
      | none =>
          simp only [footer] at next
          exact absurd next (by simp)
      | some magic =>
          simp only [footer] at next ⊢
          exact ih next

theorem isOpen (linked : Linked first magic (files ++ [f])) : f.next = none := by
  induction files generalizing first magic with
  | nil =>
      cases footer : f.next with
      | none => rfl
      | some next =>
          obtain ⟨-, -, others⟩ := linked
          simp only [footer] at others
          cases others
  | cons g files ih =>
      obtain ⟨-, -, next⟩ := linked
      cases footer : g.next with
      | none =>
          simp only [footer] at next
          exact absurd next (by simp)
      | some magic =>
          simp only [footer] at next
          exact ih next

theorem add (linked : Linked first magic (files ++ [f])) (element : RootArray) :
    Linked first magic (files ++ [f.add element]) :=
  linked.replace fun _ _ alone => alone

/-- Closing the last file and going on behind it. -/
theorem close (linked : Linked first magic (files ++ [f])) (next : Magic) :
    Linked first magic (files ++ [f.close next, .behind next]) :=
  linked.replace fun _ _ alone => ⟨alone.1, alone.2.1, rfl, rfl, rfl⟩

end Linked

/-! ## The jobs -/

/-- What the service thread is asked for: a commit with an element in its writer, a new
file with a magic number, or `fsync`. -/
inductive Request
  | commit (element : RootArray) (sync : Bool)
  | createNewFile (magic : Magic)
  | syncMe

namespace Request

def job : Request → FileJob
  | .commit element sync => .commit element.bytes sync
  | .createNewFile magic => .createNewFile magic.number true
  | .syncMe => .syncMe

/-- The element that is committed. -/
def committed : Request → Option Tree
  | .commit element _ => some element.tree
  | _ => none

end Request

/-- The files hold what they should, the last one together with what waits in the
writer. -/
structure Represents (T : DatabaseType) (F : Files) (closed : List DataFile)
    (current : DataFile) : Prop where
  linked : Linked true 0 (closed ++ [current])
  isOpen : F.isOpen = true
  earlier : F.earlier.map Prod.snd = closed.map (DataFile.bytes T)
  contents : F.output.contents = current.bytes T
  numbers : F.earlier.map Prod.fst = List.range' 1 F.earlier.length
  number : F.number = F.earlier.length + 1
  fileIndex : F.fileIndex = F.number

namespace Represents

variable {T : DatabaseType} {F : Files} {closed : List DataFile} {current : DataFile}

theorem new : Represents T (newDatabase T) [] ⟨true, 0, [], none⟩ where
  linked := ⟨rfl, rfl, rfl⟩
  isOpen := rfl
  earlier := rfl
  contents := by
    simp [newDatabase, Files.ofFile, DataFile.bytes, DataFile.front, DataFile.rest]
  numbers := rfl
  number := rfl
  fileIndex := rfl

/-- Only the contents of the current file and its writer matter. -/
theorem withOutput (h : Represents T F closed current) {output : Output} {next : DataFile}
    (linked : Linked true 0 (closed ++ [next])) (contents : output.contents = next.bytes T) :
    Represents T { F with output := output } closed next where
  linked := linked
  isOpen := h.isOpen
  earlier := h.earlier
  contents := contents
  numbers := h.numbers
  number := h.number
  fileIndex := h.fileIndex

theorem sync (h : Represents T F closed current) :
    Represents T { F with output := F.output.bufferedSync } closed current :=
  h.withOutput h.linked (by rw [Output.contents_bufferedSync, h.contents])

theorem write (h : Represents T F closed current) (element : RootArray) :
    Represents T { F with output := F.output.bufferedWrite element.bytes } closed
      (current.add element) := by
  apply h.withOutput (h.linked.add element)
  rw [Output.contents_bufferedWrite, h.contents, DataFile.bytes_add T h.linked.isOpen]

/-- A new file behind one whose writer is empty. -/
theorem rotate (h : Represents T F closed current) (written : F.output.written = current.bytes T)
    (empty : F.output.buffer = []) (magic : Magic) :
    Represents T ((F.close magic.number).startFile (beginBytes T false magic.number))
      (closed ++ [current.close magic]) (.behind magic) where
  linked := by
    rw [List.append_assoc]
    exact h.linked.close magic
  isOpen := rfl
  earlier := by
    show (F.earlier ++ [(F.number, F.output.written ++ footerBytes magic.number)]).map Prod.snd = _
    rw [List.map_append, List.map_append, h.earlier, written]
    simp [DataFile.bytes_close T h.linked.isOpen]
  contents := by
    show beginBytes T false magic.number ++ F.output.buffer = _
    rw [empty, List.append_nil, DataFile.bytes_behind]
  numbers := by
    show (F.earlier ++ [(F.number, F.output.written ++ footerBytes magic.number)]).map Prod.fst =
      List.range' 1 (F.earlier ++ [_]).length
    rw [List.map_append, h.numbers, List.length_append, h.number]
    simp [List.range'_concat, Nat.add_comm]
  number := by
    show F.fileIndex + 1 = (F.earlier ++ [_]).length + 1
    rw [h.fileIndex, h.number, List.length_append]
    rfl
  fileIndex := rfl

end Represents

theorem buffer_bufferedSync (O : Output) : O.bufferedSync.buffer = [] := by
  unfold Output.bufferedSync
  split
  · rfl
  · next empty => exact List.eq_nil_of_length_eq_zero (not_not.mp empty)

/-- One job adds the element it carries, and no other. -/
theorem serviceJob_represents {T : DatabaseType} {F : Files} {closed : List DataFile}
    {current : DataFile} (h : Represents T F closed current) (request : Request) :
    ∃ answer F' closed' current', serviceJob T request.job F = .ok answer F' ∧
      Represents T F' closed' current' ∧
      (closed' ++ [current']).flatMap DataFile.trees =
        (closed ++ [current]).flatMap DataFile.trees ++ request.committed.toList := by
  cases request with
  | commit element sync =>
      have written := bufferedWrite_open h.isOpen element.bytes
      have elements : (closed ++ [current.add element]).flatMap DataFile.trees =
          (closed ++ [current]).flatMap DataFile.trees ++ [element.tree] := by
        simp [DataFile.trees, DataFile.add]
      cases sync with
      | false =>
          refine ⟨none, _, closed, current.add element, ?_, h.write element, elements⟩
          exact bind_ok written
      | true =>
          refine ⟨none, _, closed, current.add element, ?_, (h.write element).sync, elements⟩
          exact (bind_ok written).trans (bind_ok (bufferedSync_open (h.write element).isOpen))
  | syncMe =>
      refine ⟨none, _, closed, current, bind_ok (bufferedSync_open h.isOpen), h.sync, ?_⟩
      exact (List.append_nil _).symm
  | createNewFile magic =>
      have synced := h.sync
      have all : F.output.bufferedSync.written = current.bytes T := by
        rw [bufferedSync_written, h.contents]
      refine ⟨some .success, _, closed ++ [current.close magic], .behind magic,
        serviceNewFile_open T h.isOpen false magic.number true,
        synced.rotate all (buffer_bufferedSync F.output) magic, ?_⟩
      simp [DataFile.trees, DataFile.close, DataFile.behind, Request.committed]

/-- All jobs, and the last `buffered_sync`. -/
theorem serviceThread_represents {T : DatabaseType} (requests : List Request) {F : Files}
    {closed : List DataFile} {current : DataFile} (h : Represents T F closed current) :
    ∃ F' closed' current', serviceThread T (requests.map Request.job) F = .ok () F' ∧
      Represents T F' closed' current' ∧ F'.output.buffer = [] ∧
      (closed' ++ [current']).flatMap DataFile.trees =
        (closed ++ [current]).flatMap DataFile.trees ++ requests.filterMap Request.committed := by
  induction requests generalizing F closed current with
  | nil =>
      exact ⟨_, closed, current, bufferedSync_open h.isOpen, h.sync,
        buffer_bufferedSync F.output, (List.append_nil _).symm⟩
  | cons request requests ih =>
      obtain ⟨answer, F₁, closed₁, current₁, run, next, elements⟩ := serviceJob_represents h request
      obtain ⟨F₂, closed₂, current₂, runs, last, empty, others⟩ := ih next
      refine ⟨F₂, closed₂, current₂, (bind_ok run).trans runs, last, empty, ?_⟩
      rw [others, elements, List.append_assoc]
      congr 1
      cases carried : request.committed with
      | none => simp [carried]
      | some tree => simp [carried]

/-! ## What is read back -/

theorem passed {status : ReadStatus} (R : Reader) : check (status = status) R = .ok () R := by
  simp [check]

theorem readMark_whole {text rest : Bytes} {R : Reader}
    (fits : R.base.top + (frame (encodeString text) false).length + 256 ≤ 2 ^ 64)
    (file : R.file = frame (encodeString text) false ++ rest) :
    ∃ R', R'.file = rest ∧ R'.base = R.base ∧ readMark text R = .ok () R' := by
  rw [length_frame] at fits
  obtain ⟨R', file', base', begun, read, finished⟩ := readElement_at
    (reads_rCheckString text 0) (by decide) (by omega) file (show false = true → false = true from id)
  refine ⟨R', file', base', ?_⟩
  unfold readMark
  rw [bind_ok begun, bind_ok (passed _), bind_ok read, finished]

theorem readMarks_whole {first : Bool} {rest : Bytes} {R : Reader}
    (fits : R.base.top + ((if first then dumpBeginBytes else []) ++
      if first then dumpEndBytes else []).length + 256 ≤ 2 ^ 64)
    (file : R.file = (if first then dumpBeginBytes else []) ++
      ((if first then dumpEndBytes else []) ++ rest)) :
    ∃ R', R'.file = rest ∧ R'.base = R.base ∧ readMarks first R = .ok () R' := by
  cases first with
  | false => exact ⟨R, file, rfl, rfl⟩
  | true =>
      simp only [if_true, List.length_append] at fits file
      rw [dumpBeginBytes, dumpEndBytes] at fits file
      obtain ⟨R₁, file₁, base₁, begin_⟩ := readMark_whole (by omega) file
      obtain ⟨R₂, file₂, base₂, end_⟩ := readMark_whole (by rw [base₁]; omega) file₁
      refine ⟨R₂, file₂, by rw [base₂, base₁], ?_⟩
      exact (bind_ok begin_).trans end_

/-- The footer is read in front of the end of the file. -/
theorem readFooter_at {R : Reader} {magic : ℕ} (small : magic < 2 ^ 64)
    (fits : R.base.top + (footerBytes magic).length + 256 ≤ 2 ^ 64)
    (file : R.file = footerBytes magic) :
    ∃ R₁ R₂, readerBegin R = .ok .success R₁ ∧ readerNext R₁ = .ok .string R₁ ∧
      readFooter R₁ = .ok magic R₂ := by
  rw [footerBytes, List.length_append, length_frame, length_frame] at fits
  rw [footerBytes] at file
  set text := ascii "END OF FILE" with htext
  set data := encodeString text ++ Writer.trailer (encodeString text) false with hdata
  obtain ⟨R', file', base', begun, read, finished⟩ := readElement_at
    (reads_rCheckString text 0) (by decide) (by rw [← hdata]; omega) file
    (show false = true → false = true from id)
  obtain ⟨R'', file'', base'', begun', read', finished'⟩ := readElement_at (R := R')
    (reads_readNumber small 0) (by decide) (by rw [base']; omega)
    (by rw [file', List.append_nil]) (show false = true → false = true from id)
  have at_ : (R.opened (frame (encodeNumber magic) false) data).At data :=
    Reader.opened_at (by omega) _
  obtain ⟨byte, tail, code, kind⟩ := nextKind_encodeString
    (show text.length + stString < 2 ^ 64 by rw [htext]; decide)
  have announced : readerNext (R.opened (frame (encodeNumber magic) false) data) =
      .ok .string (R.opened (frame (encodeNumber magic) false) data) := by
    have split : byte :: (tail ++ Writer.trailer (encodeString text) false) = data := by
      rw [hdata, code]
      rfl
    rw [← kind]
    rw [← split] at at_ ⊢
    exact readerNext_at at_
  refine ⟨_, { R'' with file := [] }, begun, announced, ?_⟩
  unfold readFooter
  rw [bind_ok read, bind_ok finished, bind_ok begun', bind_ok (passed _), bind_ok read',
    bind_ok finished', bind_ok (readerBegin_end file''), bind_ok (passed _)]
  rfl

/-- The elements of a file and its footer. -/
theorem readTransactions_rest (elements : List RootArray) (next : Option Magic) {fuel n : ℕ}
    {R : Reader}
    (total : (elements.flatMap RootArray.bytes).length < 2 ^ 63)
    (enough : (elements.flatMap RootArray.bytes).length ≤ fuel) (count : elements.length < n)
    (fits : R.base.top + (elements.flatMap RootArray.bytes ++
      next.elim [] fun magic => footerBytes magic.number).length + 256 ≤ 2 ^ 64)
    (file : R.file = elements.flatMap RootArray.bytes ++
      next.elim [] fun magic => footerBytes magic.number) :
    ∃ R', readTransactions fuel n R =
      .ok (elements.map RootArray.tree, next.map Magic.number) R' := by
  induction elements generalizing n R with
  | nil =>
      obtain ⟨n, rfl⟩ : ∃ k, n = k + 1 := ⟨n - 1, by simp only [List.length_nil] at count; omega⟩
      rw [List.flatMap_nil, List.nil_append] at fits file
      unfold readTransactions
      cases next with
      | none =>
          refine ⟨{ R with file := [] }, ?_⟩
          rw [bind_ok (readerBegin_end file)]
          rfl
      | some magic =>
          rw [Option.elim_some] at fits file
          obtain ⟨R₁, R₂, begun, announced, footer⟩ := readFooter_at magic.small fits file
          refine ⟨R₂, ?_⟩
          rw [bind_ok begun]
          simp only
          rw [bind_ok announced]
          simp only
          rw [bind_ok footer]
          rfl
  | cons element elements ih =>
      obtain ⟨n, rfl⟩ : ∃ k, n = k + 1 := ⟨n - 1, by omega⟩
      simp only [List.flatMap_cons, List.length_append, List.length_cons, RootArray.bytes]
        at total enough fits count
      rw [List.flatMap_cons, List.append_assoc] at file
      have size := length_frame element.tree.encode true
      have short := length_payload_le element.tree.encode true
      obtain ⟨R', rest, base, begun, done, finished⟩ := readElement_at (R := R)
        (reads_readTree element.tree fuel (by omega) (by omega)) element.shallow (by omega)
        file id
      set data := element.tree.encode ++ Writer.trailer element.tree.encode true with hdata
      set R₁ := R.opened (elements.flatMap RootArray.bytes ++
        next.elim [] fun magic => footerBytes magic.number) data with hR₁
      have at_ : R₁.At data := Reader.opened_at (by omega) _
      have announced : readerNext R₁ = .ok .arrayBegin R₁ :=
        readerNext_at (show R₁.At (stArrayBegin :: _) from at_)
      obtain ⟨R'', others⟩ := ih (n := n) (R := R') (by omega) (by omega) (by omega)
        (by rw [base, List.length_append]; omega) rest
      refine ⟨R'', ?_⟩
      unfold readTransactions
      rw [bind_ok begun]
      simp only
      rw [bind_ok announced]
      simp only
      rw [bind_ok done, bind_ok finished, bind_ok others]
      rfl

theorem length_elements_le (elements : List RootArray) :
    elements.length ≤ (elements.flatMap RootArray.bytes).length := by
  induction elements with
  | nil => exact Nat.zero_le _
  | cons element elements ih =>
      rw [List.flatMap_cons, List.length_append, List.length_cons, RootArray.bytes, length_frame]
      omega

/-- A whole file is read back. -/
theorem readDataFile_bytes (T : DatabaseType) (f : DataFile) {base : Bases}
    (small : f.magic < 2 ^ 64) (fits : Addressable base (f.bytes T)) :
    ∃ R, readDataFile T f.first (Reader.init (f.bytes T) base) =
      .ok (f.magic, f.trees, f.next.map Magic.number) R := by
  have parts : f.bytes T = headerBytes T f.magic ++ ((if f.first then dumpBeginBytes else []) ++
      ((if f.first then dumpEndBytes else []) ++ f.rest)) := by
    simp only [DataFile.bytes, DataFile.front, beginBytes, List.append_assoc]
  obtain ⟨space, total⟩ := fits
  rw [parts] at space total ⊢
  simp only [List.length_append] at space total
  obtain ⟨R₁, base₁, file₁, header⟩ := readFileHeader_at (R := Reader.init (headerBytes T f.magic ++
      ((if f.first then dumpBeginBytes else []) ++
        ((if f.first then dumpEndBytes else []) ++ f.rest))) base) small
    (by show base.top + (headerBytes T f.magic).length + 256 ≤ 2 ^ 64; omega) rfl
  have start : R₁.base = base := base₁
  obtain ⟨R₂, file₂, base₂, marks⟩ := readMarks_whole
    (by rw [start, List.length_append]; omega) file₁
  rw [start] at base₂
  have split : f.rest = f.elements.flatMap RootArray.bytes ++
      f.next.elim [] fun magic => footerBytes magic.number := rfl
  have length := congrArg List.length split
  rw [List.length_append] at length
  have count := length_elements_le f.elements
  have enough : (f.elements.flatMap RootArray.bytes).length ≤ R₂.file.length := by
    rw [file₂]
    omega
  have more : f.elements.length < R₂.file.length + 1 := by
    rw [file₂]
    omega
  obtain ⟨R₃, read⟩ := readTransactions_rest f.elements f.next (by omega) enough more (by rw [base₂, ← split]; omega) (file₂.trans split)
  refine ⟨R₃, ?_⟩
  unfold readDataFile
  rw [bind_ok header, bind_ok marks, bind_ok (get_run _), bind_ok read]
  rfl

/-- The header of a file is accepted where its magic number is expected. -/
theorem headerAccepted_bytes (T : DatabaseType) (f : DataFile) {base : Bases}
    (small : f.magic < 2 ^ 64) (fits : Addressable base (f.bytes T)) :
    HeaderAccepted T f.first base f.magic (f.bytes T) := by
  intro M expected
  have parts : f.bytes T = beginBytes T f.first f.magic ++
      ((if f.first then dumpEndBytes else []) ++ f.rest) := by
    simp only [DataFile.bytes, DataFile.front, List.append_assoc]
  have space := fits.space
  rw [parts, List.length_append] at space
  obtain ⟨R', -, -, loaded⟩ := loadHeader_at (R := Reader.init (f.bytes T) base) (M := M) small
    (.inr expected) (by show base.top + (beginBytes T f.first f.magic).length + 1024 ≤ 2 ^ 64; omega)
    parts
  exact ⟨_, loaded⟩

/-- Linked files are read one after another. -/
theorem readsChain_of_linked {T : DatabaseType} {base : Bases} {files : List DataFile}
    {first : Bool}
    {magic : ℕ} (linked : Linked first magic files) (small : magic < 2 ^ 64)
    {disk : List (ℕ × Bytes)} (bytes : disk.map Prod.snd = files.map (DataFile.bytes T))
    (fits : ∀ file ∈ disk, Addressable base file.2) :
    ReadsChain T base first magic disk (files.map DataFile.trees) := by
  induction files generalizing first magic disk with
  | nil => cases linked
  | cons f files ih =>
      obtain ⟨rfl, rfl, next⟩ := linked
      obtain ⟨⟨number, file⟩, disk, rfl, hfile, others⟩ := List.map_eq_cons_iff.mp bytes
      obtain rfl : file = f.bytes T := hfile
      have here := fits _ List.mem_cons_self
      obtain ⟨R, read⟩ := readDataFile_bytes T f small here
      have header := headerAccepted_bytes T f small here
      cases footer : f.next with
      | none =>
          simp only [footer] at next
          subst next
          obtain rfl := List.map_eq_nil_iff.mp others
          rw [footer] at read
          exact .last header read
      | some magic =>
          simp only [footer] at next
          rw [footer] at read
          exact .closed header read magic.nonzero (ih next magic.small others fun file member =>
            fits file (List.mem_cons_of_mem _ member))

/-- Whatever a new database is asked for, its files are numbered from 1 on, and reading
them one after another gives the elements of the commits in the order of the queue. -/
theorem rotation_loses_nothing (T : DatabaseType) (requests : List Request) :
    ∃ F, serviceThread T (requests.map Request.job) (newDatabase T) = .ok () F ∧
      F.isOpen = true ∧ F.all.map Prod.fst = List.range' 1 F.all.length ∧
      ∀ base, (∀ file ∈ F.all, Addressable base file.2) →
        ∃ parts, ReadsChain T base true 0 F.all parts ∧
          parts.flatten = requests.filterMap Request.committed := by
  obtain ⟨F, closed, current, run, last, empty, elements⟩ :=
    serviceThread_represents requests (Represents.new (T := T))
  have written : F.output.written = current.bytes T := by
    rw [← last.contents, Output.contents, empty, List.append_nil]
  refine ⟨F, run, last.isOpen, ?_, fun base fits => ?_⟩
  · rw [Files.all, List.map_append, last.numbers, List.length_append, last.number]
    simp [List.range'_concat, Nat.add_comm]
  · have bytes : F.all.map Prod.snd = (closed ++ [current]).map (DataFile.bytes T) := by
      rw [Files.all, List.map_append, List.map_append, last.earlier, written]
      rfl
    refine ⟨_, readsChain_of_linked last.linked (by decide) bytes fits, ?_⟩
    rw [← List.flatMap_def, elements]
    rfl

/-- An element that is an empty array. -/
def emptyArray : RootArray := ⟨[], by decide⟩

/-- A commit on each side of a rotation. -/
def twoCommits : List Request :=
  [.commit emptyArray false, .createNewFile ⟨7, by decide, by decide⟩, .commit emptyArray true]

/-- The files are short. -/
theorem twoCommits_short : ∃ F,
    serviceThread noTypes (twoCommits.map Request.job) (newDatabase noTypes) = .ok () F ∧
      F.all.length = 2 ∧ ∀ file ∈ F.all, file.2.length ≤ 1024 := by
  set before : Files := { newDatabase noTypes with
    output := (newDatabase noTypes).output.bufferedWrite emptyArray.bytes } with hbefore
  set between := Files.startFile (beginBytes noTypes false 7)
    (Files.close 7 { before with output := before.output.bufferedSync }) with hbetween
  set last : Files := { between with
    output := (between.output.bufferedWrite emptyArray.bytes).bufferedSync } with hlast
  have first : serviceJob noTypes (.commit emptyArray.bytes false) (newDatabase noTypes) =
      .ok none before := bind_ok (bufferedWrite_open rfl emptyArray.bytes)
  have rotate : serviceJob noTypes (.createNewFile 7 true) before = .ok (some .success) between :=
    serviceNewFile_open (F := before) noTypes rfl false 7 true
  have second : serviceJob noTypes (.commit emptyArray.bytes true) between = .ok none last :=
    (bind_ok (bufferedWrite_open rfl emptyArray.bytes)).trans (bind_ok (bufferedSync_open rfl))
  have ended : bufferedSync last = .ok () { last with output := last.output.bufferedSync } :=
    bufferedSync_open rfl
  have short : emptyArray.bytes.length ≤ 64 ∧ (footerBytes 7).length ≤ 64 ∧
      (beginBytes noTypes false 7).length ≤ 128 := by decide
  have begins : (newDatabase noTypes).output.contents.length ≤ 512 := by
    show (Output.ofFile _).contents.length ≤ 512
    rw [Output.contents_ofFile]
    exact length_newFile noTypes
  refine ⟨_, (bind_ok first).trans ((bind_ok rotate).trans ((bind_ok second).trans ended)), rfl,
    fun file inside => ?_⟩
  obtain rfl | inside := List.mem_cons.mp inside
  · show (before.output.bufferedSync.written ++ footerBytes 7).length ≤ 1024
    rw [List.length_append, Output.written_bufferedSync, hbefore, Output.contents_bufferedWrite,
      List.length_append]
    omega
  · rw [List.mem_singleton.mp inside]
    have buffer : between.output.buffer = [] := Output.buffer_bufferedSync _
    show last.output.bufferedSync.written.length ≤ 1024
    rw [Output.written_bufferedSync, hlast, Output.contents_bufferedSync,
      Output.contents_bufferedWrite, Output.contents, buffer, List.append_nil, List.length_append]
    show (beginBytes noTypes false 7).length + _ ≤ 1024
    omega

/-- They hold the two elements. -/
theorem rotation_loses_nothing_twoCommits : ∃ F parts,
    serviceThread noTypes (twoCommits.map Request.job) (newDatabase noTypes) = .ok () F ∧
      F.all.length = 2 ∧ ReadsChain noTypes 4096 true 0 F.all parts ∧
      parts.flatten = [.array [], .array []] := by
  obtain ⟨F, run, -, -, reads⟩ := rotation_loses_nothing noTypes twoCommits
  obtain ⟨F', run', two, short⟩ := twoCommits_short
  cases run.symm.trans run'
  obtain ⟨parts, chain, elements⟩ := reads 4096 fun file inside => by
    have small := short file inside
    have top : (4096 : Bases).top = 4096 := rfl
    exact ⟨by omega, by omega⟩
  exact ⟨F, parts, run, two, chain, elements⟩

end HybridDatabase.Service
