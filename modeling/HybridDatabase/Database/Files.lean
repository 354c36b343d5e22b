/-
# Data files

A data file is a header, a list of elements and perhaps a footer.  Loading a file of
accepted elements applies them in their order and ends with `unfinished`, or with
`success` where there is a footer.
-/

import HybridDatabase.Database.Elements

namespace HybridDatabase.Database

open HybridDatabase.Base HybridDatabase.Storage

/-! ## Elements -/

/-- The elements between the header and the footer. -/
inductive Element
  | transaction (records : List Record)
  | dumpNode (id : ℕ) (node : Node)
  | dumpBegin
  | dumpEnd
  deriving DecidableEq, Repr

/-- The root element; none where a value cannot be stored. -/
def Element.root (T : DatabaseType) : Element → Option RootElement
  | .transaction records => (transactionBytes records).map fun body => .ofBody body true
  | .dumpNode id node =>
      (dumpNodeBytes (attributesOf T node.type) id node).map fun body => .ofBody body true
  | .dumpBegin => some (.ofBody (encodeString (ascii "DUMP BEGIN")) false)
  | .dumpEnd => some (.ofBody (encodeString (ascii "DUMP END")) false)

/-- What `load_file` needs to accept an element. -/
def Element.Accepted (T : DatabaseType) (firstFile : Bool) (M : Memory) : Element → Prop
  | .transaction records => records ≠ [] ∧ RecordsFit T M records
  | .dumpNode id node =>
      M.dumpOn = true ∧
        (firstFile = true → NodeFits T node ∧ id < 2 ^ 64 ∧ M.nodes id = none)
  | .dumpBegin => M.dumpOn = false
  | .dumpEnd => M.dumpOn = true

/-- What an accepted element does to the memory. -/
def Element.apply (T : DatabaseType) (firstFile : Bool) (M : Memory) : Element → Memory
  | .transaction records => applyRecords T M records
  | .dumpNode id node => if firstFile then M.load id node else M
  | .dumpBegin => { M with dumpOn := true }
  | .dumpEnd => { M with dumpOn := false }

/-- The root elements of elements one after another. -/
def roots (T : DatabaseType) : List Element → Option (List RootElement)
  | [] => some []
  | element :: elements => do
      let first ← element.root T
      let others ← roots T elements
      return first :: others

/-- Each element is accepted after the ones before it. -/
def ElementsAccepted (T : DatabaseType) (firstFile : Bool) : Memory → List Element → Prop
  | _, [] => True
  | M, element :: elements =>
      element.Accepted T firstFile M ∧
        ElementsAccepted T firstFile (element.apply T firstFile M) elements

/-- What accepted elements do to the memory. -/
def applyElements (T : DatabaseType) (firstFile : Bool) (M : Memory) (elements : List Element) :
    Memory :=
  elements.foldl (fun M element => element.apply T firstFile M) M

theorem roots_cons {T : DatabaseType} {element : Element} {elements : List Element}
    {parts : List RootElement} :
    roots T (element :: elements) = some parts ↔
      ∃ first others, element.root T = some first ∧ roots T elements = some others ∧
        parts = first :: others := by
  simp only [roots, Option.bind_eq_bind, Option.bind_eq_some_iff, Option.pure_def,
    Option.some.injEq]
  constructor
  · rintro ⟨first, h, others, h', rfl⟩
    exact ⟨first, others, h, h', rfl⟩
  · rintro ⟨first, others, h, h', rfl⟩
    exact ⟨first, h, others, h', rfl⟩

/-- A file in a part of the address space where no check of the reader wraps. -/
structure Addressable (base : Bases) (file : Bytes) : Prop where
  space : base.top + file.length + 1024 ≤ 2 ^ 64
  total : file.length < 2 ^ 63

theorem Addressable.of_append {base : Bases} {front rest : Bytes}
    (h : Addressable base (front ++ rest)) : Addressable base front ∧ Addressable base rest := by
  obtain ⟨space, total⟩ := h
  rw [List.length_append] at space total
  exact ⟨⟨by omega, by omega⟩, ⟨by omega, by omega⟩⟩

/-- An accepted element has the effect it stands for. -/
theorem effect_of_accepted {T : DatabaseType} {firstFile : Bool} {base : Bases} {M : Memory}
    {element : Element} {part : RootElement} (accepted : element.Accepted T firstFile M)
    (stored : element.root T = some part) (fits : Addressable base part.bytes) :
    part.effect T firstFile base M = some (element.apply T firstFile M) := by
  have space := fits.space
  have total := fits.total
  cases element with
  | dumpBegin =>
      cases stored
      exact effect_dumpBegin accepted (by omega)
  | dumpEnd =>
      cases stored
      exact effect_dumpEnd accepted (by omega)
  | transaction records =>
      obtain ⟨body, hbody, rfl⟩ := Option.map_eq_some_iff.mp stored
      obtain ⟨items, hitems, rfl⟩ := Option.map_eq_some_iff.mp hbody
      have short := length_payload_le (encodeArray items) true
      rw [length_encodeArray] at short
      have small : items.length < 2 ^ 63 := by
        have : (frame (encodeArray items) true).length < 2 ^ 63 := total
        omega
      exact effect_array (loads_transactionItems accepted.1 accepted.2.small
        (recordsRead_of_fit accepted.2 hitems) hitems small firstFile)
        (by have : base.top + (frame (encodeArray items) true).length + 1024 ≤ 2 ^ 64 := space
            omega)
  | dumpNode id node =>
      obtain ⟨body, hbody, rfl⟩ := Option.map_eq_some_iff.mp stored
      obtain ⟨items, hitems, rfl⟩ := Option.map_eq_some_iff.mp hbody
      have short := length_payload_le (encodeArray (encodeNumber 0 ++ items)) true
      rw [length_encodeArray, List.length_append] at short
      have small : (frame (encodeArray (encodeNumber 0 ++ items)) true).length < 2 ^ 63 := total
      have room : base.top + (frame (encodeArray (encodeNumber 0 ++ items)) true).length + 256 ≤
          2 ^ 64 := by
        have : base.top + (frame (encodeArray (encodeNumber 0 ++ items)) true).length + 1024 ≤
          2 ^ 64 := space
        omega
      obtain ⟨dumping, known⟩ := accepted
      cases firstFile with
      | true =>
          obtain ⟨nodeFits, idFits, absent⟩ := known rfl
          exact effect_array (loads_dumpItems_first dumping nodeFits idFits absent hitems) room
      | false => exact effect_array (loads_dumpItems_later dumping (by omega) hitems) room

/-- Accepted elements have the effects they stand for. -/
theorem effects_of_accepted {T : DatabaseType} {firstFile : Bool} {base : Bases}
    {elements : List Element} {M : Memory} {parts : List RootElement}
    (accepted : ElementsAccepted T firstFile M elements) (stored : roots T elements = some parts)
    (fits : Addressable base (rootBytes parts)) :
    effects T firstFile base M parts = some (applyElements T firstFile M elements) := by
  induction elements generalizing M parts with
  | nil =>
      cases stored
      rfl
  | cons element elements ih =>
      obtain ⟨first, others, hfirst, hothers, rfl⟩ := roots_cons.mp stored
      rw [rootBytes_cons] at fits
      obtain ⟨fitsFirst, fitsOthers⟩ := fits.of_append
      rw [effects, effect_of_accepted accepted.1 hfirst fitsFirst]
      exact ih accepted.2 hothers fitsOthers

/-! ## Headers and footers -/

/-- The names in the header of a data file. -/
theorem reads_headerNames (T : DatabaseType) :
    Reads 1 (do readArray
                rCheckString (ascii "HybridDatabase Data File")
                rCheckString T.name
                rCheckString T.version
                readArrayEnd) ()
      (encodeArray (encodeString (ascii "HybridDatabase Data File") ++
        (encodeString T.name ++ encodeString T.version))) := by
  have names := (reads_rCheckString (ascii "HybridDatabase Data File") 0).seq
    ((reads_rCheckString T.name 0).seq (reads_rCheckString T.version 0))
  have all := Reads.array names.items
  simpa only [bind_assoc, bind_pure_unit] using all

/-- The end of `read_file_header`. -/
def readMagic : ReaderM ℕ := do
  let status ← readerBegin
  check (status = .success)
  let magic ← readNumber
  readerFinish false
  return magic

/-- Behind the names of a header comes its magic number. -/
theorem readFileHeader_names {T : DatabaseType} {R : Reader} {rest : Bytes}
    (fits : R.base.top + (frame (encodeArray (encodeString (ascii "HybridDatabase Data File") ++
      (encodeString T.name ++ encodeString T.version))) true).length + 256 ≤ 2 ^ 64)
    (file : R.file = frame (encodeArray (encodeString (ascii "HybridDatabase Data File") ++
      (encodeString T.name ++ encodeString T.version))) true ++ rest) :
    ∃ R' : Reader, R'.base = R.base ∧ R'.file = rest ∧ readFileHeader T R = readMagic R' := by
  set names := encodeArray (encodeString (ascii "HybridDatabase Data File") ++
    (encodeString T.name ++ encodeString T.version)) with hnames
  rw [length_frame] at fits
  obtain ⟨R', file', base', begun, read, finished⟩ := readElement_at
    (reads_headerNames T) (by decide) (by rw [← hnames]; omega) file id
  refine ⟨R', base', file', ?_⟩
  have passed (R : Reader) : check (ReadStatus.success = .success) R = .ok () R := rfl
  have parts : readFileHeader T = (do
      let status ← readerBegin
      check (status = .success)
      (do readArray
          rCheckString (ascii "HybridDatabase Data File")
          rCheckString T.name
          rCheckString T.version
          readArrayEnd)
      readerFinish true
      readMagic) := by
    simp only [readFileHeader, readMagic, bind_assoc]
  rw [parts, bind_ok begun, bind_ok (passed _), bind_ok read, bind_ok finished]

theorem readFileHeader_at {T : DatabaseType} {magic : ℕ} {R : Reader} {rest : Bytes}
    (small : magic < 2 ^ 64) (fits : R.base.top + (headerBytes T magic).length + 256 ≤ 2 ^ 64)
    (file : R.file = headerBytes T magic ++ rest) :
    ∃ R' : Reader, R'.base = R.base ∧ R'.file = rest ∧ readFileHeader T R = .ok magic R' := by
  rw [headerBytes, List.length_append, length_frame (encodeNumber magic)] at fits
  rw [headerBytes, List.append_assoc] at file
  obtain ⟨R₁, base₁, file₁, names⟩ := readFileHeader_names (by omega) file
  obtain ⟨R₂, file₂, base₂, begun, read, finished⟩ := readElement_at (R := R₁)
    (reads_readNumber small 0) (by decide) (by rw [base₁]; omega) file₁
    (show false = true → false = true from id)
  refine ⟨R₂, by rw [base₂, base₁], file₂, ?_⟩
  have passed (R : Reader) : check (ReadStatus.success = .success) R = .ok () R := rfl
  rw [names, readMagic, bind_ok begun, bind_ok (passed _), bind_ok read, bind_ok finished]
  rfl

/-- The bytes in front of the elements of a file. -/
def beginBytes (T : DatabaseType) (firstFile : Bool) (magic : ℕ) : Bytes :=
  headerBytes T magic ++ if firstFile then dumpBeginBytes else []

/-- Behind a header the loader looks for the mark of a dump, if the file is the first,
where no other magic number was expected. -/
theorem loadHeader_names {T : DatabaseType} (firstFile : Bool) {magic : ℕ} {R : Reader}
    {M : Memory} {rest : Bytes} (small : magic < 2 ^ 64)
    (expected : M.magic = 0 ∨ M.magic = magic)
    (fits : R.base.top + (headerBytes T magic).length + 256 ≤ 2 ^ 64)
    (file : R.file = headerBytes T magic ++ rest) :
    ∃ R' : Reader, R'.base = R.base ∧ R'.file = rest ∧ loadHeader T firstFile ⟨R, M⟩ =
      (if firstFile then do
        onReader do
          let status ← readerBegin
          check (status = .success)
          readDumpBegin
        setDumpOn true
      else pure () : LoadM Unit) ⟨R', { M with dumpOn := false }⟩ := by
  obtain ⟨R₁, base₁, file₁, read⟩ := readFileHeader_at small fits file
  have header : onReader (readFileHeader T) ⟨R, M⟩ = .ok magic ⟨R₁, M⟩ := onReader_ok read M
  have off : setDumpOn false ⟨R₁, M⟩ = .ok () ⟨R₁, { M with dumpOn := false }⟩ := rfl
  have known : ensure (M.magic = 0 || M.magic = magic) ⟨R₁, { M with dumpOn := false }⟩ =
      .ok () ⟨R₁, { M with dumpOn := false }⟩ := by
    have : (decide (M.magic = 0) || decide (M.magic = magic)) = true := by simpa using expected
    simp only [ensure, this, if_true, pure_run]
  refine ⟨R₁, base₁, file₁, ?_⟩
  unfold loadHeader
  rw [bind_ok header, bind_ok off, bind_ok (get_run _), bind_ok known]

/-- The header of a file is accepted where no other magic number was expected. -/
theorem loadHeader_at {T : DatabaseType} {firstFile : Bool} {magic : ℕ} {R : Reader} {M : Memory}
    {rest : Bytes} (small : magic < 2 ^ 64) (expected : M.magic = 0 ∨ M.magic = magic)
    (fits : R.base.top + (beginBytes T firstFile magic).length + 1024 ≤ 2 ^ 64)
    (file : R.file = beginBytes T firstFile magic ++ rest) :
    ∃ R' : Reader, R'.base = R.base ∧ R'.file = rest ∧
      loadHeader T firstFile ⟨R, M⟩ = .ok () ⟨R', { M with dumpOn := firstFile }⟩ := by
  rw [beginBytes, List.length_append] at fits
  rw [beginBytes, List.append_assoc] at file
  obtain ⟨R₁, base₁, file₁, header⟩ :=
    loadHeader_names firstFile (M := M) small expected (by omega) file
  rw [header]
  cases firstFile with
  | false => exact ⟨R₁, base₁, file₁, rfl⟩
  | true =>
      have mark : Reads 0 (rCheckString (ascii "DUMP BEGIN")) ()
          (encodeString (ascii "DUMP BEGIN")) := reads_rCheckString _ 0
      have room : (encodeString (ascii "DUMP BEGIN") ++
          Writer.trailer (encodeString (ascii "DUMP BEGIN")) false).length ≤ 64 := by decide
      obtain ⟨R₂, file₂, base₂, begun, text, finished⟩ := readElement_at mark (by decide)
        (by rw [base₁]; omega)
        (show R₁.file = frame (encodeString (ascii "DUMP BEGIN")) false ++ rest from file₁)
        (show false = true → false = true from id)
      refine ⟨R₂, by rw [base₂, base₁], file₂, ?_⟩
      have passed (R : Reader) : check (ReadStatus.success = .success) R = .ok () R := rfl
      have begin_ : onReader (do
          let status ← readerBegin
          check (status = .success)
          readDumpBegin) ⟨R₁, { M with dumpOn := false }⟩ =
          .ok () ⟨R₂, { M with dumpOn := false }⟩ := by
        refine onReader_ok ?_ _
        rw [bind_ok begun, bind_ok (passed _), readDumpBegin, bind_ok text, finished]
      simp only [if_true]
      rw [bind_ok begin_]
      rfl

/-- A header with another magic number is rejected. -/
theorem loadHeader_other {T : DatabaseType} (firstFile : Bool) {magic : ℕ} {R : Reader}
    {M : Memory} {rest : Bytes} (small : magic < 2 ^ 64)
    (other : ¬ (M.magic = 0 ∨ M.magic = magic))
    (fits : R.base.top + (headerBytes T magic).length + 256 ≤ 2 ^ 64)
    (file : R.file = headerBytes T magic ++ rest) :
    ∃ s, loadHeader T firstFile ⟨R, M⟩ = .error .failed s := by
  obtain ⟨R₁, base₁, file₁, read⟩ := readFileHeader_at small fits file
  have header : onReader (readFileHeader T) ⟨R, M⟩ = .ok magic ⟨R₁, M⟩ := onReader_ok read M
  have off : setDumpOn false ⟨R₁, M⟩ = .ok () ⟨R₁, { M with dumpOn := false }⟩ := rfl
  have refused : ensure (M.magic = 0 || M.magic = magic) ⟨R₁, { M with dumpOn := false }⟩ =
      .error .failed ⟨R₁, { M with dumpOn := false }⟩ := by
    have : (decide (M.magic = 0) || decide (M.magic = magic)) = false := by simpa using other
    simp only [ensure, this, Bool.false_eq_true, if_false, throw_run]
  refine ⟨⟨R₁, { M with dumpOn := false }⟩, ?_⟩
  unfold loadHeader
  rw [bind_ok header, bind_ok off, bind_ok (get_run _), bind_error refused]

/-- The footer ends the loop. -/
theorem loadElements_footer (T : DatabaseType) (firstFile : Bool) (M : Memory) {magic : ℕ}
    {R : Reader} {rest : Bytes} (small : magic < 2 ^ 64)
    (fits : R.base.top + (footerBytes magic).length + 1024 ≤ 2 ^ 64)
    (file : R.file = footerBytes magic ++ rest) :
    ∃ R' : Reader, R'.base = R.base ∧ R'.file = rest ∧ ∀ fuel,
      loadElements T firstFile (fuel + 1) ⟨R, M⟩ =
        .ok .success ⟨R', { M with magic := magic }⟩ := by
  set text := ascii "END OF FILE" with htext
  set data := encodeString text ++ Writer.trailer (encodeString text) false with hdata
  have room : data.length ≤ 32 := by rw [hdata, htext]; decide
  have split : footerBytes magic = frame (encodeString text) false ++ frame (encodeNumber magic) false :=
    rfl
  rw [split, List.length_append, length_frame, length_frame] at fits
  have begun : onReader readerBegin ⟨R, M⟩ =
      .ok .success ⟨R.opened (frame (encodeNumber magic) false ++ rest) data, M⟩ :=
    onReader_ok (readerBegin_whole (by omega) (by
      rw [file, split, List.append_assoc, frame, List.append_assoc])) M
  set R₀ := R.opened (frame (encodeNumber magic) false ++ rest) data with hR₀
  have start : R₀.At data := Reader.opened_at (by omega) _
  obtain ⟨n, notBegin⟩ : ∃ n, onReader readDumpBegin ⟨R₀, M⟩ = .error .failed ⟨R₀.skip n, M⟩ :=
    readMark_other (show R₀.At (encodeString text ++ _) from start) rfl (by decide)
  obtain ⟨k, notEnd⟩ : ∃ n, onReader readDumpEnd ⟨R₀, M⟩ = .error .failed ⟨R₀.skip n, M⟩ :=
    readMark_other (show R₀.At (encodeString text ++ _) from start) rfl (by decide)
  have read := reads_rCheckString text 0 R₀ _ start le_rfl (show (0 : ℤ) + 0 < 2 ^ 31 by decide)
  have finished := readerFinish_trailer (R := R₀.skip (encodeString text).length)
    start.fits hdata rfl rfl (show false = true → false = true from id)
  set R₁ := (R₀.skip (encodeString text).length).skip
    (Writer.trailer (encodeString text) false).length with hR₁
  obtain ⟨R', file', base', begun', number, finished'⟩ := readElement_at (R := R₁)
    (reads_readNumber small 0) (by decide) (by show R.base.top + _ + 256 ≤ _; omega) rfl
    (show false = true → false = true from id)
  set R₂ := R₁.opened rest (encodeNumber magic ++ Writer.trailer (encodeNumber magic) false)
    with hR₂
  refine ⟨R', base', file', fun fuel => ?_⟩
  have passed (R : Reader) : check (ReadStatus.success = .success) R = .ok () R := rfl
  have first : onReader (do
      rCheckString (ascii "END OF FILE")
      readerFinish false
      let status ← readerBegin
      check (status = .success)) ⟨R₀, M⟩ = .ok () ⟨R₂, M⟩ := by
    refine onReader_ok ?_ _
    rw [← htext, bind_ok read, bind_ok finished, bind_ok begun']
    exact passed _
  have number' : onReader readNumber ⟨R₂, M⟩ =
      .ok magic ⟨R₂.skip (encodeNumber magic).length, M⟩ := onReader_ok number M
  have kept : onMemory (fun M => { M with magic := magic })
      ⟨R₂.skip (encodeNumber magic).length, M⟩ =
      .ok () ⟨R₂.skip (encodeNumber magic).length, { M with magic := magic }⟩ := rfl
  have footer : readFileFooter ⟨R₀, M⟩ = .ok () ⟨R', { M with magic := magic }⟩ := by
    unfold readFileFooter
    rw [bind_ok first, bind_ok number', bind_ok kept]
    exact onReader_ok finished' _
  have mark : loadMark ⟨R₀, M⟩ = .ok true ⟨R', { M with magic := magic }⟩ := by
    unfold loadMark
    rw [bind_ok (attempt_failed notBegin)]
    simp only [Bool.false_eq_true, if_false]
    rw [bind_ok (rewind_skip rfl n), bind_ok (attempt_failed notEnd)]
    simp only [Bool.false_eq_true, if_false]
    rw [bind_ok (rewind_skip rfl k), bind_ok (attempt_ok footer)]
    rfl
  rw [loadElements, bind_ok begun]
  simp only
  rw [bind_ok ((loadElement_mark (by decide)
    (show R₀.At (encodeString text ++ _) from start)).trans mark)]
  rfl

/-! ## Whole files -/

/-- A file without a footer. -/
theorem loadFile_unfinished {T : DatabaseType} {firstFile : Bool} {magic : ℕ} {base : Bases}
    {M M' : Memory}
    {parts : List RootElement} (small : magic < 2 ^ 64) (expected : M.magic = 0 ∨ M.magic = magic)
    (fits : Addressable base (beginBytes T firstFile magic ++ rootBytes parts))
    (h : effects T firstFile base { M with dumpOn := firstFile } parts = some M') :
    ∃ R, loadFile T firstFile
      ⟨Reader.init (beginBytes T firstFile magic ++ rootBytes parts) base, M⟩ =
        .ok .unfinished ⟨R, M'⟩ := by
  obtain ⟨fitsBegin, fitsParts⟩ := fits.of_append
  set R₀ := Reader.init (beginBytes T firstFile magic ++ rootBytes parts) base with hR₀
  have space : R₀.base.top + (beginBytes T firstFile magic).length + 1024 ≤ 2 ^ 64 :=
    fitsBegin.space
  have file : R₀.file = beginBytes T firstFile magic ++ rootBytes parts := rfl
  obtain ⟨R₁, base₁, file₁, header⟩ := loadHeader_at (M := M) small expected space file
  have total := fitsParts.total
  obtain ⟨R₂, base₂, file₂, steps⟩ := loadElements_effects (by omega) base₁
    (show R₁.file = rootBytes parts ++ [] by rw [file₁, List.append_nil]) h
  have enough := length_le_rootBytes parts
  have body : loadFileBody T firstFile ⟨R₀, M⟩ =
      .ok .unfinished ⟨{ R₂ with file := [] }, M'⟩ := by
    unfold loadFileBody
    rw [bind_ok header, bind_ok (get_run _)]
    obtain ⟨spare, fuel⟩ : ∃ n, R₁.file.length + 1 = n + 1 + parts.length :=
      ⟨(rootBytes parts).length - parts.length, by rw [file₁]; omega⟩
    simp only [fuel]
    rw [steps, loadElements, bind_ok (onReader_ok (readerBegin_end file₂) _)]
    rfl
  exact ⟨{ R₂ with file := [] }, by rw [loadFile, body]⟩

/-- A file that a footer closes; what is behind the footer is not looked at. -/
theorem loadFile_success {T : DatabaseType} {firstFile : Bool} {magic next : ℕ} {base : Bases}
    {M M' : Memory} {parts : List RootElement} (small : magic < 2 ^ 64)
    (smallNext : next < 2 ^ 64) (expected : M.magic = 0 ∨ M.magic = magic)
    (fits : Addressable base
      (beginBytes T firstFile magic ++ (rootBytes parts ++ footerBytes next)))
    (h : effects T firstFile base { M with dumpOn := firstFile } parts = some M')
    (rest : Bytes) : ∃ R, loadFile T firstFile ⟨Reader.init
        (beginBytes T firstFile magic ++ (rootBytes parts ++ footerBytes next) ++ rest) base, M⟩ =
      .ok .success ⟨R, { M' with magic := next }⟩ := by
  obtain ⟨fitsBegin, fitsRest⟩ := fits.of_append
  obtain ⟨fitsParts, fitsFooter⟩ := fitsRest.of_append
  set R₀ := Reader.init
    (beginBytes T firstFile magic ++ (rootBytes parts ++ footerBytes next) ++ rest) base with hR₀
  have space : R₀.base.top + (beginBytes T firstFile magic).length + 1024 ≤ 2 ^ 64 :=
    fitsBegin.space
  have file : R₀.file =
      beginBytes T firstFile magic ++ (rootBytes parts ++ (footerBytes next ++ rest)) := by
    simp [hR₀, Reader.init]
  obtain ⟨R₁, base₁, file₁, header⟩ := loadHeader_at (M := M) small expected space file
  have total := fitsParts.total
  obtain ⟨R₂, base₂, file₂, steps⟩ := loadElements_effects (by omega) base₁ file₁ h
  have there : R₂.base = base := base₂
  rw [← there] at fitsFooter
  obtain ⟨R₃, base₃, file₃, footer⟩ :=
    loadElements_footer T firstFile M' smallNext fitsFooter.space file₂
  have enough := length_le_rootBytes parts
  have body : loadFileBody T firstFile ⟨R₀, M⟩ = .ok .success ⟨R₃, { M' with magic := next }⟩ := by
    unfold loadFileBody
    rw [bind_ok header, bind_ok (get_run _)]
    obtain ⟨spare, fuel⟩ : ∃ n, R₁.file.length + 1 = n + 1 + parts.length :=
      ⟨R₁.file.length - parts.length, by rw [file₁, List.length_append]; omega⟩
    simp only [fuel]
    rw [steps, footer]
  exact ⟨R₃, by rw [loadFile, body]⟩

/-! ## What the writing functions write -/

/-- `write` writes the element; a transaction is written from a log with its records. -/
inductive Element.WrittenBy (T : DatabaseType) : Element → (Writer → Option Writer) → Prop
  | transaction (log : List LogItem) :
      WrittenBy T (.transaction (records log)) fun W => processTransactionLog W log
  | dumpNode (id : ℕ) (node : Node) :
      WrittenBy T (.dumpNode id node) fun W => writeDumpNode W (attributesOf T node.type) id node
  | dumpBegin : WrittenBy T .dumpBegin writeDumpBegin
  | dumpEnd : WrittenBy T .dumpEnd writeDumpEnd

theorem Element.WrittenBy.writes {T : DatabaseType} {element : Element}
    {write : Writer → Option Writer} {part : RootElement} (written : element.WrittenBy T write)
    (stored : element.root T = some part) (total : part.bytes.length < 2 ^ 63) :
    WritesElements write part.bytes := by
  cases written with
  | transaction log =>
      obtain ⟨body, bytes, rfl⟩ := Option.map_eq_some_iff.mp stored
      exact writesElements_processTransactionLog bytes
        ((length_payload_le body true).trans_lt total)
  | dumpNode id node =>
      obtain ⟨body, bytes, rfl⟩ := Option.map_eq_some_iff.mp stored
      exact writesElements_writeDumpNode bytes ((length_payload_le body true).trans_lt total)
  | dumpBegin =>
      cases stored
      exact writesElements_writeDumpBegin
  | dumpEnd =>
      cases stored
      exact writesElements_writeDumpEnd

/-- Elements are written one after another. -/
theorem writesElements_roots {T : DatabaseType} {elements : List Element}
    {writes : List (Writer → Option Writer)} {parts : List RootElement}
    (written : List.Forall₂ (Element.WrittenBy T) elements writes)
    (stored : roots T elements = some parts) (total : (rootBytes parts).length < 2 ^ 63) :
    WritesElements (fun W => writes.foldlM (fun W write => write W) W) (rootBytes parts) := by
  induction written generalizing parts with
  | nil =>
      cases stored
      exact WritesElements.nothing
  | cons one _ ih =>
      obtain ⟨first, others, hfirst, hothers, rfl⟩ := roots_cons.mp stored
      rw [rootBytes_cons, List.length_append] at total
      rw [rootBytes_cons]
      simp only [List.foldlM_cons]
      exact (one.writes hfirst (by omega)).bind (ih hothers (by omega))

/-- A file that the writing functions have written is loaded to its end: the header, the mark
of a dump in the first file, elements that are accepted one after another, and the footer. -/
theorem loadFile_written {T : DatabaseType} {firstFile : Bool} {magic next : ℕ} {base : Bases}
    {M : Memory}
    {elements : List Element} {writes : List (Writer → Option Writer)} {parts : List RootElement}
    (small : magic < 2 ^ 64) (smallNext : next < 2 ^ 64)
    (expected : M.magic = 0 ∨ M.magic = magic)
    (accepted : ElementsAccepted T firstFile { M with dumpOn := firstFile } elements)
    (written : List.Forall₂ (Element.WrittenBy T) elements writes)
    (stored : roots T elements = some parts)
    (fits : Addressable base (beginBytes T firstFile magic ++
      (rootBytes parts ++ footerBytes next))) :
    ∃ W file R, (do
        let W ← writeFileHeader Writer.init T magic
        let W ← (if firstFile then writeDumpBegin else some) W
        let W ← writes.foldlM (fun W write => write W) W
        writeFileFooter W next) = some W ∧ W.output = some file ∧
      loadFile T firstFile ⟨Reader.init file base, M⟩ = .ok .success ⟨R,
        { applyElements T firstFile { M with dumpOn := firstFile } elements with
          magic := next }⟩ := by
  have space := fits.total
  rw [List.length_append, List.length_append] at space
  have mark : WritesElements (if firstFile then writeDumpBegin else some)
      (if firstFile then dumpBeginBytes else []) := by
    cases firstFile with
    | false => exact WritesElements.nothing
    | true => exact writesElements_writeDumpBegin
  have all := (writesElements_writeFileHeader T magic).bind (mark.bind
    ((writesElements_roots written stored (by omega)).bind (writesElements_writeFileFooter next)))
  obtain ⟨W, wrote, output⟩ := all.output
  rw [← List.append_assoc] at output
  have loads := fits.of_append.2.of_append.1
  obtain ⟨R, loaded⟩ := loadFile_success small smallNext expected fits
    (effects_of_accepted accepted stored loads) []
  rw [List.append_nil] at loaded
  exact ⟨W, _, R, wrote, output, loaded⟩

/-- A database without node types. -/
def noTypes : DatabaseType where
  name := []
  version := []
  nodeTypes := []
  names := short_unnamed
  count := by decide

end HybridDatabase.Database
