/-
# Files that were cut off

A crash can leave any front part of a data file.  Loading it applies the elements that
are whole, in their order, and nothing of the one that was cut; the load says whether
the cut is at the end of an element.
-/

import HybridDatabase.Database.Files

namespace HybridDatabase.Database

open HybridDatabase.Base HybridDatabase.Storage

/-! ## Cuts -/

/-- The elements that lie completely in the first `n` bytes. -/
def wholeWithin : ℕ → List RootElement → List RootElement
  | _, [] => []
  | n, element :: elements =>
      if element.bytes.length ≤ n then
        element :: wholeWithin (n - element.bytes.length) elements
      else []

/-- The memories hold the same database; they may differ in `dump_on`, a local variable
of `load_file`. -/
def Memory.SameDatabase (M M' : Memory) : Prop :=
  M.nodes = M'.nodes ∧ M.counter = M'.counter ∧ M.calls = M'.calls ∧ M.magic = M'.magic

theorem wholeWithin_zero (elements : List RootElement) : wholeWithin 0 elements = [] := by
  cases elements with
  | nil => rfl
  | cons element elements =>
      have : ¬ element.bytes.length ≤ 0 := by rw [element.length_bytes]; omega
      rw [wholeWithin, if_neg this]

theorem wholeWithin_prefix (n : ℕ) (elements : List RootElement) :
    wholeWithin n elements <+: elements := by
  induction elements generalizing n with
  | nil => exact List.nil_prefix
  | cons element elements ih =>
      rw [wholeWithin]
      split
      · exact (List.prefix_cons_inj element).mpr (ih _)
      · exact List.nil_prefix

/-- A cut through elements goes behind the whole ones, where the file ends or the next
element is not whole. -/
theorem wholeWithin_cut {elements : List RootElement} {cut lost : Bytes}
    (split : rootBytes elements = cut ++ lost) :
    ∃ others tail, elements = wholeWithin cut.length elements ++ others ∧
      cut = rootBytes (wholeWithin cut.length elements) ++ tail ∧
        (tail ≠ [] → ∃ element after more, others = element :: after ∧ more ≠ [] ∧
          element.bytes = tail ++ more) := by
  induction elements generalizing cut with
  | nil =>
      obtain ⟨rfl, -⟩ := List.append_eq_nil_iff.mp split.symm
      exact ⟨[], [], rfl, rfl, fun h => absurd rfl h⟩
  | cons element elements ih =>
      rw [rootBytes_cons] at split
      rcases split_append split with ⟨more, nonempty, rest⟩ | ⟨tail, rfl, rest⟩
      · have positive : 0 < more.length := List.length_pos_of_ne_nil nonempty
        have long : ¬ element.bytes.length ≤ cut.length := by
          rw [rest, List.length_append]
          omega
        have none : wholeWithin cut.length (element :: elements) = [] := by
          rw [wholeWithin, if_neg long]
        rw [none]
        exact ⟨element :: elements, cut, rfl, rfl, fun _ =>
          ⟨element, elements, more, rfl, nonempty, rest⟩⟩
      · obtain ⟨others, tail', whole, bytes, partial_⟩ := ih rest
        have first : wholeWithin (element.bytes ++ tail).length (element :: elements) =
            element :: wholeWithin tail.length elements := by
          rw [wholeWithin, List.length_append, if_pos (by omega), Nat.add_sub_cancel_left]
        rw [first, rootBytes_cons]
        refine ⟨others, tail', ?_, ?_, partial_⟩
        · rw [List.cons_append, ← whole]
        · rw [List.append_assoc, ← bytes]

/-- The cut is at the end of an element if it ends behind the whole ones. -/
theorem boundary_iff {elements : List RootElement} {cut lost : Bytes}
    (split : rootBytes elements = cut ++ lost) :
    cut = rootBytes (wholeWithin cut.length elements) ↔
      ∃ done, done <+: elements ∧ cut = rootBytes done := by
  obtain ⟨others, tail, whole, -, -⟩ := wholeWithin_cut split
  constructor
  · intro here
    exact ⟨_, ⟨others, whole.symm⟩, here⟩
  · rintro ⟨done, ⟨after, rfl⟩, rfl⟩
    clear split whole
    congr 1
    induction done with
    | nil => exact (wholeWithin_zero _).symm
    | cons element done ih =>
        rw [List.cons_append, rootBytes_cons, wholeWithin, List.length_append,
          if_pos (by omega), Nat.add_sub_cancel_left, ← ih]

/-! ## The loop of a cut file -/

section Loop

variable {T : DatabaseType} {firstFile : Bool} {base : Bases} {M M' : Memory}

theorem loadElements_cut {elements : List RootElement} {cut lost : Bytes} {R : Reader} {fuel : ℕ}
    (small : (rootBytes elements).length < 2 ^ 64) (split : rootBytes elements = cut ++ lost)
    (hbase : R.base = base) (file : R.file = cut) (enough : cut.length < fuel)
    (h : effects T firstFile base M (wholeWithin cut.length elements) = some M') :
    ∃ R' : Reader, loadElements T firstFile fuel ⟨R, M⟩ =
      if cut = rootBytes (wholeWithin cut.length elements) then .ok .unfinished ⟨R', M'⟩
      else .error .failed ⟨R', M'⟩ := by
  obtain ⟨others, tail, whole, bytes, next⟩ := wholeWithin_cut split
  set done := wholeWithin cut.length elements with hdone
  rw [whole, rootBytes_append, List.length_append] at small
  obtain ⟨R₁, base₁, file₁, steps⟩ := loadElements_effects (by omega) hbase
    (show R.file = rootBytes done ++ tail by rw [file, ← bytes]) h
  have count := length_le_rootBytes done
  have length := congrArg List.length bytes
  rw [List.length_append] at length
  obtain ⟨spare, rfl⟩ : ∃ n, fuel = n + 1 + done.length := ⟨fuel - 1 - done.length, by omega⟩
  refine ⟨{ R₁ with file := [] }, ?_⟩
  rw [steps, loadElements]
  by_cases boundary : cut = rootBytes done
  · have ended : R₁.file = [] := by
      rw [file₁]
      exact List.append_cancel_left (bytes.symm.trans boundary |>.trans (List.append_nil _).symm)
    rw [if_pos boundary, bind_ok (onReader_ok (readerBegin_end ended) M')]
    rfl
  · have nonempty : tail ≠ [] := by
      rintro rfl
      exact boundary (by rw [bytes, List.append_nil])
    obtain ⟨element, after, more, rfl, lostMore, torn⟩ := next nonempty
    rw [rootBytes_cons, List.length_append, element.length_bytes] at small
    have positive : 0 < more.length := List.length_pos_of_ne_nil lostMore
    have parts := congrArg List.length torn
    rw [List.length_append, element.length_bytes] at parts
    have fits : element.data.length < 2 ^ 64 := by omega
    have failed := readerBegin_cut fits (show R₁.file ≠ [] by rw [file₁]; exact nonempty)
      (by rw [file₁]; exact ⟨more, torn.symm⟩) (by rw [file₁]; omega)
    rw [if_neg boundary, bind_ok (onReader_ok failed M')]
    rfl

end Loop

/-! ## Cut headers -/

theorem not_begun {R : Reader} {status : ReadStatus} (other : status ≠ .success) :
    check (status = ReadStatus.success) R = .error .failed R := by
  simp only [check, other, decide_false, Bool.false_eq_true, if_false, throw_run]

/-- At less than a whole frame `reader_begin(R) == ST_READ_SUCCESS` is false. -/
theorem begun_short {α : Type} {R : Reader} {body more : Bytes} {checksum : Bool}
    {f : ReaderM α} (small : (frame body checksum).length < 2 ^ 64) (lost : more ≠ [])
    (torn : frame body checksum = R.file ++ more) :
    (do let status ← readerBegin
        check (status = .success)
        f : ReaderM α) R = .error .failed { R with file := [] } := by
  have positive : 0 < more.length := List.length_pos_of_ne_nil lost
  have length := congrArg List.length torn
  rw [length_frame] at small
  have parts : (R.file ++ more).length = R.file.length + more.length := List.length_append
  rw [length_frame, parts] at length
  have fits : (body ++ Writer.trailer body checksum).length < 2 ^ 64 := by omega
  obtain ⟨status, other, -, begun⟩ := readerBegin_short (R := R) fits ⟨more, torn.symm⟩ (by omega)
  rw [bind_ok begun]
  exact bind_error (not_begun other)

theorem readFileHeader_cut {T : DatabaseType} {magic : ℕ} {R : Reader} {more : Bytes}
    (lost : more ≠ []) (fits : R.base.top + (headerBytes T magic).length + 256 ≤ 2 ^ 64)
    (torn : headerBytes T magic = R.file ++ more) :
    ∃ R', readFileHeader T R = .error .failed R' := by
  rw [headerBytes, List.length_append] at fits
  rw [headerBytes] at torn
  rcases split_append torn with ⟨more', lost', torn'⟩ | ⟨tail, file, torn'⟩
  · refine ⟨{ R with file := [] }, ?_⟩
    unfold readFileHeader
    exact begun_short (by omega) lost' torn'
  · obtain ⟨R₁, base₁, file₁, names⟩ := readFileHeader_names (by omega) file
    rw [← file₁] at torn'
    refine ⟨{ R₁ with file := [] }, ?_⟩
    rw [names, readMagic]
    exact begun_short (by omega) lost torn'

/-- Less than a whole header is rejected, and nothing is loaded. -/
theorem loadHeader_cut {T : DatabaseType} {firstFile : Bool} {magic : ℕ} {R : Reader} {M : Memory}
    {more : Bytes} (small : magic < 2 ^ 64) (expected : M.magic = 0 ∨ M.magic = magic)
    (lost : more ≠ []) (fits : R.base.top + (beginBytes T firstFile magic).length + 1024 ≤ 2 ^ 64)
    (torn : beginBytes T firstFile magic = R.file ++ more) :
    ∃ (R' : Reader) (on : Bool),
      loadHeader T firstFile ⟨R, M⟩ = .error .failed ⟨R', { M with dumpOn := on }⟩ := by
  rw [beginBytes, List.length_append] at fits
  rw [beginBytes] at torn
  rcases split_append torn with ⟨more', lost', torn'⟩ | ⟨tail, file, torn'⟩
  · obtain ⟨R', header⟩ := readFileHeader_cut lost' (by omega) torn'
    exact ⟨R', M.dumpOn, bind_error (onReader_error header M)⟩
  · cases firstFile with
    | false => exact absurd (List.append_eq_nil_iff.mp torn'.symm).2 lost
    | true =>
        obtain ⟨R₁, base₁, file₁, header⟩ :=
          loadHeader_names true (M := M) small expected (by omega) file
        rw [← file₁] at torn'
        have failed := begun_short (R := R₁) (f := readDumpBegin) (by decide) lost torn'
        refine ⟨{ R₁ with file := [] }, false, ?_⟩
        rw [header]
        exact bind_error (onReader_error failed { M with dumpOn := false })

/-! ## Whole files -/

/-- A file that is loaded to its end has the expected magic number. -/
theorem expected_of_unfinished {T : DatabaseType} {firstFile : Bool} {magic : ℕ} {base : Bases}
    {M : Memory}
    {rest : Bytes} {s : Loading} (small : magic < 2 ^ 64)
    (fits : Addressable base (beginBytes T firstFile magic ++ rest))
    (accepted : loadFile T firstFile
      ⟨Reader.init (beginBytes T firstFile magic ++ rest) base, M⟩ = .ok .unfinished s) :
    M.magic = 0 ∨ M.magic = magic := by
  by_contra other
  have space := fits.space
  rw [beginBytes, List.append_assoc, List.length_append] at space
  rw [beginBytes, List.append_assoc] at accepted
  obtain ⟨t, rejected⟩ := loadHeader_other firstFile
    (R := Reader.init (headerBytes T magic ++ _) base) small other
    (by show base.top + (headerBytes T magic).length + 256 ≤ _; omega) rfl
  rw [loadFile, loadFileBody, bind_error rejected] at accepted
  cases accepted

/-- A file that is loaded to its end is one whose elements all have an effect. -/
theorem effects_of_accepted_file {T : DatabaseType} {firstFile : Bool} {magic : ℕ} {base : Bases}
    {M : Memory} {elements : List RootElement} {s : Loading} (small : magic < 2 ^ 64)
    (fits : Addressable base (beginBytes T firstFile magic ++ rootBytes elements))
    (accepted : loadFile T firstFile
      ⟨Reader.init (beginBytes T firstFile magic ++ rootBytes elements) base, M⟩ =
        .ok .unfinished s) :
    ∃ M', effects T firstFile base { M with dumpOn := firstFile } elements = some M' := by
  have expected := expected_of_unfinished small fits accepted
  obtain ⟨fitsBegin, fitsElements⟩ := fits.of_append
  set R₀ := Reader.init (beginBytes T firstFile magic ++ rootBytes elements) base with hR₀
  have space : R₀.base.top + (beginBytes T firstFile magic).length + 1024 ≤ 2 ^ 64 :=
    fitsBegin.space
  obtain ⟨R₁, base₁, file₁, header⟩ := loadHeader_at (M := M) small expected space rfl
  have total := fitsElements.total
  rw [loadFile, loadFileBody, bind_ok header, bind_ok (get_run _)] at accepted
  cases run : loadElements T firstFile (R₁.file.length + 1)
      ⟨R₁, { M with dumpOn := firstFile }⟩ with
  | ok status t =>
      simp only [run] at accepted
      cases accepted
      exact effects_of_unfinished (by omega) base₁ file₁ run
  | error e t =>
      simp only [run] at accepted
      cases e <;> cases accepted

theorem effects_of_prefix {T : DatabaseType} {firstFile : Bool} {base : Bases} {M M' : Memory}
    {front others : List RootElement}
    (h : effects T firstFile base M (front ++ others) = some M') :
    ∃ M₁, effects T firstFile base M front = some M₁ := by
  rw [effects_append] at h
  obtain ⟨M₁, first, -⟩ := Option.bind_eq_some_iff.mp h
  exact ⟨M₁, first⟩

theorem roots_take {T : DatabaseType} {written : List Element} {front others : List RootElement}
    (stored : roots T written = some (front ++ others)) :
    roots T (written.take front.length) = some front := by
  induction front generalizing written with
  | nil => rfl
  | cons part front ih =>
      cases written with
      | nil => cases stored
      | cons element written =>
          obtain ⟨first, rest, hfirst, hrest, same⟩ := roots_cons.mp stored
          obtain ⟨rfl, rfl⟩ := List.cons.inj same
          exact roots_cons.mpr ⟨part, front, hfirst, ih hrest, rfl⟩

theorem elementsAccepted_take {T : DatabaseType} {firstFile : Bool} {written : List Element}
    {M : Memory} (accepted : ElementsAccepted T firstFile M written) (n : ℕ) :
    ElementsAccepted T firstFile M (written.take n) := by
  induction written generalizing M n with
  | nil => rw [List.take_nil]; trivial
  | cons element written ih =>
      cases n with
      | zero => trivial
      | succ n => exact ⟨accepted.1, ih accepted.2 n⟩

/-- For accepted elements the effects of a front part are what its elements stand for. -/
theorem effects_take {T : DatabaseType} {firstFile : Bool} {base : Bases} {M M' : Memory}
    {written : List Element} {front others : List RootElement}
    (stored : roots T written = some (front ++ others))
    (accepted : ElementsAccepted T firstFile M written)
    (fits : Addressable base (rootBytes (front ++ others)))
    (h : effects T firstFile base M front = some M') :
    M' = applyElements T firstFile M (written.take front.length) := by
  rw [rootBytes_append] at fits
  have applied := effects_of_accepted (elementsAccepted_take accepted front.length)
    (roots_take stored) fits.of_append.1
  exact Option.some.inj (h.symm.trans applied)

/-- Of elements that have effects, whatever is cut off, the effects of the whole ones are applied;
the load ends with `unfinished` if the cut is at the end of an element or of the header. -/
theorem loadFile_of_effects {T : DatabaseType} {firstFile : Bool} {magic : ℕ} {base : Bases}
    {M M₁ : Memory}
    {elements : List RootElement} {cut lost : Bytes} (small : magic < 2 ^ 64)
    (expected : M.magic = 0 ∨ M.magic = magic)
    (fits : Addressable base (beginBytes T firstFile magic ++ rootBytes elements))
    (all : effects T firstFile base { M with dumpOn := firstFile } elements = some M₁)
    (split : beginBytes T firstFile magic ++ rootBytes elements = cut ++ lost) :
    ∃ (status : LoadStatus) (t : Loading) (M' : Memory),
      loadFile T firstFile ⟨Reader.init cut base, M⟩ = .ok status t ∧
      (status = .unfinished ∨ status = .corrupted) ∧
      (status = .unfinished ↔
        ∃ done, done <+: elements ∧ cut = beginBytes T firstFile magic ++ rootBytes done) ∧
      effects T firstFile base { M with dumpOn := firstFile }
        (wholeWithin (cut.length - (beginBytes T firstFile magic).length) elements) = some M' ∧
      t.memory.SameDatabase M' := by
  obtain ⟨fitsBegin, fitsElements⟩ := fits.of_append
  set R₀ := Reader.init cut base with hR₀
  have space : R₀.base.top + (beginBytes T firstFile magic).length + 1024 ≤ 2 ^ 64 :=
    fitsBegin.space
  rcases split_append split with ⟨more, lost', torn⟩ | ⟨tail, rfl, rest⟩
  · obtain ⟨R', on, header⟩ := loadHeader_cut (M := M) small expected lost' space torn
    have positive : 0 < more.length := List.length_pos_of_ne_nil lost'
    have length := congrArg List.length torn
    rw [List.length_append] at length
    have before : cut.length - (beginBytes T firstFile magic).length = 0 := by omega
    refine ⟨.corrupted, ⟨R', { M with dumpOn := on }⟩, { M with dumpOn := firstFile }, ?_,
      .inr rfl, ?_, ?_, ⟨rfl, rfl, rfl, rfl⟩⟩
    · rw [loadFile, loadFileBody, bind_error header]
    · constructor
      · intro h
        cases h
      · rintro ⟨done, -, h⟩
        have := congrArg List.length h
        rw [List.length_append] at this
        omega
    · rw [before, wholeWithin_zero]
      rfl
  · obtain ⟨others, tail', whole, -, -⟩ := wholeWithin_cut rest
    rw [List.length_append, Nat.add_sub_cancel_left]
    rw [whole] at all
    obtain ⟨M', done⟩ := effects_of_prefix all
    obtain ⟨R₁, base₁, file₁, header⟩ := loadHeader_at (M := M) small expected space rfl
    have total := fitsElements.total
    have enough : tail.length < R₁.file.length + 1 := by rw [file₁]; omega
    obtain ⟨R₂, loop⟩ := loadElements_cut (by omega) rest base₁ file₁ enough done
    have boundary := boundary_iff rest
    have inFile (done : List RootElement) :
        beginBytes T firstFile magic ++ tail = beginBytes T firstFile magic ++ rootBytes done ↔
          tail = rootBytes done := List.append_right_inj _
    simp only [inFile, ← boundary]
    by_cases here : tail = rootBytes (wholeWithin tail.length elements)
    · rw [if_pos here] at loop
      refine ⟨.unfinished, ⟨R₂, M'⟩, M', ?_, .inl rfl, ⟨fun _ => here, fun _ => rfl⟩, done,
        rfl, rfl, rfl, rfl⟩
      rw [loadFile, loadFileBody, bind_ok header, bind_ok (get_run _), loop]
    · rw [if_neg here] at loop
      refine ⟨.corrupted, ⟨R₂, M'⟩, M', ?_, .inr rfl,
        ⟨fun h => (by cases h), fun h => absurd h here⟩, done, rfl, rfl, rfl, rfl⟩
      rw [loadFile, loadFileBody, bind_ok header, bind_ok (get_run _), loop]

/-- Whatever is cut off an accepted file, loading the rest applies exactly the elements
that are whole, and it ends with `unfinished` if the cut is at the end of an element or
of the header.  For elements that were written from accepted transactions, nodes and
marks, these are what the memory shows. -/
theorem loadFile_cut {T : DatabaseType} {firstFile : Bool} {magic : ℕ} {base : Bases} {M : Memory}
    {elements : List RootElement} {cut lost : Bytes} {s : Loading} (small : magic < 2 ^ 64)
    (fits : Addressable base (beginBytes T firstFile magic ++ rootBytes elements))
    (accepted : loadFile T firstFile
      ⟨Reader.init (beginBytes T firstFile magic ++ rootBytes elements) base, M⟩ =
        .ok .unfinished s)
    (split : beginBytes T firstFile magic ++ rootBytes elements = cut ++ lost) :
    ∃ (status : LoadStatus) (t : Loading) (M' : Memory),
      loadFile T firstFile ⟨Reader.init cut base, M⟩ = .ok status t ∧
      (status = .unfinished ∨ status = .corrupted) ∧
      (status = .unfinished ↔
        ∃ done, done <+: elements ∧ cut = beginBytes T firstFile magic ++ rootBytes done) ∧
      effects T firstFile base { M with dumpOn := firstFile }
        (wholeWithin (cut.length - (beginBytes T firstFile magic).length) elements) = some M' ∧
      t.memory.SameDatabase M' ∧
      ∀ written, roots T written = some elements →
        ElementsAccepted T firstFile { M with dumpOn := firstFile } written →
        M' = applyElements T firstFile { M with dumpOn := firstFile } (written.take
          (wholeWithin (cut.length - (beginBytes T firstFile magic).length) elements).length) := by
  obtain ⟨M₁, all⟩ := effects_of_accepted_file small fits accepted
  have expected := expected_of_unfinished small fits accepted
  obtain ⟨status, t, M', run, answers, boundary, done, same⟩ :=
    loadFile_of_effects small expected fits all split
  refine ⟨status, t, M', run, answers, boundary, done, same, fun written stored accepted => ?_⟩
  obtain ⟨others, whole⟩ := wholeWithin_prefix
    (cut.length - (beginBytes T firstFile magic).length) elements
  rw [← whole] at stored fits
  exact effects_take stored accepted fits.of_append.2 done

/-- The element of a transaction that deletes the node 5. -/
def deletion : RootElement :=
  .ofBody (encodeArray (encodeArray (encodeNumber cbeNodeDeleted ++ encodeNumber 5))) true

/-- The deletion of a node, cut off behind three bytes. -/
theorem loadFile_cut_deletion :
    ∃ (status : LoadStatus) (t : Loading) (M' : Memory),
      loadFile noTypes false ⟨Reader.init
        (beginBytes noTypes false 7 ++ deletion.bytes.take 3) 4096, Memory.empty⟩ =
          .ok status t ∧ t.memory.SameDatabase M' := by
  have fits : Addressable 4096 (beginBytes noTypes false 7 ++ rootBytes [deletion]) :=
    ⟨by decide, by decide⟩
  have stored : roots noTypes [.transaction [.delete 5]] = some [deletion] := rfl
  have deleted : (Record.delete 5).Fits noTypes { Memory.empty with dumpOn := false } :=
    show 5 < 2 ^ 64 by decide
  have accepted : ElementsAccepted noTypes false { Memory.empty with dumpOn := false }
      [.transaction [.delete 5]] := ⟨⟨by decide, deleted, trivial⟩, trivial⟩
  have applied := effects_of_accepted accepted stored fits.of_append.2
  obtain ⟨R, loaded⟩ := loadFile_unfinished (M := Memory.empty) (by decide) (.inl rfl) fits applied
  have split : beginBytes noTypes false 7 ++ rootBytes [deletion] =
      (beginBytes noTypes false 7 ++ deletion.bytes.take 3) ++ deletion.bytes.drop 3 := by
    rw [List.append_assoc, List.take_append_drop]
    simp [rootBytes]
  obtain ⟨status, t, M', run, -, -, -, same, -⟩ := loadFile_cut (by decide) fits loaded split
  exact ⟨status, t, M', run, same⟩

end HybridDatabase.Database
