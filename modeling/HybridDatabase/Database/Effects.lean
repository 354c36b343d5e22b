/-
# Effects of root elements

What `load_file` does with a root element depends on the element and on the memory
only.  So every root element has an effect, and the loop of `load_file` applies the
effects of the elements in their order.
-/

import HybridDatabase.Database.Loads
import HybridDatabase.Database.Local
import HybridDatabase.Storage.Frame

namespace HybridDatabase.Database

open HybridDatabase.Base HybridDatabase.Storage

/-! ## Root elements -/

/-- A root element: what `reader_begin` loads into the buffer. -/
structure RootElement where
  data : Bytes
  deriving DecidableEq, Repr

namespace RootElement

/-- The element that `writer_finish` leaves: a payload and its trailer. -/
def ofBody (body : Bytes) (checksum : Bool) : RootElement :=
  ⟨body ++ Writer.trailer body checksum⟩

/-- The bytes in the file. -/
def bytes (element : RootElement) : Bytes :=
  Writer.frameHeader element.data.length ++ element.data

theorem bytes_ofBody (body : Bytes) (checksum : Bool) :
    (ofBody body checksum).bytes = frame body checksum := rfl

theorem length_bytes (element : RootElement) : element.bytes.length = 10 + element.data.length := by
  rw [bytes, List.length_append, Writer.length_frameHeader]

/-- The reader with the element in its buffer and nothing behind it. -/
def inBuffer (base : Bases) (element : RootElement) : Reader :=
  (Reader.init [] base).opened [] element.data

theorem inBuffer_at {base : Bases} {element : RootElement}
    (fits : base.top + element.data.length + 256 ≤ 2 ^ 64) :
    (element.inBuffer base).At element.data := Reader.opened_at fits []

/-- What the loop of `load_file` does to the memory at this element; `none` where it
does not go on to the next one. -/
def effect (T : DatabaseType) (firstFile : Bool) (base : Bases) (M : Memory)
    (element : RootElement) : Option Memory :=
  match loadElement T firstFile ⟨element.inBuffer base, M⟩ with
  | .ok false s => some s.memory
  | _ => none

end RootElement

/-- The effects of elements one after another. -/
def effects (T : DatabaseType) (firstFile : Bool) (base : Bases) :
    Memory → List RootElement → Option Memory
  | M, [] => some M
  | M, element :: elements =>
      (element.effect T firstFile base M).bind fun M' => effects T firstFile base M' elements

/-- The bytes of elements one after another. -/
def rootBytes (elements : List RootElement) : Bytes := elements.flatMap RootElement.bytes

theorem rootBytes_cons (element : RootElement) (elements : List RootElement) :
    rootBytes (element :: elements) = element.bytes ++ rootBytes elements := List.flatMap_cons

theorem rootBytes_append (front others : List RootElement) :
    rootBytes (front ++ others) = rootBytes front ++ rootBytes others := List.flatMap_append

/-- Each element takes bytes of the file. -/
theorem length_le_rootBytes (elements : List RootElement) :
    elements.length ≤ (rootBytes elements).length := by
  induction elements with
  | nil => exact Nat.zero_le _
  | cons element elements ih =>
      rw [rootBytes_cons, List.length_append, List.length_cons, element.length_bytes]
      omega

section Loop

variable {T : DatabaseType} {firstFile : Bool} {base : Bases} {M M' : Memory}
  {element : RootElement}

/-- The reader behind `reader_begin` in any file. -/
theorem opened_eq {R : Reader} (hbase : R.base = base) (rest : Bytes) :
    R.opened rest element.data = (element.inBuffer base).withFile rest := by
  subst hbase
  rfl

theorem effect_of_loadElement {R : Reader} {rest : Bytes} {s : Loading} (hbase : R.base = base)
    (run : loadElement T firstFile ⟨R.opened rest element.data, M⟩ = .ok false s) :
    element.effect T firstFile base M = some s.memory := by
  obtain ⟨-, moved⟩ := localUnlessTrue_loadElement firstFile _ _ run
  have same : Loading.withFile [] ⟨R.opened rest element.data, M⟩ =
      ⟨element.inBuffer base, M⟩ := by
    rw [opened_eq hbase]
    rfl
  have alone := moved []
  rw [same] at alone
  rw [RootElement.effect, alone]
  rfl

theorem loadElement_of_effect {R : Reader} (hbase : R.base = base) (rest : Bytes)
    (h : element.effect T firstFile base M = some M') :
    ∃ R' : Reader, R'.base = base ∧ R'.file = rest ∧
      loadElement T firstFile ⟨R.opened rest element.data, M⟩ = .ok false ⟨R', M'⟩ := by
  unfold RootElement.effect at h
  split at h
  · rename_i s run
    obtain rfl := Option.some.inj h
    obtain ⟨same, moved⟩ := localUnlessTrue_loadElement firstFile _ _ run
    refine ⟨s.reader.withFile rest, same, rfl, ?_⟩
    rw [opened_eq hbase]
    exact moved rest
  · cases h

/-- In a file that begins with `bytes`, the loop of `load_file` takes them and turns the
memory `M` into `M'`. -/
def LoadsElement (T : DatabaseType) (firstFile : Bool) (base : Bases) (M M' : Memory)
    (bytes : Bytes) : Prop :=
  ∀ (R : Reader) (rest : Bytes), R.base = base → R.file = bytes ++ rest →
    ∃ R' : Reader, R'.base = base ∧ R'.file = rest ∧ ∀ fuel,
      loadElements T firstFile (fuel + 1) ⟨R, M⟩ = loadElements T firstFile fuel ⟨R', M'⟩

/-- At a whole element `reader_begin` loads it. -/
theorem readerBegin_element {R : Reader} {rest : Bytes} (small : element.data.length < 2 ^ 64)
    (file : R.file = element.bytes ++ rest) (M : Memory) :
    onReader readerBegin ⟨R, M⟩ = .ok .success ⟨R.opened rest element.data, M⟩ :=
  onReader_ok (readerBegin_whole small (by
    rw [file, RootElement.bytes, List.append_assoc])) M

theorem loadsElement_of_effect (small : element.data.length < 2 ^ 64)
    (h : element.effect T firstFile base M = some M') :
    LoadsElement T firstFile base M M' element.bytes := by
  intro R rest hbase file
  obtain ⟨R', base', file', taken⟩ := loadElement_of_effect hbase rest h
  refine ⟨R', base', file', fun fuel => ?_⟩
  rw [loadElements, bind_ok (readerBegin_element small file M)]
  simp only
  rw [bind_ok taken]
  rfl

/-- A loop that comes to the end of the file has taken the element it stands at. -/
theorem effect_of_unfinished {R : Reader} {rest : Bytes} {s : Loading} {fuel : ℕ}
    (small : element.data.length < 2 ^ 64) (hbase : R.base = base)
    (file : R.file = element.bytes ++ rest)
    (run : loadElements T firstFile fuel ⟨R, M⟩ = .ok .unfinished s) :
    ∃ M', element.effect T firstFile base M = some M' := by
  cases fuel with
  | zero => cases run
  | succ fuel =>
      rw [loadElements, bind_ok (readerBegin_element small file M)] at run
      obtain ⟨footer, t, taken, rest⟩ := bind_eq_ok.mp run
      cases footer with
      | true => cases rest
      | false => exact ⟨_, effect_of_loadElement hbase taken⟩

/-- The loop takes elements that have an effect one after another. -/
theorem loadElements_effects {elements : List RootElement} {R : Reader} {rest : Bytes}
    (small : (rootBytes elements).length < 2 ^ 64) (hbase : R.base = base)
    (file : R.file = rootBytes elements ++ rest)
    (h : effects T firstFile base M elements = some M') :
    ∃ R' : Reader, R'.base = base ∧ R'.file = rest ∧ ∀ fuel,
      loadElements T firstFile (fuel + elements.length) ⟨R, M⟩ =
        loadElements T firstFile fuel ⟨R', M'⟩ := by
  induction elements generalizing M R with
  | nil =>
      cases h
      exact ⟨R, hbase, file, fun fuel => rfl⟩
  | cons element elements ih =>
      obtain ⟨M₁, first, others⟩ := Option.bind_eq_some_iff.mp h
      rw [rootBytes_cons, List.length_append, element.length_bytes] at small
      obtain ⟨R₁, base₁, file₁, step⟩ := loadsElement_of_effect (by omega) first R
        (rootBytes elements ++ rest) hbase (by rw [file, rootBytes_cons, List.append_assoc])
      obtain ⟨R₂, base₂, file₂, steps⟩ := ih (by omega) base₁ file₁ others
      refine ⟨R₂, base₂, file₂, fun fuel => ?_⟩
      rw [List.length_cons, ← Nat.add_assoc, step, steps]

/-- A loop that comes to the end of the file has applied the effects of all elements. -/
theorem effects_of_unfinished {elements : List RootElement} {R : Reader} {s : Loading} {fuel : ℕ}
    (small : (rootBytes elements).length < 2 ^ 64) (hbase : R.base = base)
    (file : R.file = rootBytes elements)
    (run : loadElements T firstFile fuel ⟨R, M⟩ = .ok .unfinished s) :
    ∃ M', effects T firstFile base M elements = some M' := by
  induction elements generalizing M R fuel with
  | nil => exact ⟨M, rfl⟩
  | cons element elements ih =>
      rw [rootBytes_cons, List.length_append, element.length_bytes] at small
      rw [rootBytes_cons] at file
      obtain ⟨M₁, first⟩ := effect_of_unfinished (by omega) hbase file run
      obtain ⟨R₁, base₁, file₁, step⟩ := loadsElement_of_effect (by omega) first R
        (rootBytes elements) hbase file
      cases fuel with
      | zero => cases run
      | succ fuel =>
          rw [step] at run
          obtain ⟨M', others⟩ := ih (by omega) base₁ file₁ run
          exact ⟨M', Option.bind_eq_some_iff.mpr ⟨M₁, first, others⟩⟩

end Loop

/-- The effects of a front part, where all elements have an effect. -/
theorem effects_append {T : DatabaseType} {firstFile : Bool} {base : Bases} {M : Memory}
    (front others : List RootElement) :
    effects T firstFile base M (front ++ others) =
      (effects T firstFile base M front).bind fun M' => effects T firstFile base M' others := by
  induction front generalizing M with
  | nil => rfl
  | cons element front ih =>
      simp only [List.cons_append, effects, Option.bind_assoc]
      congr 1
      funext M'
      exact ih

end HybridDatabase.Database
