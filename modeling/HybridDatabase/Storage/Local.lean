/-
# Calls that stay in their element

Once `reader_begin` has loaded an element, the other calls do not look at the file
behind it.  What they do is the same whatever follows in the file, and an element that
is loaded is loaded from a longer file too.
-/

import HybridDatabase.Storage.Frame

namespace HybridDatabase.Storage

open HybridDatabase.Base

/-- The reader with another file behind its element. -/
def Reader.withFile (file : Bytes) (R : Reader) : Reader := { R with file := file }

/-- The call does not look at the file, and the buffer stays where it is. -/
abbrev Local {α : Type} (m : ReaderM α) : Prop := Blind Reader.withFile Reader.base m

theorem local_fetch (address : ℕ) : Local (fetch address) := by
  constructor
  · intro file R
    have same : (R.withFile file).byteAt address = R.byteAt address := rfl
    unfold fetch
    rw [same]
    cases R.byteAt address <;> rfl
  · intro R
    unfold fetch
    cases R.byteAt address <;> rfl

theorem local_fetchMany (address length : ℕ) : Local (fetchMany address length) := by
  constructor
  · intro file R
    have limit : (R.withFile file).limit = R.limit := rfl
    unfold fetchMany
    rw [limit]
    by_cases inside : R.begin ≤ address ∧ address + length ≤ R.limit
    · rw [if_pos inside, if_pos (by exact inside)]
      rfl
    · rw [if_neg inside, if_neg (by exact inside)]
      rfl
  · intro R
    unfold fetchMany
    split <;> rfl

theorem local_ensureSpace (size : ℕ) : Local (ensureSpace size) := by
  constructor
  · intro file R
    have limit : (R.withFile file).limit = R.limit := rfl
    unfold ensureSpace
    rw [limit]
    by_cases short : R.limit < (R.ptr + size) % 2 ^ 64
    · rw [if_pos short, if_pos (by exact short)]
      rfl
    · rw [if_neg short, if_neg (by exact short)]
      rfl
  · intro R
    unfold ensureSpace
    split <;> rfl

theorem local_advance (n : ℕ) : Local (advance n) := Blind.modify (fun _ _ => rfl) fun _ => rfl

theorem local_takeByte : Local takeByte :=
  Blind.get (fun _ _ => rfl) fun _ =>
    (local_fetch _).bind fun _ => (local_advance 1).bind fun _ => Blind.pure _

theorem local_takeMany (length : ℕ) : Local (takeMany length) :=
  Blind.get (fun _ _ => rfl) fun _ =>
    (local_fetchMany _ _).bind fun _ => (local_advance _).bind fun _ => Blind.pure _

theorem local_check (cond : Bool) : Local (check cond) := Blind.ite (Blind.pure _) (Blind.throw _)

theorem local_assertion (cond : Bool) : Local (assertion cond) :=
  Blind.ite (Blind.pure _) (Blind.throw _)

theorem local_readerNext : Local readerNext :=
  Blind.get (fun _ _ => rfl) fun _ =>
    Blind.ite (Blind.pure _) ((local_fetch _).bind fun _ => Blind.pure _)

theorem local_readArray : Local readArray :=
  (local_ensureSpace 1).bind fun _ =>
    Blind.bind (Blind.modify (fun _ _ => rfl) fun _ => rfl) fun _ =>
      local_takeByte.bind fun _ => local_check _

theorem local_readArrayEnd : Local readArrayEnd :=
  (local_ensureSpace 1).bind fun _ =>
    Blind.get (fun _ _ => rfl) fun _ => (local_assertion _).bind fun _ =>
      Blind.bind (Blind.modify (fun _ _ => rfl) fun _ => rfl) fun _ =>
        local_takeByte.bind fun _ => local_check _

theorem local_readCode : Local readCode :=
  (local_ensureSpace 1).bind fun _ => local_takeByte.bind fun _ => (local_check _).bind fun _ =>
    Blind.ite (Blind.pure _) <|
      (Blind.ite (local_ensureSpace 8) (Blind.pure _)).bind fun _ =>
        (local_takeMany _).bind fun _ => Blind.pure _

theorem local_readString : Local readString :=
  local_readCode.bind fun _ => (local_ensureSpace _).bind fun _ =>
    Blind.get (fun _ _ => rfl) fun _ => (local_advance _).bind fun _ => Blind.pure _

theorem local_readNumber : Local readNumber :=
  (local_ensureSpace 1).bind fun _ => local_takeByte.bind fun _ => (local_check _).bind fun _ =>
    (local_ensureSpace _).bind fun _ => (local_takeMany _).bind fun _ => Blind.pure _

theorem local_readerFinish (checksum : Bool) : Local (readerFinish checksum) :=
  Blind.get (fun _ _ => rfl) fun _ => (local_assertion _).bind fun _ =>
    (local_ensureSpace 1).bind fun _ => (local_fetch _).bind fun _ =>
      Blind.ite
        ((local_ensureSpace 6).bind fun _ => (local_fetchMany _ _).bind fun _ =>
          (local_fetchMany _ _).bind fun _ => (local_advance 6).bind fun _ =>
            (local_fetch _).bind fun _ => Blind.get (fun _ _ => rfl) fun _ => local_check _)
        ((local_advance 1).bind fun _ => Blind.get (fun _ _ => rfl) fun _ => local_check _)

theorem local_readerSkipLoop (fuel : ℕ) (depth : ℤ) : Local (readerSkipLoop fuel depth) := by
  induction fuel generalizing depth with
  | zero => exact Blind.throw _
  | succ fuel ih =>
      refine local_readerNext.bind fun kind => ?_
      cases kind with
      | arrayBegin => exact local_readArray.bind fun _ => ih _
      | string => exact local_readString.bind fun _ => ih _
      | arrayEnd => exact Blind.ite (Blind.pure _) (local_readArrayEnd.bind fun _ => ih _)
      | crc => exact Blind.throw _
      | dot => exact Blind.throw _
      | error => exact Blind.throw _

theorem local_readContents : Local readContents :=
  local_readString.bind fun _ => local_fetchMany _ _

/-! ## Longer files -/

/-- The reader of a longer file. -/
def Reader.longer (more : Bytes) (R : Reader) : Reader := { R with file := R.file ++ more }

theorem keeps_file {α : Type} {m : ReaderM α} (h : Local m) : Keeps Reader.file m := by
  intro R
  have same := h.commutes R.file R
  have here : R.withFile R.file = R := rfl
  rw [here] at same
  cases run : m R with
  | ok a R' =>
      rw [run] at same
      injection same with _ state
      exact (congrArg Reader.file state).trans rfl
  | error e R' =>
      rw [run] at same
      injection same with _ state
      exact (congrArg Reader.file state).trans rfl

/-- A call that stays in its element does not notice that the file is longer. -/
theorem survives_of_local {α : Type} {m : ReaderM α} (h : Local m) (more : Bytes) :
    Survives (Reader.longer more) Reader.base m := by
  intro R a R' run
  have same : R'.file = R.file := by
    have kept := keeps_file h R
    rwa [run] at kept
  obtain ⟨moved, base⟩ := Survives.of_blind (i := R.file ++ more) h R a R' run
  rw [show R'.longer more = R'.withFile (R.file ++ more) by rw [← same]; rfl]
  exact ⟨moved, base⟩

theorem fileReaderRead_longer {R R' : Reader} {length : ℕ} {bytes : Bytes}
    (run : fileReaderRead length R = .ok (.success, bytes) R') (more : Bytes) :
    fileReaderRead length (R.longer more) = .ok (.success, bytes) (R'.longer more) ∧
      R'.file.length + length = R.file.length := by
  have enough : length ≤ R.file.length := by
    by_contra short
    obtain ⟨status, other, read, -⟩ := fileReaderRead_short (show R.file.length < length by omega)
    rw [read] at run
    injection run with answer _
    exact other (congrArg Prod.fst answer)
  have split : R.file = R.file.take length ++ R.file.drop length :=
    (List.take_append_drop length R.file).symm
  have size : (R.file.take length).length = length := List.length_take_of_le enough
  have whole := fileReaderRead_whole (R := R) split
  rw [size, run] at whole
  injection whole with answer state
  have there : (R.longer more).file = R.file.take length ++ (R.file.drop length ++ more) := by
    rw [← List.append_assoc, List.take_append_drop]
    rfl
  have longer := fileReaderRead_whole (R := R.longer more) there
  rw [size] at longer
  obtain rfl : bytes = R.file.take length := congrArg Prod.snd answer
  subst state
  refine ⟨longer, ?_⟩
  show (R.file.drop length).length + length = R.file.length
  rw [List.length_drop]
  omega

/-- An element that is loaded is loaded from a longer file too. -/
theorem readerBegin_longer {R R' : Reader} (run : readerBegin R = .ok .success R') (more : Bytes) :
    readerBegin (R.longer more) = .ok .success (R'.longer more) ∧
      R'.file.length + 10 ≤ R.file.length ∧ R'.base = R.base := by
  unfold readerBegin at run
  obtain ⟨⟨status, header⟩, R₁, first, rest⟩ := bind_eq_ok.mp run
  cases status with
  | fail => cases rest
  | endOfFile => cases rest
  | success =>
      obtain ⟨first', length₁⟩ := fileReaderRead_longer first more
      have base₁ : R₁.base = R.base := by
        injection first with _ state
        rw [← state]
      simp only at rest
      cases announced : readHeader header with
      | none =>
          rw [announced] at rest
          cases rest
      | some length =>
          rw [announced] at rest
          simp only at rest
          obtain ⟨⟨status, data⟩, R₂, second, last⟩ := bind_eq_ok.mp rest
          have base₂ : R₂.base = R₁.base := by
            injection second with _ state
            rw [← state]
          by_cases success : status = .success
          · subst success
            obtain ⟨second', length₂⟩ := fileReaderRead_longer second more
            simp only [if_true] at last
            cases last
            refine ⟨?_, ?_, ?_⟩
            · unfold readerBegin
              rw [bind_ok first']
              simp only [announced]
              rw [bind_ok second']
              rfl
            · show R₂.file.length + 10 ≤ R.file.length
              omega
            · exact base₂.trans base₁
          · simp only [success, if_false] at last
            cases last

theorem readerBegin_endOfFile {R R' : Reader} (run : readerBegin R = .ok .endOfFile R') :
    R.file = [] ∧ R'.base = R.base := by
  unfold readerBegin at run
  obtain ⟨⟨status, header⟩, R₁, first, rest⟩ := bind_eq_ok.mp run
  have base₁ : R₁.base = R.base := by
    injection first with _ state
    rw [← state]
  cases status with
  | fail => cases rest
  | endOfFile =>
      cases rest
      refine ⟨?_, base₁⟩
      injection first with answer _
      have ended := congrArg Prod.fst answer
      simp only at ended
      split at ended
      · cases ended
      · split at ended
        · rename_i none
          rw [List.length_take] at none
          exact List.eq_nil_of_length_eq_zero (by omega)
        · cases ended
  | success =>
      simp only at rest
      cases announced : readHeader header with
      | none =>
          rw [announced] at rest
          cases rest
      | some length =>
          rw [announced] at rest
          simp only at rest
          obtain ⟨⟨status, data⟩, R₂, second, last⟩ := bind_eq_ok.mp rest
          by_cases success : status = .success
          · simp only [success, if_true] at last
            cases last
          · simp only [success, if_false] at last
            cases last

end HybridDatabase.Storage
