/-
# The rescuer

The rescuer reads root elements from a damaged file, writes each of them again, token by
token, and stops at the first one that it cannot read.  It has one reader and one writer;
what the calls on them do is said in terms of the bytes of the element in front of the
pointer and behind it.

A turn of its loop can go wrong in a way that is not an answer: `write_array_end` asserts
that an array is open, the counter `indent` is a signed `int`, and a string whose length
code is torn off or too large is copied from outside the buffer.  `Harmful` says in front
of which bytes this happens.
-/

import HybridDatabase.Storage.Grammar

namespace HybridDatabase.Storage

open HybridDatabase.Base

/-! ## The program -/

/-- The reader and the writer of the rescuer, and what it has written to its output. -/
structure Rescue where
  reader : Reader
  writer : Writer
  output : Bytes

abbrev RescueM := EStateM ReadError Rescue

/-- A call on the reader. -/
def onReader {α : Type} (call : ReaderM α) : RescueM α :=
  onPart Rescue.reader (fun R S => { S with reader := R }) call

/-- A call on the writer. -/
def onWriter (call : Writer → Option Writer) : RescueM Unit := fun S =>
  match call S.writer with
  | some W => .ok () { S with writer := W }
  | none => .error .abort S

/-- `indent++`.  Overflow of a signed counter is undefined. -/
def incrementIndent (indent : ℤ) : RescueM ℤ :=
  if indent + 1 = 2 ^ 31 then throw .fault else pure (indent + 1)

/-- One turn of the loop of `process_element`. -/
def processTurn (indent : ℤ) : RescueM ℤ := do
  match ← onReader readerNext with
  | .arrayBegin =>
      onWriter Writer.writeArray
      let indent ← incrementIndent indent
      onReader readArray
      return indent
  | .arrayEnd =>
      onWriter Writer.writeArrayEnd
      onReader readArrayEnd
      return indent - 1
  | .string =>
      let contents ← onReader readContents
      onWriter (·.writeString contents)
      return indent
  | _ => throw .failed

/-- The loop of `process_element`. -/
def processLoop : ℕ → ℤ → RescueM Unit
  | 0, _ => throw .outOfFuel
  | fuel + 1, indent => do
      let indent ← processTurn indent
      if indent = 0 then return () else processLoop fuel indent

/-- The part of `process_element` behind its loop. -/
def processEnd : RescueM Unit := do
  match ← onReader readerNext with
  | .dot =>
      onReader (readerFinish false)
      onWriter (·.finish false)
  | .crc =>
      onReader (readerFinish true)
      onWriter (·.finish true)
  | _ => throw .failed

/-- `process_element`; its answer `false` is the error `failed`. -/
def processElement (fuel : ℕ) : RescueM Unit := do
  processLoop fuel 0
  processEnd

/-- Look at the answer of `process_element`. -/
def answered (call : RescueM Unit) : RescueM Bool := fun S =>
  match call S with
  | .ok _ S => .ok true S
  | .error .failed S => .ok false S
  | .error e S => .error e S

/-- Write `writer_ptr` .. `writer_length` to the standard output, and `writer_discart`. -/
def emit : RescueM Unit := fun S =>
  match S.writer.output with
  | some bytes => .ok () { S with output := S.output ++ bytes, writer := S.writer.discart }
  | none => .error .abort S

/-- The loop of `main`. -/
def mainLoop : ℕ → RescueM Unit
  | 0 => throw .outOfFuel
  | fuel + 1 => do
      match ← onReader readerBegin with
      | .success => do
          if ← answered (processElement (fuel + 1)) then do
            emit
            mainLoop fuel
          else return ()
      | _ => return ()

/-- The rescuer on a file: what it writes to the standard output, or how it goes wrong.
Its reader puts each payload where `base` says. -/
def rescuer (base : Bases) (file : Bytes) : Except ReadError Bytes :=
  match mainLoop (file.length + 1)
    { reader := Reader.init file base, writer := Writer.init, output := [] } with
  | .ok _ S => .ok S.output
  | .error e _ => .error e

theorem onReader_ok {α : Type} {call : ReaderM α} {S : Rescue} {a : α} {R : Reader}
    (run : call S.reader = .ok a R) : onReader call S = .ok a { S with reader := R } :=
  onPart_ok run

theorem onReader_error {α : Type} {call : ReaderM α} {S : Rescue} {e : ReadError} {R : Reader}
    (run : call S.reader = .error e R) : onReader call S = .error e { S with reader := R } :=
  onPart_error run

theorem onWriter_some {call : Writer → Option Writer} {S : Rescue} {W : Writer}
    (run : call S.writer = some W) : onWriter call S = .ok () { S with writer := W } := by
  simp only [onWriter, run]

theorem onWriter_none {call : Writer → Option Writer} {S : Rescue}
    (run : call S.writer = none) : onWriter call S = .error .abort S := by
  simp only [onWriter, run]

/-- Where one turn goes, the loop goes on. -/
theorem processLoop_ok {fuel : ℕ} {indent indent' : ℤ} {S S' : Rescue}
    (turn : processTurn indent S = .ok indent' S') :
    processLoop (fuel + 1) indent S =
      if indent' = 0 then .ok () S' else processLoop fuel indent' S' := by
  rw [processLoop, bind_ok turn]
  split <;> rfl

theorem processLoop_error {fuel : ℕ} {indent : ℤ} {S S' : Rescue} {e : ReadError}
    (turn : processTurn indent S = .error e S') :
    processLoop (fuel + 1) indent S = .error e S' := by
  rw [processLoop, bind_error turn]

/-! ## The output until the element is done -/

/-- Nothing is written to the standard output. -/
def Silent {α : Type} (x : RescueM α) : Prop := ∀ out, Preserves (fun S => S.output = out) x

variable {α β : Type}

theorem Silent.bind {x : RescueM α} {f : α → RescueM β} (first : Silent x)
    (second : ∀ a, Silent (f a)) : Silent (x >>= f) :=
  fun out => (first out).bind fun a => second a out

theorem silent_pure (a : α) : Silent (Pure.pure a : RescueM α) := fun _ => .pure a

theorem silent_throw (e : ReadError) : Silent (throw e : RescueM α) := fun _ => .throw e

theorem silent_onReader (call : ReaderM α) : Silent (onReader call) := by
  intro out S same
  unfold onReader onPart
  cases call S.reader with
  | ok a R => exact same
  | error e R => exact same

theorem silent_onWriter (call : Writer → Option Writer) : Silent (onWriter call) := by
  intro out S same
  unfold onWriter
  cases call S.writer with
  | some W => exact same
  | none => exact same

theorem silent_incrementIndent (indent : ℤ) : Silent (incrementIndent indent) :=
  fun _ => .ite (.throw _) (.pure _)

theorem silent_processTurn (indent : ℤ) : Silent (processTurn indent) := by
  refine (silent_onReader readerNext).bind fun kind => ?_
  cases kind with
  | arrayBegin =>
      exact (silent_onWriter _).bind fun _ => (silent_incrementIndent _).bind fun _ =>
        (silent_onReader _).bind fun _ => silent_pure _
  | arrayEnd =>
      exact (silent_onWriter _).bind fun _ => (silent_onReader _).bind fun _ => silent_pure _
  | string =>
      exact (silent_onReader _).bind fun _ => (silent_onWriter _).bind fun _ => silent_pure _
  | crc => exact silent_throw _
  | dot => exact silent_throw _
  | error => exact silent_throw _

theorem silent_processLoop (fuel : ℕ) (indent : ℤ) : Silent (processLoop fuel indent) := by
  induction fuel generalizing indent with
  | zero => exact silent_throw _
  | succ fuel ih =>
      refine (silent_processTurn indent).bind fun indent => ?_
      exact fun out => .ite (.pure _) (ih indent out)

theorem silent_processEnd : Silent processEnd := by
  refine (silent_onReader readerNext).bind fun kind => ?_
  cases kind with
  | dot => exact (silent_onReader _).bind fun _ => silent_onWriter _
  | crc => exact (silent_onReader _).bind fun _ => silent_onWriter _
  | arrayBegin => exact silent_throw _
  | arrayEnd => exact silent_throw _
  | string => exact silent_throw _
  | error => exact silent_throw _

/-- An element is written to the standard output only when it is done. -/
theorem silent_processElement (fuel : ℕ) : Silent (processElement fuel) :=
  (silent_processLoop fuel 0).bind fun _ => silent_processEnd

/-! ## Bytes that a turn does not survive -/

/-- The string in front of which the pointer stands is copied from outside the buffer: the
tail of its length code is not there and not checked, or its contents are not there and
the sum of the pointer and the length wraps around so that the check does not see it. -/
def HarmfulString (ptr : ℕ) (first : UInt8) (rest : Bytes) : Prop :=
  (first ≠ 0xFF ∧ rest.length < codeTail first) ∨
    (codeTail first ≤ rest.length ∧
      rest.length - codeTail first < codeLength first (rest.take (codeTail first)) ∧
      (ptr + (1 + codeTail first) + codeLength first (rest.take (codeTail first))) % 2 ^ 64 ≤
        ptr + 1 + rest.length)

/-- A turn with the pointer at the address `ptr` in front of these bytes, `level` arrays
being open, ends in undefined behaviour or in a failed assertion. -/
def Harmful (level ptr : ℕ) : Bytes → Prop
  | [] => False
  | first :: rest =>
      (first = stArrayEnd ∧ level = 0) ∨ (first = stArrayBegin ∧ level + 1 = 2 ^ 31) ∨
        (stString ≤ first.toNat ∧ HarmfulString ptr first rest)

/-- No turn on the way through the element, in a buffer at the address, is harmful. -/
def Harmless (address : ℕ) (data : Bytes) : Prop :=
  ∀ stack done ahead, data = done ++ ahead → Opens stack done →
    ¬Harmful stack.length (address + done.length) ahead

/-- The run is over without an answer. -/
def Broken (e : ReadError) : Prop := e = .fault ∨ e = .abort

/-! ## One string -/

section Strings

variable {R : Reader} {first : UInt8} {rest contents code : Bytes}

/-- Copying looks at the buffer alone. -/
theorem fetchMany_withPtr (address length ptr : ℕ) :
    fetchMany address length { R with ptr := ptr } =
      if R.begin ≤ address ∧ address + length ≤ R.limit then
        .ok ((R.data.drop (address - R.begin)).take length) { R with ptr := ptr }
      else .error .fault { R with ptr := ptr } := rfl

theorem nextKind_of_high (high : stString ≤ first.toNat) : nextKind first = .string := by
  by_contra other
  exact absurd (nextKind_ne_string other) (Nat.not_lt.mpr high)

/-- A string that is there is read. -/
theorem readContents_at (at_ : R.At (code ++ (contents ++ rest)))
    (isCode : IsCode (contents.length + stString) code) :
    readContents R = .ok contents (R.skip (code ++ contents).length) := by
  obtain ⟨first, tail, rfl, high, length, value⟩ := isCode
  rw [List.cons_append] at at_
  have bound := at_.bound
  have limit := at_.limit_eq
  simp only [List.length_cons, List.length_append] at bound limit
  have taken : (tail ++ (contents ++ rest)).take (codeTail first) = tail := by
    rw [← length, List.take_left]
  have decoded : (codeValue first ((tail ++ (contents ++ rest)).take (codeTail first)) +
      2 ^ 64 - stString) % 2 ^ 64 = contents.length := by
    rw [taken, value, stString]
    omega
  have sum : (R.ptr + (1 + codeTail first) + contents.length) % 2 ^ 64 =
      R.ptr + (1 + codeTail first) + contents.length := Nat.mod_eq_of_lt (by omega)
  have read := readString_whole at_ high (by rw [List.length_append]; omega) decoded sum
  rw [if_neg (by omega)] at read
  obtain ⟨done, data, ptr⟩ := at_.split
  have front : R.ptr + (1 + codeTail first) - R.begin = (done ++ first :: tail).length := by
    simp only [List.length_append, List.length_cons]
    omega
  have copied : (R.data.drop (R.ptr + (1 + codeTail first) - R.begin)).take contents.length =
      contents := by
    rw [front, data, show done ++ first :: (tail ++ (contents ++ rest)) =
      (done ++ first :: tail) ++ (contents ++ rest) by simp, List.drop_left, List.take_left]
  unfold readContents
  rw [bind_ok read]
  show fetchMany _ _ _ = _
  have behind : R.ptr + (1 + codeTail first) + contents.length =
      R.ptr + (first :: tail ++ contents).length := by
    rw [List.length_append, List.length_cons]
    omega
  rw [fetchMany_withPtr, if_pos (by omega), copied, behind]
  rfl

theorem readContents_harmful (at_ : R.At (first :: rest)) (high : stString ≤ first.toNat)
    (harmful : HarmfulString R.ptr first rest) : ∃ R', readContents R = .error .fault R' := by
  have limit := at_.limit_eq
  rw [List.length_cons] at limit
  unfold readContents
  rcases harmful with ⟨other, torn⟩ | ⟨whole, long, wrapped⟩
  · have read := readString_torn at_ high torn
    rw [if_neg other] at read
    exact ⟨_, bind_error read⟩
  · have read := readString_whole at_ high whole rfl rfl
    rw [← codeLength, if_neg (by omega)] at read
    have outside : ¬(R.begin ≤ R.ptr + (1 + codeTail first) ∧ R.ptr + (1 + codeTail first) +
        codeLength first (rest.take (codeTail first)) ≤ R.limit) := by omega
    rw [bind_ok read]
    exact ⟨_, (fetchMany_withPtr _ _ _).trans (if_neg outside)⟩

/-- Where it does no harm, the call reads a string or answers `false`. -/
theorem readContents_harmless (at_ : R.At (first :: rest)) (high : stString ≤ first.toNat)
    (harmless : ¬HarmfulString R.ptr first rest) :
    (∃ code contents rest', first :: rest = code ++ (contents ++ rest') ∧
      IsCode (contents.length + stString) code) ∨
    ∃ R', readContents R = .error .failed R' := by
  have limit := at_.limit_eq
  have bound := at_.bound
  rw [List.length_cons] at limit bound
  unfold HarmfulString at harmless
  rw [not_or, not_and, not_and, not_and] at harmless
  by_cases whole : codeTail first ≤ rest.length
  · have length : (rest.take (codeTail first)).length = codeTail first :=
      List.length_take_of_le whole
    have small := codeValue_lt length
    by_cases there : codeLength first (rest.take (codeTail first)) ≤ rest.length - codeTail first
    · left
      refine ⟨first :: rest.take (codeTail first),
        (rest.drop (codeTail first)).take (codeLength first (rest.take (codeTail first))),
        (rest.drop (codeTail first)).drop (codeLength first (rest.take (codeTail first))), ?_,
        first, _, rfl, high, length, ?_⟩
      · rw [List.take_append_drop, List.cons_append, List.take_append_drop]
      · have size : ((rest.drop (codeTail first)).take
            (codeLength first (rest.take (codeTail first)))).length =
            codeLength first (rest.take (codeTail first)) :=
          List.length_take_of_le (by rw [List.length_drop]; exact there)
        rw [size]
        unfold codeLength stString at *
        omega
    · right
      have read := readString_whole at_ high whole rfl rfl
      have seen := harmless.2 whole (by omega)
      rw [← codeLength, if_pos (by omega)] at read
      unfold readContents
      exact ⟨_, bind_error read⟩
  · right
    have full : first = 0xFF := by
      by_contra other
      exact harmless.1 other (by omega)
    have read := readString_torn at_ high (by omega)
    rw [if_pos full] at read
    unfold readContents
    exact ⟨_, bind_error read⟩

end Strings

/-! ## One turn -/

/-- The reader in its buffer, behind the bytes `done` and in front of `ahead`. -/
def place (base : Bases) (file done ahead : Bytes) (level : ℕ) : Reader where
  file := file
  base := base
  data := done ++ ahead
  ptr := base.address (done ++ ahead) + done.length
  depth := level

/-- The rescuer in the middle of an element of which it has written `body`. -/
structure Working (base : Bases) (file done body ahead : Bytes) (level : ℕ) (S : Rescue) :
    Prop where
  reader_eq : S.reader = place base file done ahead level
  written : S.writer.Holds [] body
  depth_eq : S.writer.depth = level
  fits : base.address (done ++ ahead) + (done ++ ahead).length + 256 ≤ 2 ^ 64
  shallow : level < 2 ^ 31

variable {base : Bases} {level : ℕ} {file done body ahead : Bytes} {S : Rescue}

theorem place_at (fits : base.address (done ++ ahead) + (done ++ ahead).length + 256 ≤ 2 ^ 64) :
    (place base file done ahead level).At ahead := ⟨fits, done, rfl, rfl⟩

/-- Taking bytes moves them behind the pointer. -/
theorem place_skip (front : Bytes) :
    (place base file done (front ++ ahead) level).skip front.length =
      place base file (done ++ front) ahead level := by
  simp only [place, Reader.skip, List.append_assoc, List.length_append, Nat.add_assoc]

namespace Working

theorem at_ (working : Working base file done body ahead level S) : S.reader.At ahead := by
  rw [working.reader_eq]
  exact place_at working.fits

/-- Moving on in an element leaves it where it is. -/
theorem fits_skip (front : Bytes) (working : Working base file done body (front ++ ahead) level S) :
    base.address (done ++ front ++ ahead) + (done ++ front ++ ahead).length + 256 ≤ 2 ^ 64 := by
  rw [List.append_assoc]
  exact working.fits

/-- `reader_next` announces the next byte. -/
theorem next {first : UInt8} {rest : Bytes}
    (working : Working base file done body (first :: rest) level S) :
    onReader readerNext S = .ok (nextKind first) S := onReader_ok (readerNext_at working.at_)

/-- At its end the element holds no token. -/
theorem next_end (working : Working base file done body [] level S) :
    onReader readerNext S = .ok .error S := onReader_ok (readerNext_end working.at_)

/-- An opening bracket. -/
theorem turn_opening {rest : Bytes}
    (working : Working base file done body (stArrayBegin :: rest) level S)
    (room : level + 1 < 2 ^ 31) :
    ∃ S', processTurn level S = .ok ((level + 1 : ℕ) : ℤ) S' ∧
      Working base file (done ++ [stArrayBegin]) (body ++ [stArrayBegin]) rest (level + 1) S' := by
  have depth := working.depth_eq
  obtain ⟨W, opened, holds, depth'⟩ := working.written.writeArray (by omega) (by omega)
  have counted : incrementIndent (level : ℤ) { S with writer := W } =
      .ok (level + 1 : ℤ) { S with writer := W } := by
    rw [incrementIndent, if_neg (by omega)]
    rfl
  have read : onReader readArray { S with writer := W } =
      .ok () { S with
        writer := W, reader := place base file (done ++ [stArrayBegin]) rest (level + 1) } := by
    apply onReader_ok
    show readArray S.reader = _
    have lower : 0 ≤ S.reader.depth := by rw [working.reader_eq]; exact Int.natCast_nonneg _
    have upper : S.reader.depth + 1 < 2 ^ 31 := by
      rw [working.reader_eq]
      show (level : ℤ) + 1 < 2 ^ 31
      omega
    rw [readArray_at working.at_ lower upper, working.reader_eq]
    have moved := @place_skip base level file done rest [stArrayBegin]
    rw [show (place base file done (stArrayBegin :: rest) level).skip 1 =
      place base file (done ++ [stArrayBegin]) rest level from moved]
    rfl
  refine ⟨{ S with
      writer := W, reader := place base file (done ++ [stArrayBegin]) rest (level + 1) },
    ?_, ⟨rfl, holds, ?_, ?_, room⟩⟩
  · unfold processTurn
    rw [bind_ok working.next]
    show (do
      onWriter Writer.writeArray
      let indent ← incrementIndent (level : ℤ)
      onReader readArray
      return indent : RescueM ℤ) S = _
    rw [bind_ok (onWriter_some opened), bind_ok counted, bind_ok read]
    rfl
  · show W.depth = _
    rw [depth', depth]
    rfl
  · exact working.fits_skip [stArrayBegin]

/-- A closing bracket. -/
theorem turn_closing {rest : Bytes}
    (working : Working base file done body (stArrayEnd :: rest) (level + 1) S) :
    ∃ S', processTurn (level + 1 : ℕ) S = .ok (level : ℤ) S' ∧
      Working base file (done ++ [stArrayEnd]) (body ++ [stArrayEnd]) rest level S' := by
  have depth := working.depth_eq
  have shallow := working.shallow
  obtain ⟨W, closed, holds, depth'⟩ := working.written.writeArrayEnd (by omega)
  have read : onReader readArrayEnd { S with writer := W } =
      .ok () { S with
        writer := W, reader := place base file (done ++ [stArrayEnd]) rest level } := by
    apply onReader_ok
    show readArrayEnd S.reader = _
    have lower : 0 < S.reader.depth := by
      rw [working.reader_eq]
      show (0 : ℤ) < (level + 1 : ℕ)
      omega
    rw [readArrayEnd_at working.at_ lower, working.reader_eq]
    have moved := @place_skip base (level + 1) file done rest [stArrayEnd]
    rw [show (place base file done (stArrayEnd :: rest) (level + 1)).skip 1 =
      place base file (done ++ [stArrayEnd]) rest (level + 1) from moved]
    simp only [place, Nat.cast_add, Nat.cast_one, add_sub_cancel_right]
  refine ⟨{ S with writer := W, reader := place base file (done ++ [stArrayEnd]) rest level },
    ?_, ⟨rfl, holds, ?_, ?_, by omega⟩⟩
  · unfold processTurn
    rw [bind_ok working.next]
    show (do
      onWriter Writer.writeArrayEnd
      onReader readArrayEnd
      return ((level + 1 : ℕ) : ℤ) - 1 : RescueM ℤ) S = _
    rw [bind_ok (onWriter_some closed), bind_ok read]
    simp only [pure_run, Nat.cast_add, Nat.cast_one, add_sub_cancel_right]
  · show W.depth = _
    omega
  · exact working.fits_skip [stArrayEnd]

/-- A string; it is written with the shortest code. -/
theorem turn_string {code contents rest : Bytes}
    (working : Working base file done body (code ++ (contents ++ rest)) level S)
    (isCode : IsCode (contents.length + stString) code) :
    ∃ S', processTurn level S = .ok (level : ℤ) S' ∧
      Working base file (done ++ (code ++ contents)) (body ++ encodeString contents) rest level
        S' := by
  have fits := working.fits
  simp only [List.length_append] at fits
  obtain ⟨W, written, holds, depth⟩ :=
    working.written.writeString (show contents.length + stString < 2 ^ 64 by
      rw [stString]; omega)
  have read : onReader readContents S = .ok contents
      { S with reader := place base file (done ++ (code ++ contents)) rest level } := by
    have moved := @place_skip base level file done rest (code ++ contents)
    rw [List.append_assoc] at moved
    rw [onReader_ok (readContents_at working.at_ isCode), working.reader_eq, moved]
  refine ⟨{ S with
      writer := W, reader := place base file (done ++ (code ++ contents)) rest level },
    ?_, ⟨rfl, holds, depth.trans working.depth_eq, ?_, working.shallow⟩⟩
  · obtain ⟨first, tail, rfl, high, -, -⟩ := isCode
    unfold processTurn
    rw [bind_ok working.next, nextKind_of_high high]
    show (do
      let contents ← onReader readContents
      onWriter (·.writeString contents)
      return (level : ℤ) : RescueM ℤ) S = _
    rw [bind_ok read, bind_ok (onWriter_some written)]
    rfl
  · rw [← List.append_assoc] at working
    exact working.fits_skip (code ++ contents)

theorem turn_harmful (working : Working base file done body ahead level S)
    (harmful : Harmful level (base.address (done ++ ahead) + done.length) ahead) :
    ∃ e S', Broken e ∧ processTurn level S = .error e S' := by
  cases ahead with
  | nil => exact harmful.elim
  | cons first rest =>
      unfold processTurn
      rw [bind_ok working.next]
      rcases harmful with ⟨rfl, outermost⟩ | ⟨rfl, deepest⟩ | ⟨high, harmful⟩
      · have refused : S.writer.writeArrayEnd = none := by
          have closed : ¬0 < S.writer.depth := by
            rw [working.depth_eq, outermost]
            decide
          simp only [Writer.writeArrayEnd, Writer.ensureSpace_depth, closed, guard_false]
          rfl
        exact ⟨.abort, S, .inr rfl, bind_error (onWriter_none refused)⟩
      · show ∃ e S', Broken e ∧ (do
          onWriter Writer.writeArray
          let indent ← incrementIndent (level : ℤ)
          onReader readArray
          return indent : RescueM ℤ) S = .error e S'
        cases opened : S.writer.writeArray with
        | none => exact ⟨.abort, S, .inr rfl, bind_error (onWriter_none opened)⟩
        | some W =>
            have overflow : incrementIndent (level : ℤ) { S with writer := W } =
                .error .fault { S with writer := W } := by
              rw [incrementIndent, if_pos (by omega)]
              rfl
            rw [bind_ok (onWriter_some opened)]
            exact ⟨.fault, _, .inl rfl, bind_error overflow⟩
      · have ptr : base.address (done ++ first :: rest) + done.length = S.reader.ptr := by
          rw [working.reader_eq]
          rfl
        rw [ptr] at harmful
        obtain ⟨R, copied⟩ := readContents_harmful working.at_ high harmful
        rw [nextKind_of_high high]
        exact ⟨.fault, _, .inl rfl, bind_error (onReader_error copied)⟩

/-- A turn that does no harm takes a token or answers `false`. -/
theorem turn_cases (working : Working base file done body ahead level S)
    (harmless : ¬Harmful level (base.address (done ++ ahead) + done.length) ahead) :
    (∃ rest, ahead = stArrayBegin :: rest ∧ level + 1 < 2 ^ 31) ∨
    (∃ rest outer, ahead = stArrayEnd :: rest ∧ level = outer + 1) ∨
    (∃ code contents rest, ahead = code ++ (contents ++ rest) ∧
      IsCode (contents.length + stString) code) ∨
    ∃ S', processTurn level S = .error .failed S' := by
  have shallow := working.shallow
  cases ahead with
  | nil =>
      refine .inr (.inr (.inr ⟨S, ?_⟩))
      unfold processTurn
      rw [bind_ok working.next_end]
      rfl
  | cons first rest =>
      unfold Harmful at harmless
      simp only [not_or, not_and] at harmless
      obtain ⟨opened, bounded, sound⟩ := harmless
      cases kind : nextKind first with
      | arrayBegin =>
          obtain rfl := nextKind_eq_arrayBegin kind
          exact .inl ⟨rest, rfl, Nat.lt_of_le_of_ne shallow (bounded rfl)⟩
      | arrayEnd =>
          obtain rfl := nextKind_eq_arrayEnd kind
          exact .inr (.inl ⟨rest, level - 1, rfl, (Nat.succ_pred (opened rfl)).symm⟩)
      | string =>
          have high := nextKind_eq_string kind
          have ptr : base.address (done ++ first :: rest) + done.length = S.reader.ptr := by
            rw [working.reader_eq]
            rfl
          have sound := sound high
          rw [ptr] at sound
          obtain there | ⟨R, failed⟩ := readContents_harmless working.at_ high sound
          · exact .inr (.inr (.inl there))
          · refine .inr (.inr (.inr ⟨{ S with reader := R }, ?_⟩))
            unfold processTurn
            rw [bind_ok working.next, kind]
            exact bind_error (onReader_error failed)
      | crc =>
          refine .inr (.inr (.inr ⟨S, ?_⟩))
          unfold processTurn
          rw [bind_ok working.next, kind]
          rfl
      | dot =>
          refine .inr (.inr (.inr ⟨S, ?_⟩))
          unfold processTurn
          rw [bind_ok working.next, kind]
          rfl
      | error =>
          refine .inr (.inr (.inr ⟨S, ?_⟩))
          unfold processTurn
          rw [bind_ok working.next, kind]
          rfl

end Working

end HybridDatabase.Storage
