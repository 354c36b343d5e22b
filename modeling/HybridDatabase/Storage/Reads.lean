/-
# Reading what was written

`Reads d m a enc` says that the reading program `m` takes exactly the bytes `enc`
off the front of whatever follows and answers `a`, when at most `d` further levels
of arrays are opened on the way.  Programs are read off piece by piece with
`Reads.bind`; the encodings of strings, numbers and arrays each get one rule, and
no later proof looks at the pointer arithmetic of the calls again.
-/

import HybridDatabase.Storage.Reader

namespace HybridDatabase.Storage

open HybridDatabase.Base

/-! ## Readers inside their buffer -/

/-- The reader stands in its buffer in front of `rest`.  The buffer does not end
in the last bytes of the address space, so a short check cannot wrap. -/
structure Reader.At (R : Reader) (rest : Bytes) : Prop where
  fits : R.begin + R.data.length + 256 ≤ 2 ^ 64
  split : ∃ done, R.data = done ++ rest ∧ R.ptr = R.begin + done.length

theorem Reader.At.skip {R : Reader} {front rest : Bytes} (h : R.At (front ++ rest)) :
    (R.skip front.length).At rest := by
  obtain ⟨done, data, ptr⟩ := h.split
  refine ⟨h.fits, done ++ front, ?_, ?_⟩
  · simp only [Reader.skip, data, List.append_assoc]
  · rw [Reader.begin_skip]
    simp only [Reader.skip, ptr, List.length_append, Nat.add_assoc]

/-- Only the buffer and the pointer matter for the position. -/
theorem Reader.At.withDepth {R : Reader} {rest : Bytes} (h : R.At rest) (depth : ℤ) :
    { R with depth := depth }.At rest := ⟨h.fits, h.split⟩

theorem Reader.At.limit_eq {R : Reader} {rest : Bytes} (h : R.At rest) :
    R.limit = R.ptr + rest.length := by
  obtain ⟨done, data, ptr⟩ := h.split
  simp only [Reader.limit, data, ptr, List.length_append, Nat.add_assoc]

/-- No pointer into the buffer is close to `2 ^ 64`. -/
theorem Reader.At.bound {R : Reader} {rest : Bytes} (h : R.At rest) :
    R.ptr + rest.length + 256 ≤ 2 ^ 64 := by
  rw [← h.limit_eq]
  exact h.fits

theorem ensureSpace_at {R : Reader} {front rest : Bytes} (h : R.At (front ++ rest)) :
    ensureSpace front.length R = .ok () R := by
  have bound := h.bound
  have limit := h.limit_eq
  simp only [List.length_append] at bound limit
  rw [ensureSpace, Nat.mod_eq_of_lt (by omega), if_neg (by omega)]

/-- A check for a few bytes more than there are fails. -/
theorem ensureSpace_short {R : Reader} {rest : Bytes} (h : R.At rest) {size : ℕ}
    (short : rest.length < size) (few : size < 256) : ensureSpace size R = .error .failed R := by
  have bound := h.bound
  have limit := h.limit_eq
  rw [ensureSpace, Nat.mod_eq_of_lt (by omega), if_pos (by omega)]

theorem advance_at {R : Reader} {front rest : Bytes} (h : R.At (front ++ rest)) :
    advance front.length R = .ok () (R.skip front.length) := by
  have bound := h.bound
  simp only [List.length_append] at bound
  simp only [advance, modify_run, Reader.skip]
  rw [Nat.mod_eq_of_lt (by omega)]

theorem byteAt_at {R : Reader} {rest : Bytes} (h : R.At rest) (i : ℕ) :
    R.byteAt (R.ptr + i) = rest[i]? := by
  obtain ⟨done, data, ptr⟩ := h.split
  have inside : R.begin ≤ R.ptr + i := by omega
  have offset : R.ptr + i - R.begin = done.length + i := by omega
  rw [Reader.byteAt, if_pos inside, offset, data, List.getElem?_append_right (Nat.le_add_right _ _),
    Nat.add_sub_cancel_left]

theorem fetch_at {R : Reader} {byte : UInt8} {rest : Bytes} (h : R.At (byte :: rest)) :
    fetch R.ptr R = .ok byte R := by
  have here : R.byteAt R.ptr = some byte := byteAt_at h 0
  simp only [fetch, here]

theorem fetchMany_at {R : Reader} {front rest : Bytes} (h : R.At (front ++ rest)) :
    fetchMany R.ptr front.length R = .ok front R := by
  obtain ⟨done, data, ptr⟩ := h.split
  have limit := h.limit_eq
  simp only [List.length_append] at limit
  have offset : R.ptr - R.begin = done.length := by omega
  rw [fetchMany, if_pos (by omega), offset, data, List.drop_left, List.take_left]

theorem takeByte_at {R : Reader} {byte : UInt8} {rest : Bytes} (h : R.At (byte :: rest)) :
    takeByte R = .ok byte (R.skip 1) := by
  have step : advance 1 R = .ok () (R.skip 1) := 
    advance_at (show R.At ([byte] ++ rest) from h)
  unfold takeByte
  rw [bind_ok (get_run R), bind_ok (fetch_at h), bind_ok step]
  rfl

theorem takeMany_at {R : Reader} {front rest : Bytes} (h : R.At (front ++ rest)) :
    takeMany front.length R = .ok front (R.skip front.length) := by
  unfold takeMany
  rw [bind_ok (get_run R), bind_ok (fetchMany_at h), bind_ok (advance_at h)]
  rfl

/-- What `reader_next` announces in front of a byte. -/
def nextKind (byte : UInt8) : Next :=
  if byte = stArrayBegin then .arrayBegin
  else if byte = stArrayEnd then .arrayEnd
  else if byte = stCrc then .crc
  else if byte = stDot then .dot
  else if stString ≤ byte.toNat then .string else .error

theorem readerNext_at {R : Reader} {byte : UInt8} {rest : Bytes} (h : R.At (byte :: rest)) :
    readerNext R = .ok (nextKind byte) R := by
  have limit := h.limit_eq
  simp only [List.length_cons] at limit
  unfold readerNext
  rw [bind_ok (get_run R), if_neg (by omega), bind_ok (fetch_at h)]
  rfl

/-- Nothing is announced at the end of the element. -/
theorem readerNext_end {R : Reader} (h : R.At []) : readerNext R = .ok .error R := by
  have limit := h.limit_eq
  rw [List.length_nil, Nat.add_zero] at limit
  unfold readerNext
  rw [bind_ok (get_run R), if_pos limit.le]
  rfl

/-! ## The rules -/

/-- `m` reads `enc` as `a`, opening at most `d` levels of arrays. -/
def Reads {α : Type} (d : ℕ) (m : ReaderM α) (a : α) (enc : Bytes) : Prop :=
  ∀ (R : Reader) (rest : Bytes), R.At (enc ++ rest) → 0 ≤ R.depth → R.depth + d < 2 ^ 31 →
    m R = .ok a (R.skip enc.length)

namespace Reads

variable {α β : Type} {d d' : ℕ} {a : α} {b : β} {enc enc' : Bytes}

theorem pure (d : ℕ) (a : α) : Reads d (Pure.pure a) a [] := fun _ _ _ _ _ => rfl

theorem mono {m : ReaderM α} (h : Reads d m a enc) (le : d ≤ d') : Reads d' m a enc :=
  fun R rest at_ lower upper => h R rest at_ lower (by omega)

/-- Two programs in a row read two encodings in a row. -/
theorem bind {m : ReaderM α} {f : α → ReaderM β} (first : Reads d m a enc)
    (second : Reads d (f a) b enc') : Reads d (m >>= f) b (enc ++ enc') := by
  intro R rest at_ lower upper
  rw [List.append_assoc] at at_
  rw [bind_ok (first R _ at_ lower upper),
    second (R.skip enc.length) rest at_.skip lower upper, Reader.skip_skip, List.length_append]

theorem seq {m : ReaderM Unit} {m' : ReaderM β} (first : Reads d m () enc)
    (second : Reads d m' b enc') : Reads d (do m; m') b (enc ++ enc') := first.bind second

/-- A test that succeeds reads nothing. -/
theorem check {cond : Bool} (h : cond = true) (d : ℕ) : Reads d (check cond) () [] := by
  intro R rest _ _ _
  simp only [Storage.check, h, if_true, pure_run, List.length_nil, Reader.skip_zero]

theorem ensureSpace (bytes : Bytes) {m : ReaderM α}
    (h : Reads d m a (bytes ++ enc)) :
    Reads d (do Storage.ensureSpace bytes.length; m) a (bytes ++ enc) := by
  intro R rest at_ lower upper
  have room : Storage.ensureSpace bytes.length R = .ok () R := by
    rw [List.append_assoc] at at_
    exact ensureSpace_at at_
  rw [bind_ok room]
  exact h R rest at_ lower upper

theorem takeByte (byte : UInt8) (d : ℕ) : Reads d takeByte byte [byte] :=
  fun _ _ at_ _ _ => takeByte_at at_

/-- Reading a known number of bytes through the pointer. -/
theorem takeMany (bytes : Bytes) (d : ℕ) :
    Reads d (Storage.takeMany bytes.length) bytes bytes :=
  fun _ _ at_ _ _ => takeMany_at at_

/-- `reader_next` announces the first byte of what follows. -/
theorem next {byte : UInt8} {tail : Bytes} {f : Next → ReaderM α}
    (h : Reads d (f (nextKind byte)) a (byte :: tail)) :
    Reads d (readerNext >>= f) a (byte :: tail) := by
  intro R rest at_ lower upper
  rw [bind_ok (readerNext_at at_)]
  exact h R rest at_ lower upper

/-- An answer computed at the end reads nothing more. -/
theorem answer {m : ReaderM α} (h : Reads d m a enc) (f : α → β) :
    Reads d (do let got ← m; Pure.pure (f got)) (f a) enc := by
  have both := h.bind (f := fun got => Pure.pure (f got)) (Reads.pure d (f a))
  rwa [List.append_nil] at both

end Reads

/-! ## Strings and numbers -/

/-- The encoding of a string. -/
def encodeString (contents : Bytes) : Bytes :=
  writeNumberCode (contents.length + stString) ++ contents

/-- The encoding of a number. -/
def encodeNumber (number : ℕ) : Bytes :=
  UInt8.ofNat (stString + (numberBytes number).length) :: numberBytes number

/-- A number is written as the string of its digits. -/
theorem encodeNumber_eq (number : ℕ) : encodeNumber number = encodeString (numberBytes number) := by
  have short := length_numberBytes number
  have code : writeNumberCode ((numberBytes number).length + stString) =
      [UInt8.ofNat ((numberBytes number).length + stString)] := by
    rw [writeNumberCode, if_pos (by simp only [stString]; omega)]
  rw [encodeNumber, encodeString, code, Nat.add_comm]
  rfl

/-- The contents of a string, as the callers of `read_string` copy them out. -/
def readContents : ReaderM Bytes := do
  let (address, length) ← readString
  fetchMany address length

theorem length_encodeString_pos (contents : Bytes)
    (fits : contents.length + stString < 2 ^ 64) : 0 < (encodeString contents).length := by
  obtain ⟨first, tail, code, -⟩ := writeNumberCode_spec _ fits
  simp [encodeString, code]

/-- A string encoding in a buffer is short enough for its length to be encoded. -/
theorem string_fits {R : Reader} {contents rest : Bytes}
    (h : R.At (encodeString contents ++ rest)) : contents.length + stString < 2 ^ 64 := by
  have bound := h.bound
  simp only [encodeString, List.length_append] at bound
  simp only [stString]
  omega

/-- The first byte of a string encoding announces a string. -/
theorem nextKind_encodeString {contents : Bytes} (fits : contents.length + stString < 2 ^ 64) :
    ∃ byte tail, encodeString contents = byte :: tail ∧ nextKind byte = .string := by
  obtain ⟨first, tail, code, -, -, -, high⟩ := writeNumberCode_spec _ fits
  have large : stString ≤ first.toNat := high (Nat.le_add_left _ _)
  have other (mark : UInt8) (small : mark.toNat < 16) : first ≠ mark := by
    rintro rfl
    simp only [stString] at large
    omega
  refine ⟨first, tail ++ contents, by simp [encodeString, code], ?_⟩
  simp only [nextKind, other stArrayBegin (by decide), other stArrayEnd (by decide),
    other stCrc (by decide), other stDot (by decide), large, if_false, if_true]

/-- The length code is read back by the decoding part of `read_string`. -/
theorem reads_readCode {n : ℕ} (low : stString ≤ n) (fits : n < 2 ^ 64) (d : ℕ) :
    Reads d readCode n (writeNumberCode n) := by
  obtain ⟨first, tail, code, tailLength, -, value, high⟩ := writeNumberCode_spec n fits
  rw [code]
  show Reads d readCode n ([first] ++ tail)
  refine Reads.ensureSpace [first] (Reads.bind (Reads.takeByte first d) ?_)
  show Reads d _ n ([] ++ tail)
  apply Reads.bind (Reads.check (by simpa using high low) d)
  by_cases short : first < 0x80
  · have none : tail = [] := by
      have : tail.length = 0 := by simpa [codeTail, short] using tailLength
      exact List.eq_nil_of_length_eq_zero this
    have same : first.toNat = n := by simpa [codeValue, short] using value
    rw [if_pos short, none, same]
    exact Reads.pure d n
  · have decoded : Reads d (do let got ← takeMany (codeTail first); pure (codeValue first got)) n
        tail := by
      rw [← value, ← tailLength]
      exact (Reads.takeMany tail d).answer (codeValue first)
    rw [if_neg short, ensureTail]
    by_cases full : first = 0xFF
    · have eight : tail.length = 8 := by simpa [codeTail, full] using tailLength
      have ensured := Reads.ensureSpace tail
        (show Reads d _ n (tail ++ []) by simpa using decoded)
      rw [eight, List.append_nil] at ensured
      rw [if_pos full]
      exact ensured
    · rw [if_neg full]
      exact decoded

/-- What a string call leaves behind to copy from. -/
theorem readString_at {R : Reader} {contents rest : Bytes} (at_ : R.At (encodeString contents ++ rest))
    (lower : 0 ≤ R.depth) (upper : R.depth < 2 ^ 31) :
    ∃ address, readString R = .ok (address, contents.length) (R.skip (encodeString contents).length) ∧
      fetchMany address contents.length (R.skip (encodeString contents).length) =
        .ok contents (R.skip (encodeString contents).length) := by
  have fits := string_fits at_
  set code := writeNumberCode (contents.length + stString) with hcode
  have length : (encodeString contents).length = code.length + contents.length := by
    simp only [encodeString, List.length_append, hcode]
  have read : readCode R = .ok (contents.length + stString) (R.skip code.length) :=
    reads_readCode (Nat.le_add_left _ _) fits 0 R (contents ++ rest)
      (by rwa [encodeString, List.append_assoc] at at_) lower (by simpa using upper)
  have after : (R.skip code.length).At (contents ++ rest) := by
    rw [encodeString, List.append_assoc] at at_
    exact at_.skip
  have same : (contents.length + stString + 2 ^ 64 - stString) % 2 ^ 64 = contents.length := by
    simp only [stString] at fits ⊢
    omega
  refine ⟨(R.skip code.length).ptr, ?_, ?_⟩
  · unfold readString
    rw [bind_ok read]
    simp only [same]
    rw [bind_ok (ensureSpace_at after), bind_ok (get_run _), bind_ok (advance_at after), length,
      Reader.skip_skip]
    rfl
  · -- copying looks at the buffer alone, so it does not matter where the pointer stands
    have copy := fetchMany_at after
    unfold fetchMany at copy ⊢
    have inside : (R.skip code.length).begin ≤ (R.skip code.length).ptr ∧
        (R.skip code.length).ptr + contents.length ≤ (R.skip code.length).limit := by
      by_contra outside
      rw [if_neg outside] at copy
      cases copy
    rw [if_pos inside] at copy
    have same : ((R.skip code.length).data.drop
        ((R.skip code.length).ptr - (R.skip code.length).begin)).take contents.length = contents := by
      injection copy
    rw [if_pos (by exact inside)]
    exact congrArg (fun bytes => EStateM.Result.ok bytes _) same

/-- A written string is read back whole. -/
theorem reads_readContents (contents : Bytes) (d : ℕ) :
    Reads d readContents contents (encodeString contents) := by
  intro R rest at_ lower upper
  obtain ⟨address, read, copy⟩ := readString_at at_ lower (by omega)
  unfold readContents
  rw [bind_ok read]
  exact copy

/-- A string of at most eight bytes is read as the number of these digits. -/
theorem reads_digits {digits : Bytes} (short : digits.length ≤ 8) (d : ℕ) :
    Reads d readNumber (shiftIn 0 digits) (encodeString digits) := by
  obtain ⟨first, hfirst⟩ : ∃ first : UInt8, first = UInt8.ofNat (digits.length + stString) := ⟨_, rfl⟩
  have code : encodeString digits = [first] ++ digits := by
    rw [encodeString, writeNumberCode, if_pos (by simp only [stString]; omega), hfirst]
  have low : first.toNat = stString + digits.length := by
    rw [hfirst, UInt8.toNat_ofNat']
    simp only [stString]
    omega
  rw [code]
  refine Reads.ensureSpace [first] (Reads.bind (Reads.takeByte first d) ?_)
  show Reads d _ (shiftIn 0 digits) ([] ++ digits)
  apply Reads.bind (Reads.check (by simp [low, short]) d)
  have length : first.toNat - stString = digits.length := by omega
  have decoded := (Reads.takeMany digits d).answer (shiftIn 0)
  have ensured := Reads.ensureSpace digits
    (show Reads d _ (shiftIn 0 digits) (digits ++ []) by simpa using decoded)
  rw [List.append_nil] at ensured
  simp only [length]
  exact ensured

/-- A written number is read back. -/
theorem reads_readNumber {number : ℕ} (fits : number < 2 ^ 64) (d : ℕ) :
    Reads d readNumber number (encodeNumber number) := by
  have value : shiftIn 0 (numberBytes number) = number :=
    shiftIn_numberDigits (by norm_num at fits ⊢; exact fits)
  have read := reads_digits (length_numberBytes number) d
  rwa [value, ← encodeNumber_eq] at read

/-- A longer string is not a number. -/
theorem readNumber_long {R : Reader} {contents rest : Bytes}
    (at_ : R.At (encodeString contents ++ rest)) (long : 8 < contents.length) :
    readNumber R = .error .failed (R.skip 1) := by
  obtain ⟨first, tail, code, -, -, value, high⟩ := writeNumberCode_spec _ (string_fits at_)
  rw [encodeString, code] at at_
  have room : ensureSpace 1 R = .ok () R :=
    ensureSpace_at (show R.At ([first] ++ (tail ++ contents ++ rest)) from at_)
  have large : stString + 8 < first.toNat := by
    by_cases short : first < 0x80
    · rw [codeValue, if_pos short] at value
      omega
    · have above : UInt8.toNat 0x80 ≤ first.toNat :=
        UInt8.le_iff_toNat_le.mp (UInt8.not_lt.mp short)
      have bound : UInt8.toNat 0x80 = 128 := rfl
      simp only [stString]
      omega
  have refused : check (stString ≤ first.toNat && first.toNat ≤ stString + 8) (R.skip 1) =
      .error .failed (R.skip 1) := by
    have : decide (first.toNat ≤ stString + 8) = false := decide_eq_false (by omega)
    simp [check, this]
  unfold readNumber
  rw [bind_ok room, bind_ok (takeByte_at at_), bind_error refused]

/-! ## Arrays -/

/-- The brackets around the encoded items of an array. -/
def encodeArray (items : Bytes) : Bytes := stArrayBegin :: (items ++ [stArrayEnd])

theorem readArray_at {R : Reader} {rest : Bytes} (at_ : R.At (stArrayBegin :: rest))
    (lower : 0 ≤ R.depth) (upper : R.depth + 1 < 2 ^ 31) :
    readArray R = .ok () { R.skip 1 with depth := R.depth + 1 } := by
  have room : ensureSpace 1 R = .ok () R := 
    ensureSpace_at (show R.At ([stArrayBegin] ++ rest) from at_)
  have byte : takeByte { R with depth := R.depth + 1 } =
      .ok stArrayBegin { R.skip 1 with depth := R.depth + 1 } := takeByte_at (at_.withDepth _)
  unfold readArray
  rw [bind_ok room, bind_ok (modify_run _ _), toInt_of_lt (by omega) upper, bind_ok byte]
  rfl

theorem readArrayEnd_at {R : Reader} {rest : Bytes} (at_ : R.At (stArrayEnd :: rest))
    (lower : 0 < R.depth) :
    readArrayEnd R = .ok () { R.skip 1 with depth := R.depth - 1 } := by
  have room : ensureSpace 1 R = .ok () R := 
    ensureSpace_at (show R.At ([stArrayEnd] ++ rest) from at_)
  have positive : assertion (0 < R.depth) R = .ok () R := by
    simp only [assertion, lower, decide_true, if_true, pure_run]
  have byte : takeByte { R with depth := R.depth - 1 } =
      .ok stArrayEnd { R.skip 1 with depth := R.depth - 1 } := takeByte_at (at_.withDepth _)
  unfold readArrayEnd
  rw [bind_ok room, bind_ok (get_run R), bind_ok positive, bind_ok (modify_run _ _), bind_ok byte]
  rfl

/-- `m` reads the items `enc` of an array as `a`; it may look at the bracket that
ends the array, but does not take it. -/
def ReadsItems {α : Type} (d : ℕ) (m : ReaderM α) (a : α) (enc : Bytes) : Prop :=
  ∀ (R : Reader) (rest : Bytes), R.At (enc ++ stArrayEnd :: rest) → 0 ≤ R.depth →
    R.depth + d < 2 ^ 31 → m R = .ok a (R.skip enc.length)

theorem Reads.items {α : Type} {d : ℕ} {m : ReaderM α} {a : α} {enc : Bytes}
    (h : Reads d m a enc) : ReadsItems d m a enc :=
  fun R rest at_ lower upper => h R (stArrayEnd :: rest) at_ lower upper

namespace ReadsItems

variable {α β : Type} {d : ℕ} {a : α} {b : β} {enc enc' : Bytes}

/-- The first item, then the others. -/
theorem bind {m : ReaderM α} {f : α → ReaderM β} (first : Reads d m a enc)
    (others : ReadsItems d (f a) b enc') : ReadsItems d (m >>= f) b (enc ++ enc') := by
  intro R rest at_ lower upper
  rw [List.append_assoc] at at_
  rw [bind_ok (first R _ at_ lower upper),
    others (R.skip enc.length) rest at_.skip lower upper, Reader.skip_skip, List.length_append]

/-- An answer computed at the end reads nothing more. -/
theorem answer {m : ReaderM α} (h : ReadsItems d m a enc) (f : α → β) :
    ReadsItems d (do let got ← m; Pure.pure (f got)) (f a) enc := by
  intro R rest at_ lower upper
  rw [bind_ok (h R rest at_ lower upper)]
  rfl

theorem next {byte : UInt8} {tail : Bytes} {f : Next → ReaderM α}
    (h : ReadsItems d (f (nextKind byte)) a (byte :: tail)) :
    ReadsItems d (readerNext >>= f) a (byte :: tail) := by
  intro R rest at_ lower upper
  rw [bind_ok (readerNext_at at_)]
  exact h R rest at_ lower upper

/-- Behind the last item `reader_next` announces the end of the array. -/
theorem nextEnd {f : Next → ReaderM α} (h : ReadsItems d (f .arrayEnd) a []) :
    ReadsItems d (readerNext >>= f) a [] := by
  intro R rest at_ lower upper
  have announced : readerNext R = .ok .arrayEnd R := readerNext_at at_
  rw [bind_ok announced]
  exact h R rest at_ lower upper

end ReadsItems

/-- A program between the two brackets reads the items between them. -/
theorem Reads.array {α : Type} {d : ℕ} {m : ReaderM α} {a : α} {items : Bytes}
    (h : ReadsItems d m a items) :
    Reads (d + 1) (do readArray; let got ← m; readArrayEnd; Pure.pure got) a
      (encodeArray items) := by
  intro R rest at_ lower upper
  push_cast at upper
  have start : R.At (stArrayBegin :: (items ++ stArrayEnd :: rest)) := by
    simpa [encodeArray] using at_
  have opened := readArray_at start lower (by omega)
  set inner : Reader := { R.skip 1 with depth := R.depth + 1 } with hinner
  have inside : inner.At (items ++ stArrayEnd :: rest) :=
    (Reader.At.skip (show R.At ([stArrayBegin] ++ _) from start)).withDepth _
  have read := h inner rest inside (by show 0 ≤ R.depth + 1; omega)
    (by show R.depth + 1 + d < 2 ^ 31; omega)
  have closed := readArrayEnd_at (R := inner.skip items.length) inside.skip
    (by show 0 < R.depth + 1; omega)
  have same : { (inner.skip items.length).skip 1 with
      depth := (inner.skip items.length).depth - 1 } = R.skip (encodeArray items).length := by
    simp only [hinner, Reader.skip, encodeArray, List.length_cons, List.length_append,
      List.length_nil, Reader.mk.injEq, true_and]
    constructor <;> omega
  rw [bind_ok opened, bind_ok read, bind_ok closed, same]
  rfl

end HybridDatabase.Storage
