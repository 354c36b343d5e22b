/-
# The reader of root elements

`reader_begin` loads the payload of one root element into a buffer; the other
calls walk a pointer over it.  Pointers are 64-bit addresses and every sum of
them is taken modulo `2 ^ 64`, as the hardware takes it, so that a check such as
`R->ptr + size > R->end` can be fooled by a wrapped sum exactly as in the source.

A call ends in one of five ways: it succeeds; it returns `false` (`failed`); it
reads a byte outside the buffer (`fault`); it fails an assertion (`abort`); or a
loop of the model runs out of fuel (`outOfFuel`), which stands for a run that is
still going.
-/

import HybridDatabase.Base.StateError
import HybridDatabase.Storage.Crc
import HybridDatabase.Storage.Writer

namespace HybridDatabase.Storage

open HybridDatabase.Base

/-- The ways a reading call can fail to succeed. -/
inductive ReadError
  | failed
  | fault
  | abort
  | outOfFuel
  deriving DecidableEq, Repr

/-- The values of the `ST_READ_*` constants. -/
inductive ReadStatus
  | fail
  | success
  | endOfFile
  deriving DecidableEq, Repr

/-- The kinds announced by `reader_next`. -/
inductive Next
  | arrayBegin
  | arrayEnd
  | crc
  | dot
  | string
  | error
  deriving DecidableEq, Repr

/-- Where `xmalloc` puts the buffers of the payloads.  None of them begins above `top`. -/
structure Bases where
  address : Bytes → ℕ
  top : ℕ
  address_le : ∀ data, address data ≤ top

/-- All buffers at one address. -/
instance (address : ℕ) : OfNat Bases address := ⟨⟨fun _ => address, address, fun _ => le_rfl⟩⟩

@[simp]
theorem Bases.top_ofNat (address : ℕ) :
    (no_index (OfNat.ofNat address) : Bases).top = OfNat.ofNat address := rfl

/-- A reader.  `file` is what `fread` has not returned yet, `base` says where the buffers are,
`data` are the bytes of the buffer up to `R->end`, and `ptr` is an address. -/
structure Reader where
  file : Bytes
  base : Bases
  data : Bytes
  ptr : ℕ
  depth : ℤ

/-- Reading calls act on a reader. -/
abbrev ReaderM := EStateM ReadError Reader

namespace Reader

/-- `R->begin`. -/
def begin (R : Reader) : ℕ := R.base.address R.data

/-- `R->end`. -/
def limit (R : Reader) : ℕ := R.begin + R.data.length

/-- A reader of a file of which nothing has been read. -/
def init (file : Bytes) (base : Bases) : Reader where
  file := file
  base := base
  data := []
  ptr := base.address []
  depth := 0

/-- The reader after `n` more bytes. -/
def skip (R : Reader) (n : ℕ) : Reader := { R with ptr := R.ptr + n }

@[simp]
theorem skip_skip (R : Reader) (m n : ℕ) : (R.skip m).skip n = R.skip (m + n) := by
  simp only [skip, Nat.add_assoc]

@[simp]
theorem skip_zero (R : Reader) : R.skip 0 = R := rfl

@[simp]
theorem begin_skip (R : Reader) (n : ℕ) : (R.skip n).begin = R.begin := rfl

end Reader

/-! ## Steps shared by the calls -/

/-- The byte at an address of the buffer. -/
def Reader.byteAt (R : Reader) (address : ℕ) : Option UInt8 :=
  if R.begin ≤ address then R.data[address - R.begin]? else none

/-- Read the byte at an address. -/
def fetch (address : ℕ) : ReaderM UInt8 := fun R =>
  match R.byteAt address with
  | some byte => .ok byte R
  | none => .error .fault R

/-- Read the bytes at `address`, `address + 1`, …, all of them inside the buffer. -/
def fetchMany (address length : ℕ) : ReaderM Bytes := fun R =>
  if R.begin ≤ address ∧ address + length ≤ R.limit then
    .ok ((R.data.drop (address - R.begin)).take length) R
  else .error .fault R

/-- `_reader_ensure_space`. -/
def ensureSpace (size : ℕ) : ReaderM Unit := fun R =>
  if R.limit < (R.ptr + size) % 2 ^ 64 then .error .failed R else .ok () R

/-- `R->ptr += n`. -/
def advance (n : ℕ) : ReaderM Unit := modify fun R => { R with ptr := (R.ptr + n) % 2 ^ 64 }

/-- `*R->ptr++`. -/
def takeByte : ReaderM UInt8 := do
  let R ← get
  let byte ← fetch R.ptr
  advance 1
  return byte

/-- Read `length` bytes at the pointer and move it behind them. -/
def takeMany (length : ℕ) : ReaderM Bytes := do
  let R ← get
  let bytes ← fetchMany R.ptr length
  advance length
  return bytes

/-- `return cond`. -/
def check (cond : Bool) : ReaderM Unit := if cond then pure () else throw .failed

/-- `assert(cond)`. -/
def assertion (cond : Bool) : ReaderM Unit := if cond then pure () else throw .abort

/-! ## The calls -/

/-- `reader_next`. -/
def readerNext : ReaderM Next := do
  let R ← get
  if R.limit ≤ R.ptr then return .error
  else do
    let byte ← fetch R.ptr
    return if byte = stArrayBegin then .arrayBegin
      else if byte = stArrayEnd then .arrayEnd
      else if byte = stCrc then .crc
      else if byte = stDot then .dot
      else if stString ≤ byte.toNat then .string else .error

/-- `read_array`. -/
def readArray : ReaderM Unit := do
  ensureSpace 1
  modify fun R => { R with depth := toInt (R.depth + 1) }
  let byte ← takeByte
  check (byte = stArrayBegin)

/-- `read_array_end`. -/
def readArrayEnd : ReaderM Unit := do
  ensureSpace 1
  let R ← get
  assertion (0 < R.depth)
  modify fun R => { R with depth := R.depth - 1 }
  let byte ← takeByte
  check (byte = stArrayEnd)

/-- The check in front of the tail of a length code: only the full form has one. -/
def ensureTail (first : UInt8) : ReaderM Unit :=
  if first = 0xFF then ensureSpace 8 else pure ()

/-- The part of `read_string` that decodes the length, before `ST_STRING` is
subtracted. -/
def readCode : ReaderM ℕ := do
  ensureSpace 1
  let first ← takeByte
  check (stString ≤ first.toNat)
  if first < 0x80 then return first.toNat
  else do
    ensureTail first
    let tail ← takeMany (codeTail first)
    return codeValue first tail

/-- `read_string`: the address and the length of the contents. -/
def readString : ReaderM (ℕ × ℕ) := do
  let code ← readCode
  let length := (code + 2 ^ 64 - stString) % 2 ^ 64
  ensureSpace length
  let R ← get
  advance length
  return (R.ptr, length)

/-- `read_number`. -/
def readNumber : ReaderM ℕ := do
  ensureSpace 1
  let first ← takeByte
  check (stString ≤ first.toNat && first.toNat ≤ stString + 8)
  let length := first.toNat - stString
  ensureSpace length
  let digits ← takeMany length
  return shiftIn 0 digits

/-- `reader_finish`.  The checksum covers `[R->begin, R->ptr)`. -/
def readerFinish (checksum : Bool) : ReaderM Unit := do
  let R ← get
  assertion (R.depth = 0)
  ensureSpace 1
  let mark ← fetch R.ptr
  if mark = stCrc then do
    ensureSpace 6
    let payload ← fetchMany R.begin (R.ptr - R.begin)
    let orig ← fetchMany (R.ptr + 1) 4
    advance 6
    let dot ← fetch (R.ptr + 5)
    let R ← get
    check (R.ptr = R.limit && dot = stDot && (crc32c payload 0).toNat = shiftIn 0 orig)
  else do
    advance 1
    let R ← get
    check (R.ptr = R.limit && mark = stDot && !checksum)

/-- The loop of `reader_skip`; `depth` is its local counter. -/
def readerSkipLoop : ℕ → ℤ → ReaderM Unit
  | 0, _ => throw .outOfFuel
  | fuel + 1, depth => do
      match ← readerNext with
      | .arrayBegin =>
          readArray
          readerSkipLoop fuel (toInt (depth + 1))
      | .string =>
          let _ ← readString
          readerSkipLoop fuel depth
      | .arrayEnd =>
          if depth = 0 then return ()
          else do
            readArrayEnd
            readerSkipLoop fuel (toInt (depth - 1))
      | _ => throw .failed

/-- `reader_skip`. -/
def readerSkip (fuel : ℕ) : ReaderM Unit := readerSkipLoop fuel 0

/-! ## Root elements -/

/-- `file_reader_read`: ask `fread` for `length` bytes. -/
def fileReaderRead (length : ℕ) : ReaderM (ReadStatus × Bytes) := fun R =>
  let got := R.file.take length
  let status :=
    if got.length = length then ReadStatus.success
    else if got.length = 0 then .endOfFile
    else .fail
  .ok (status, got) { R with file := R.file.drop length }

/-- `read_header`: the length in a frame header. -/
def readHeader (header : Bytes) : Option ℕ :=
  if header[0]? = some stLenBegin ∧ header[9]? = some stLenEnd then
    some (shiftIn 0 ((header.drop 1).take 8))
  else none

/-- `reader_begin`. -/
def readerBegin : ReaderM ReadStatus := do
  let (status, header) ← fileReaderRead 10
  match status with
  | .success =>
      match readHeader header with
      | none => return .fail
      | some length =>
          let (status, data) ← fileReaderRead length
          if status = .success then do
            modify fun R => { R with data := data, ptr := R.base.address data, depth := 0 }
            return .success
          else return .fail
  | other => return other

end HybridDatabase.Storage
