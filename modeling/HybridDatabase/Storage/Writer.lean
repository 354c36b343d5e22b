/-
# The buffer of a `Writer`

A `Writer` collects root elements in one growing block of memory.  The block
keeps ten bytes free in front of the element being written, because the frame
header with the length can be filled in only when the element is finished.

The operations below work on the block as the source does: they reserve space by
worst-case constants, store through a pointer and patch the header backwards.  An
operation answers `none` where the source would store outside the block or fail
an assertion.  `Holds` is the list view of the block; one lemma for each
operation says what it does to that view and that it does not go wrong.
-/

import HybridDatabase.Storage.Crc

namespace HybridDatabase.Storage

/-- The result of `int` arithmetic, which wraps at 32 bits. -/
def toInt (x : ℤ) : ℤ := x.bmod (2 ^ 32)

theorem toInt_of_lt {x : ℤ} (lower : 0 ≤ x) (upper : x < 2 ^ 31) : toInt x = x := by
  unfold toInt
  rw [Int.bmod_eq_of_le] <;> omega

/-- A writer.  `buf` is the block `[real_begin, end)`; `begin` and `ptr` are
offsets from `real_begin`. -/
structure Writer where
  buf : Bytes
  begin : ℕ
  ptr : ℕ
  depth : ℤ
  deriving DecidableEq, Repr

namespace Writer

/-- A fresh writer.  The contents of fresh memory are shown as zeros; `Holds`
does not depend on them. -/
def init : Writer where
  buf := List.replicate (4000 + 10) 0
  begin := 10
  ptr := 10
  depth := 0

/-- `_writer_get_space`: enlarge the block by `size`, or by half if that is more. -/
def getSpace (W : Writer) (size : ℕ) : Writer :=
  let curSize := W.buf.length
  let newSize := curSize + size
  let newSize := if newSize < curSize * 3 / 2 then curSize * 3 / 2 else newSize
  { W with buf := W.buf ++ List.replicate (newSize - curSize) 0 }

/-- `_writer_ensure_space`. -/
def ensureSpace (W : Writer) (size : ℕ) : Writer :=
  if W.buf.length < W.ptr + size then W.getSpace (W.ptr + size - W.buf.length) else W

/-- Store `bytes` through `W->ptr`. -/
def store (W : Writer) (bytes : Bytes) : Option Writer :=
  if W.ptr + bytes.length ≤ W.buf.length then
    some { W with
      buf := W.buf.take W.ptr ++ bytes ++ W.buf.drop (W.ptr + bytes.length)
      ptr := W.ptr + bytes.length }
  else none

/-- `write_array`. -/
def writeArray (W : Writer) : Option Writer := do
  let W ← (W.ensureSpace 1).store [stArrayBegin]
  return { W with depth := toInt (W.depth + 1) }

/-- `write_array_end`. -/
def writeArrayEnd (W : Writer) : Option Writer := do
  let W := W.ensureSpace 1
  guard (0 < W.depth)
  { W with depth := W.depth - 1 }.store [stArrayEnd]

/-- `write_string`.  The caller fills the returned buffer before any other call
on the writer, so the contents are stored here. -/
def writeString (W : Writer) (contents : Bytes) : Option Writer := do
  let W := W.ensureSpace (contents.length + 9)
  let W ← W.store
    (if contents.length + stString < 128 then [UInt8.ofNat (contents.length + stString)]
      else writeNumberCode (contents.length + stString))
  W.store contents

/-- `write_number`.  The first byte is filled in last, when the number of digits
is known. -/
def writeNumber (W : Writer) (number : ℕ) : Option Writer :=
  (W.ensureSpace 9).store
    (UInt8.ofNat (stString + (numberBytes number).length) :: numberBytes number)

/-- The frame header in front of a root element of the given length. -/
def frameHeader (length : ℕ) : Bytes := stLenBegin :: leBytes 8 length ++ [stLenEnd]

@[simp]
theorem length_frameHeader (length : ℕ) : (frameHeader length).length = 10 := by
  simp [frameHeader]

/-- The trailer of a root element with the given payload. -/
def trailer (payload : Bytes) (checksum : Bool) : Bytes :=
  if checksum then stCrc :: crcBytes (crc32c payload 0) ++ [stDot] else [stDot]

theorem length_trailer_le (payload : Bytes) (checksum : Bool) :
    (trailer payload checksum).length ≤ 6 := by
  cases checksum <;> simp [trailer]

/-- `writer_finish`. -/
def finish (W : Writer) (checksum : Bool) : Option Writer := do
  guard (W.depth = 0)
  let W := W.ensureSpace 16
  let W ← W.store (trailer ((W.buf.take W.ptr).drop W.begin) checksum)
  guard (10 ≤ W.begin)
  let W := { W with
    buf := W.buf.take (W.begin - 10) ++ frameHeader (W.ptr - W.begin) ++ W.buf.drop W.begin }
  return { W with ptr := W.ptr + 10, begin := W.ptr + 10 }

/-- `writer_discart`. -/
def discart (W : Writer) : Writer := { W with begin := 10, ptr := 10 }

/-- The bytes `writer_ptr` .. `writer_length`. -/
def output (W : Writer) : Option Bytes := do
  guard (W.begin = W.ptr)
  return W.buf.take (W.ptr - 10)

/-! ## The list view -/

/-- The block holds the finished bytes `out`, ten free bytes, the bytes `body` of
the element being written, and unused space. -/
structure Holds (W : Writer) (out body : Bytes) : Prop where
  block : ∃ gap rest, gap.length = 10 ∧ W.buf = out ++ gap ++ body ++ rest
  begin_eq : W.begin = out.length + 10
  ptr_eq : W.ptr = out.length + 10 + body.length

theorem init_holds : init.Holds [] [] where
  block := ⟨List.replicate 10 0, List.replicate 4000 0, by simp, by
    simp only [init, List.nil_append, List.append_nil, List.replicate_append_replicate]⟩
  begin_eq := rfl
  ptr_eq := rfl

/-- Only the block and the two offsets matter for the view. -/
theorem Holds.withDepth {W : Writer} {out body : Bytes} (h : W.Holds out body) (depth : ℤ) :
    { W with depth := depth }.Holds out body := ⟨h.block, h.begin_eq, h.ptr_eq⟩

@[simp]
theorem ensureSpace_depth (W : Writer) (size : ℕ) : (W.ensureSpace size).depth = W.depth := by
  unfold ensureSpace
  split <;> rfl

/-- Growing the block keeps what is written. -/
theorem Holds.ensureSpace {W : Writer} {out body : Bytes} (h : W.Holds out body) (size : ℕ) :
    (W.ensureSpace size).Holds out body := by
  unfold Writer.ensureSpace
  split
  · obtain ⟨gap, rest, free, buf⟩ := h.block
    exact ⟨⟨gap, rest ++ _, free, by simp only [getSpace, buf, List.append_assoc]; rfl⟩,
      h.begin_eq, h.ptr_eq⟩
  · exact h

/-- After `ensureSpace` the reserved bytes exist. -/
theorem room_ensureSpace (W : Writer) (size : ℕ) :
    (W.ensureSpace size).ptr + size ≤ (W.ensureSpace size).buf.length := by
  unfold Writer.ensureSpace
  split
  · simp only [getSpace, List.length_append, List.length_replicate]
    split <;> omega
  · omega

/-- Storing bytes for which there is room appends them to the open element. -/
theorem Holds.store {W : Writer} {out body : Bytes} (h : W.Holds out body) (bytes : Bytes)
    (room : W.ptr + bytes.length ≤ W.buf.length) :
    ∃ W', W.store bytes = some W' ∧ W'.Holds out (body ++ bytes) ∧ W'.depth = W.depth ∧
      W'.buf.length = W.buf.length ∧ W'.ptr = W.ptr + bytes.length := by
  obtain ⟨gap, rest, free, buf⟩ := h.block
  have position : (out ++ gap ++ body).length = W.ptr := by
    simp only [List.length_append, free, h.ptr_eq]
  have before : W.buf.take W.ptr = out ++ gap ++ body := by
    rw [buf, ← position, List.take_left]
  have after : W.buf.drop (W.ptr + bytes.length) = rest.drop bytes.length := by
    rw [buf, ← position, List.drop_length_add_append]
  rw [Writer.store, if_pos room]
  refine ⟨_, rfl, ⟨⟨gap, rest.drop bytes.length, free, ?_⟩, h.begin_eq, ?_⟩, rfl, ?_, rfl⟩
  · simp only [before, after, List.append_assoc]
  · simp only [h.ptr_eq, List.length_append, Nat.add_assoc]
  · simp only [List.length_append, List.length_take, List.length_drop]
    omega

/-- One call that stores at most the space it reserved. -/
theorem Holds.ensureStore {W : Writer} {out body : Bytes} (h : W.Holds out body) {size : ℕ}
    {bytes : Bytes} (reserved : bytes.length ≤ size) :
    ∃ W', (W.ensureSpace size).store bytes = some W' ∧ W'.Holds out (body ++ bytes) ∧
      W'.depth = W.depth := by
  have room := W.room_ensureSpace size
  obtain ⟨W', stored, holds, depth, -, -⟩ := (h.ensureSpace size).store bytes (by omega)
  exact ⟨W', stored, holds, by rw [depth, ensureSpace_depth]⟩

theorem Holds.writeArray {W : Writer} {out body : Bytes} (h : W.Holds out body)
    (lower : 0 ≤ W.depth) (upper : W.depth + 1 < 2 ^ 31) :
    ∃ W', W.writeArray = some W' ∧ W'.Holds out (body ++ [stArrayBegin]) ∧
      W'.depth = W.depth + 1 := by
  obtain ⟨W', stored, holds, depth⟩ := 
    h.ensureStore (show [stArrayBegin].length ≤ 1 from le_rfl)
  refine ⟨_, by simp only [Writer.writeArray, stored, Option.bind_eq_bind, Option.bind_some]; rfl,
    holds.withDepth _, ?_⟩
  rw [depth]
  exact toInt_of_lt (by omega) upper

theorem Holds.writeArrayEnd {W : Writer} {out body : Bytes} (h : W.Holds out body)
    (opened : 0 < W.depth) :
    ∃ W', W.writeArrayEnd = some W' ∧ W'.Holds out (body ++ [stArrayEnd]) ∧
      W'.depth = W.depth - 1 := by
  have room := W.room_ensureSpace 1
  obtain ⟨W', stored, holds, depth, -, -⟩ :=
    ((h.ensureSpace 1).withDepth (W.depth - 1)).store [stArrayEnd] (by simpa using room)
  refine ⟨W', ?_, holds, depth⟩
  simp only [Writer.writeArrayEnd, ensureSpace_depth, opened, guard_true, pure_bind]
  exact stored

/-- The code of a string of the given length. -/
theorem lengthCode_eq {length : ℕ} (fits : length + stString < 2 ^ 64) :
    (if length + stString < 128 then [UInt8.ofNat (length + stString)]
      else writeNumberCode (length + stString)) = writeNumberCode (length + stString) ∧
    (writeNumberCode (length + stString)).length ≤ 9 := by
  constructor
  · split
    · rename_i short
      rw [writeNumberCode, if_pos (by simpa using short)]
    · rfl
  · obtain ⟨first, tail, code, -, short, -, -⟩ := writeNumberCode_spec _ fits
    rw [code, List.length_cons]
    omega

theorem Holds.writeString {W : Writer} {out body : Bytes} (h : W.Holds out body)
    {contents : Bytes} (fits : contents.length + stString < 2 ^ 64) :
    ∃ W', W.writeString contents = some W' ∧
      W'.Holds out (body ++ (writeNumberCode (contents.length + stString) ++ contents)) ∧
      W'.depth = W.depth := by
  obtain ⟨code, short⟩ := lengthCode_eq fits
  have room := W.room_ensureSpace (contents.length + 9)
  obtain ⟨W₁, stored₁, holds₁, depth₁, size₁, ptr₁⟩ :=
    (h.ensureSpace (contents.length + 9)).store
      (writeNumberCode (contents.length + stString)) (by omega)
  obtain ⟨W₂, stored₂, holds₂, depth₂, -, -⟩ := holds₁.store contents (by omega)
  refine ⟨W₂, ?_, ?_, ?_⟩
  · simp only [Writer.writeString, code, stored₁, Option.bind_eq_bind, Option.bind_some, stored₂]
  · rw [← List.append_assoc]
    exact holds₂
  · rw [depth₂, depth₁, ensureSpace_depth]

theorem Holds.writeNumber {W : Writer} {out body : Bytes} (h : W.Holds out body) (number : ℕ) :
    ∃ W', W.writeNumber number = some W' ∧
      W'.Holds out (body ++
        (UInt8.ofNat (stString + (numberBytes number).length) :: numberBytes number)) ∧
      W'.depth = W.depth := by
  have := length_numberBytes number
  exact h.ensureStore (by simp only [List.length_cons]; omega)

/-- Finishing an element moves it, framed, to the finished bytes. -/
theorem Holds.finish {W : Writer} {out body : Bytes} (h : W.Holds out body) (closed : W.depth = 0)
    (checksum : Bool) :
    ∃ W', W.finish checksum = some W' ∧
      W'.Holds (out ++ (frameHeader (body ++ trailer body checksum).length ++
        (body ++ trailer body checksum))) [] ∧
      W'.depth = 0 := by
  have room := W.room_ensureSpace 16
  have short := length_trailer_le body checksum
  obtain ⟨gap₀, rest₀, free₀, buf₀⟩ := (h.ensureSpace 16).block
  have payload : ((W.ensureSpace 16).buf.take (W.ensureSpace 16).ptr).drop
      (W.ensureSpace 16).begin = body := by
    have front : (out ++ gap₀).length = out.length + 10 := by simp [free₀]
    rw [buf₀, (h.ensureSpace 16).ptr_eq, (h.ensureSpace 16).begin_eq, ← front,
      ← List.length_append, List.take_left, List.drop_left]
  obtain ⟨W₁, stored, holds, depth, size, ptr⟩ :=
    (h.ensureSpace 16).store (trailer body checksum) (by omega)
  obtain ⟨gap, rest, free, buf⟩ := holds.block
  have low : 10 ≤ W₁.begin := by rw [holds.begin_eq]; omega
  have front : W₁.buf.take (W₁.begin - 10) = out := by
    rw [buf, holds.begin_eq, Nat.add_sub_cancel, List.append_assoc, List.append_assoc,
      List.take_left]
  have back : W₁.buf.drop W₁.begin = body ++ trailer body checksum ++ rest := by
    have : (out ++ gap).length = W₁.begin := by simp [free, holds.begin_eq]
    rw [buf, ← this, List.append_assoc, List.drop_left]
  have length : W₁.ptr - W₁.begin = (body ++ trailer body checksum).length := by
    rw [holds.ptr_eq, holds.begin_eq]; omega
  have enough : 10 ≤ rest.length := by
    have total := congrArg List.length buf
    simp only [List.length_append, free] at total
    have position := holds.ptr_eq
    simp only [List.length_append] at position
    omega
  refine ⟨_, by
    simp only [Writer.finish, closed, guard_true, pure_bind, payload, stored, Option.bind_eq_bind,
      Option.bind_some, low]; rfl, ⟨⟨rest.take 10, rest.drop 10, ?_, ?_⟩, ?_, ?_⟩, ?_⟩
  · simp [enough]
  · simp only [front, back, length, List.append_assoc, List.append_nil, List.take_append_drop]
  · simp only [holds.ptr_eq, List.length_append, length_frameHeader]
    omega
  · simp only [holds.ptr_eq, List.length_append, length_frameHeader, List.length_nil]
    omega
  · simp only [depth, ensureSpace_depth, closed]

theorem Holds.discart {W : Writer} {out body : Bytes} (h : W.Holds out body) :
    W.discart.Holds [] [] where
  block := by
    obtain ⟨gap, rest, ten, buf⟩ := h.block
    refine ⟨W.buf.take 10, W.buf.drop 10, List.length_take_of_le ?_, ?_⟩
    · rw [buf]
      simp only [List.length_append]
      omega
    · rw [List.nil_append, List.append_nil]
      exact (List.take_append_drop 10 W.buf).symm
  begin_eq := rfl
  ptr_eq := rfl

/-- Between elements the output is the finished bytes. -/
theorem Holds.output {W : Writer} {out : Bytes} (h : W.Holds out []) : W.output = some out := by
  obtain ⟨gap, rest, free, buf⟩ := h.block
  have position : W.ptr = out.length + 10 := by simpa using h.ptr_eq
  have same : W.begin = W.ptr := by rw [h.begin_eq, position]
  have front : W.buf.take (W.ptr - 10) = out := by
    rw [position, Nat.add_sub_cancel, buf, List.append_assoc, List.append_assoc, List.take_left]
  simp only [Writer.output, same, guard_true, pure_bind, front]
  rfl

end Writer

end HybridDatabase.Storage
