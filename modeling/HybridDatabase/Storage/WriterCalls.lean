/-
# Sequences of calls on a writer

To its callers a writer is a list of bytes: the finished elements and the chunks written
directly, and behind them the element being written.  `Contents` is that list, and one call
on it appends, frames or drops bytes.  The block of memory follows it call by call, however
large it is at the start and whenever it is enlarged; it fails only where an assertion does.
-/

import HybridDatabase.Base.Runs
import HybridDatabase.Storage.Frame

namespace HybridDatabase.Storage

open HybridDatabase.Base

namespace Writer

/-- `writer_init` with a block of some other size. -/
def initSize (size : ℕ) : Writer where
  buf := List.replicate (size + 10) 0
  begin := 10
  ptr := 10
  depth := 0

/-- `writer_direct_write`; `memcpy` goes to the ten bytes in front of `W->ptr`. -/
def directWrite (W : Writer) (buffer : Bytes) : Option Writer := do
  guard (W.depth = 0)
  guard (W.begin = W.ptr)
  let W := W.ensureSpace buffer.length
  guard (10 ≤ W.ptr)
  let W ← { W with ptr := W.ptr - 10 }.store buffer
  return { W with ptr := W.ptr + 10, begin := W.begin + buffer.length }

end Writer

/-! ## Calls -/

/-- A string in memory. -/
abbrev Contiguous := { contents : Bytes // contents.length < 2 ^ 63 }

/-- The calls that write, `writer_discart`, and a growth of the block at any time. -/
inductive WriterCall
  | writeArray
  | writeArrayEnd
  | writeString (contents : Contiguous)
  | writeNumber (number : UInt64)
  | finish (checksum : Bool)
  | directWrite (buffer : Bytes)
  | discart
  | getSpace (size : ℕ)
  deriving DecidableEq

/-- One call. -/
def Writer.call (W : Writer) : WriterCall → Option Writer
  | .writeArray => W.writeArray
  | .writeArrayEnd => W.writeArrayEnd
  | .writeString contents => W.writeString contents
  | .writeNumber number => W.writeNumber number.toNat
  | .finish checksum => W.finish checksum
  | .directWrite buffer => W.directWrite buffer
  | .discart => some W.discart
  | .getSpace size => some (W.getSpace size)

/-- What a writer is to its callers. -/
structure Contents where
  /-- Finished elements and chunks. -/
  out : Bytes
  /-- The element being written. -/
  body : Bytes
  depth : ℤ
  deriving DecidableEq, Repr

namespace Contents

/-- Nothing written yet. -/
def empty : Contents := ⟨[], [], 0⟩

/-- More of the element being written. -/
def append (c : Contents) (bytes : Bytes) : Contents := { c with body := c.body ++ bytes }

/-- One call.  The conditions are the assertions of the calls. -/
def call (c : Contents) : WriterCall → Option Contents
  | .writeArray => some { c.append [stArrayBegin] with depth := toInt (c.depth + 1) }
  | .writeArrayEnd =>
      if 0 < c.depth then some { c.append [stArrayEnd] with depth := c.depth - 1 } else none
  | .writeString contents => some (c.append (encodeString contents))
  | .writeNumber number => some (c.append (encodeNumber number.toNat))
  | .finish checksum =>
      if c.depth = 0 then some { c with out := c.out ++ frame c.body checksum, body := [] }
      else none
  | .directWrite buffer =>
      if c.depth = 0 ∧ c.body = [] then some { c with out := c.out ++ buffer } else none
  | .discart => some { c with out := [], body := [] }
  | .getSpace _ => some c

end Contents

/-- The block holds the contents. -/
structure Writer.Shows (W : Writer) (c : Contents) : Prop where
  holds : W.Holds c.out c.body
  depth_eq : W.depth = c.depth

namespace Writer

theorem shows_initSize (size : ℕ) : (initSize size).Shows .empty where
  holds :=
    { block := ⟨List.replicate 10 0, List.replicate size 0, List.length_replicate, by
        simp only [initSize, Contents.empty, List.nil_append, List.append_nil,
          List.replicate_append_replicate, Nat.add_comm]⟩
      begin_eq := rfl
      ptr_eq := rfl }
  depth_eq := rfl

theorem Holds.getSpace {W : Writer} {out body : Bytes} (h : W.Holds out body) (size : ℕ) :
    (W.getSpace size).Holds out body := by
  obtain ⟨gap, rest, free, buf⟩ := h.block
  exact ⟨⟨gap, rest ++ _, free, by simp only [Writer.getSpace, buf, List.append_assoc]; rfl⟩,
    h.begin_eq, h.ptr_eq⟩

/-- Between elements a chunk goes behind the finished bytes. -/
theorem Holds.directWrite {W : Writer} {out : Bytes} (h : W.Holds out []) (closed : W.depth = 0)
    (buffer : Bytes) :
    ∃ W', W.directWrite buffer = some W' ∧ W'.Holds (out ++ buffer) [] ∧ W'.depth = 0 := by
  have same : W.begin = W.ptr := by rw [h.begin_eq, h.ptr_eq, List.length_nil, Nat.add_zero]
  have room := W.room_ensureSpace buffer.length
  have grown := h.ensureSpace buffer.length
  have depth := W.ensureSpace_depth buffer.length
  unfold Writer.directWrite
  simp only [closed, same, guard_true, pure_bind]
  generalize W.ensureSpace buffer.length = G at room grown depth
  obtain ⟨gap, rest, ten, buf⟩ := grown.block
  have position := grown.ptr_eq
  rw [List.append_nil, List.append_assoc] at buf
  rw [List.length_nil, Nat.add_zero] at position
  have low : 10 ≤ G.ptr := by omega
  have back : G.ptr - 10 = out.length := by omega
  have stored : { G with ptr := G.ptr - 10 }.store buffer = some { G with
      buf := out ++ buffer ++ (gap ++ rest).drop buffer.length
      ptr := out.length + buffer.length } := by
    rw [Writer.store, if_pos (show G.ptr - 10 + buffer.length ≤ G.buf.length by omega)]
    simp only [back]
    rw [buf, List.take_left, List.drop_length_add_append]
  have enough : 10 ≤ ((gap ++ rest).drop buffer.length).length := by
    have total := congrArg List.length buf
    rw [List.length_append] at total
    rw [List.length_drop]
    omega
  simp only [low, guard_true, pure_bind, stored, Option.bind_eq_bind, Option.bind_some]
  refine ⟨_, rfl, ⟨⟨_, ((gap ++ rest).drop buffer.length).drop 10,
    List.length_take_of_le enough, ?_⟩, ?_, ?_⟩, depth.trans closed⟩
  · simp only [List.append_assoc, List.append_nil, List.take_append_drop]
  · have start := grown.begin_eq
    simp only [List.length_append]
    omega
  · simp only [List.length_append, List.length_nil, Nat.add_zero]

/-- A call does to the block what it does to the contents, and fails only by an assertion. -/
theorem Shows.call {W : Writer} {c : Contents} (shows_ : W.Shows c) (call : WriterCall) :
    Option.Rel Shows (W.call call) (c.call call) := by
  obtain ⟨holds, depth_eq⟩ := shows_
  cases call with
  | writeArray =>
      obtain ⟨W', stored, after, depth⟩ :=
        holds.ensureStore (show [stArrayBegin].length ≤ 1 from le_rfl)
      simp only [Writer.call, Writer.writeArray, stored, Option.bind_eq_bind, Option.bind_some,
        Contents.call]
      exact .some ⟨after.withDepth _, by rw [depth, depth_eq]⟩
  | writeArrayEnd =>
      simp only [Contents.call]
      by_cases opened : 0 < c.depth
      · rw [if_pos opened]
        obtain ⟨W', written, after, depth⟩ := holds.writeArrayEnd (depth_eq ▸ opened)
        simp only [Writer.call, written]
        exact .some ⟨after, by rw [depth, depth_eq]⟩
      · rw [if_neg opened]
        rw [← depth_eq] at opened
        simp only [Writer.call, Writer.writeArrayEnd, ensureSpace_depth, opened, guard_false]
        exact .none
  | writeString contents =>
      have short := contents.property
      obtain ⟨W', written, after, depth⟩ :=
        holds.writeString (show contents.val.length + stString < 2 ^ 64 by
          rw [stString]; omega)
      simp only [Writer.call, written, Contents.call]
      exact .some ⟨after, by rw [depth, depth_eq]; rfl⟩
  | writeNumber number =>
      obtain ⟨W', written, after, depth⟩ := holds.writeNumber number.toNat
      simp only [Writer.call, written, Contents.call]
      exact .some ⟨after, by rw [depth, depth_eq]; rfl⟩
  | finish checksum =>
      simp only [Contents.call]
      by_cases closed : c.depth = 0
      · rw [if_pos closed]
        obtain ⟨W', written, after, depth⟩ := holds.finish (depth_eq.trans closed) checksum
        simp only [Writer.call, written]
        exact .some ⟨after, depth.trans closed.symm⟩
      · rw [if_neg closed]
        rw [← depth_eq] at closed
        simp only [Writer.call, Writer.finish, closed, guard_false]
        exact .none
  | directWrite buffer =>
      simp only [Contents.call]
      by_cases between : c.depth = 0 ∧ c.body = []
      · rw [if_pos between]
        obtain ⟨closed, none⟩ := between
        rw [none] at holds
        obtain ⟨W', written, after, depth⟩ := holds.directWrite (depth_eq.trans closed) buffer
        simp only [Writer.call, written]
        exact .some ⟨by rw [none]; exact after, depth.trans closed.symm⟩
      · rw [if_neg between]
        have failed : ¬ (W.depth = 0 ∧ W.begin = W.ptr) := by
          rintro ⟨closed, same⟩
          have length : c.body.length = 0 := by
            have begin_eq := holds.begin_eq
            have ptr_eq := holds.ptr_eq
            omega
          exact between ⟨depth_eq.symm.trans closed, List.eq_nil_of_length_eq_zero length⟩
        rw [not_and_or] at failed
        obtain opened | inside := failed
        · simp only [Writer.call, Writer.directWrite, opened, guard_false]
          exact .none
        · have failed : W.directWrite buffer = none := by
            unfold Writer.directWrite
            by_cases closed : W.depth = 0 <;>
              simp [guard, closed, inside]
          simp only [Writer.call, failed]
          exact .none
  | discart => exact .some ⟨holds.discart, depth_eq⟩
  | getSpace size => exact .some ⟨holds.getSpace size, depth_eq⟩

/-- So does a sequence of calls. -/
theorem Shows.calls {W : Writer} {c : Contents} (shows_ : W.Shows c) (calls : List WriterCall) :
    Option.Rel Shows (runSteps Writer.call W calls) (runSteps Contents.call c calls) :=
  runSteps_rel (fun _ _ call shows_ => shows_.call call) shows_ calls

end Writer

/-- The block is the list of bytes: it is used within its bounds, and the finished bytes are
all that `writer_ptr` and `writer_length` show. -/
structure ByteList (W : Writer) (c : Contents) : Prop where
  ten_le : 10 ≤ W.begin
  begin_le : W.begin ≤ W.ptr
  ptr_le : W.ptr ≤ W.buf.length
  finished : W.buf.take (W.begin - 10) = c.out
  current : (W.buf.take W.ptr).drop W.begin = c.body
  output : W.begin = W.ptr → W.output = some c.out
  grows : ∀ size, W.buf <+: (W.getSpace size).buf ∧
    W.buf.length + size ≤ (W.getSpace size).buf.length

theorem Writer.Shows.byteList {W : Writer} {c : Contents} (shows_ : W.Shows c) :
    ByteList W c := by
  obtain ⟨gap, rest, ten, buf⟩ := shows_.holds.block
  have begin_eq := shows_.holds.begin_eq
  have ptr_eq := shows_.holds.ptr_eq
  have front : (c.out ++ gap).length = W.begin := by rw [List.length_append, ten, begin_eq]
  have position : (c.out ++ gap ++ c.body).length = W.ptr := by
    rw [List.length_append, front, ptr_eq, begin_eq]
  constructor
  case ten_le => omega
  case begin_le => omega
  case ptr_le =>
    rw [buf, ← position, @List.length_append _ _ rest]
    exact Nat.le_add_right _ _
  case finished =>
    rw [begin_eq, Nat.add_sub_cancel, buf, List.append_assoc, List.append_assoc, List.take_left]
  case current => rw [buf, ← position, List.take_left, ← front, List.drop_left]
  case output =>
    intro same
    have none : c.body = [] := List.eq_nil_of_length_eq_zero (by omega)
    have holds := shows_.holds
    rw [none] at holds
    exact holds.output
  case grows =>
    refine fun size => ⟨List.prefix_append _ _, ?_⟩
    simp only [Writer.getSpace, List.length_append, List.length_replicate]
    split <;> omega

/-- Whatever the first block and however it grows, the calls write the list of bytes, and
nothing but an assertion stops them. -/
theorem calls_write_byteList (size : ℕ) (calls : List WriterCall) :
    Option.Rel ByteList (runSteps Writer.call (Writer.initSize size) calls)
      (runSteps Contents.call .empty calls) := by
  have run := (Writer.shows_initSize size).calls calls
  generalize runSteps Writer.call (Writer.initSize size) calls = W,
    runSteps Contents.call .empty calls = c at run
  cases run with
  | none => exact .none
  | some shows_ => exact .some shows_.byteList

end HybridDatabase.Storage
