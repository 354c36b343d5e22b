/-
# The buffer in front of a descriptor

The service thread writes through a `Writer`: `buffered_write` puts a chunk behind what waits
there or behind what the descriptor has got, and elements may be finished in the same writer
in between.  Whichever way a chunk takes, the bytes come out in the order of the calls.
-/

import HybridDatabase.Service.Output
import HybridDatabase.Storage.Positions

namespace HybridDatabase.Service

open HybridDatabase.Base HybridDatabase.Storage

/-- `writer_length`. -/
def writerLength (W : Writer) : Option ℕ := do
  guard (W.begin = W.ptr)
  return W.ptr - 10

/-- A writer and the descriptor behind it. -/
structure Buffered where
  W : Writer
  /-- What `util_fd_write` got. -/
  written : Bytes
  /-- What of it an `fsync` covers. -/
  synced : Bytes

namespace Buffered

/-- `util_fd_write`. -/
def fdWrite (B : Buffered) (buffer : Bytes) : Buffered := { B with written := B.written ++ buffer }

/-- `util_fd_write` of `writer_ptr` .. `writer_length`, and `writer_discart`. -/
def flush (B : Buffered) : Option Buffered := do
  let waiting ← B.W.output
  return { B.fdWrite waiting with W := B.W.discart }

/-- `if (length) writer_direct_write`; an empty chunk may have no buffer. -/
def directWrite (B : Buffered) (buffer : Bytes) : Option Buffered :=
  if buffer.length ≠ 0 then (B.W.directWrite buffer).map fun W => { B with W := W } else some B

/-- `buffered_write`. -/
def bufferedWrite (B : Buffered) (buffer : Bytes) : Option Buffered := do
  let waiting ← writerLength B.W
  let diff : ℤ := (waiting : ℤ) + (buffer.length : ℤ) - (dbWriteBufferSize : ℤ)
  if diff ≤ 0 then B.directWrite buffer
  else if dbWriteBufferSize / 2 < buffer.length then
    let B ← B.flush
    return B.fdWrite buffer
  else
    let B ← B.flush
    B.directWrite buffer

/-- `fsync`. -/
def fsync (B : Buffered) : Buffered := { B with synced := B.written }

/-- `buffered_sync`. -/
def bufferedSync (B : Buffered) : Option Buffered := do
  let waiting ← writerLength B.W
  if waiting ≠ 0 then
    let B ← B.flush
    return B.fsync
  else return B.fsync

end Buffered

/-! ## What waits and what is written -/

/-- The writer holds the buffer of `O`, with the open element of `c` behind it. -/
structure Buffered.Refines (B : Buffered) (O : Output) (c : Contents) : Prop where
  shows_ : B.W.Shows { c with out := O.buffer }
  written : B.written = O.written
  synced : B.synced = O.synced

variable {B : Buffered} {O : Output} {c : Contents}

theorem writerLength_eq {W : Writer} (shows_ : W.Shows c) :
    writerLength W = if c.body = [] then some c.out.length else none := by
  have begin_eq := shows_.holds.begin_eq
  have ptr_eq := shows_.holds.ptr_eq
  unfold writerLength
  by_cases none : c.body = []
  · have same : W.begin = W.ptr := by rw [begin_eq, ptr_eq, none, List.length_nil, Nat.add_zero]
    have length : W.ptr - 10 = c.out.length := by omega
    simp only [if_pos none, same, guard_true, pure_bind, length]
    rfl
  · have inside : W.begin ≠ W.ptr := by
      have positive := List.length_pos_of_ne_nil none
      omega
    simp only [if_neg none, inside, guard_false]
    rfl

namespace Buffered.Refines

theorem output_eq (refines : B.Refines O c) (between : c.body = []) :
    B.W.output = some O.buffer := by
  rw [refines.shows_.output_eq]
  exact if_pos between

/-- Everything that waits is written. -/
theorem flush (refines : B.Refines O c) (between : c.body = []) :
    ∃ B', B.flush = some B' ∧ B'.Refines O.flush c := by
  refine ⟨{ B.fdWrite O.buffer with W := B.W.discart },
    by rw [Buffered.flush, refines.output_eq between]; rfl, ⟨?_, ?_⟩, ?_, refines.synced⟩
  · rw [between]
    exact refines.shows_.holds.discart
  · exact refines.shows_.depth_eq
  · show B.written ++ O.buffer = O.written ++ O.buffer
    rw [refines.written]

theorem fdWrite (refines : B.Refines O c) (buffer : Bytes) :
    (B.fdWrite buffer).Refines (O.fdWrite buffer) c :=
  ⟨refines.shows_, congrArg (· ++ buffer) refines.written, refines.synced⟩

theorem fsync (refines : B.Refines O c) : B.fsync.Refines O.fsync c :=
  ⟨refines.shows_, refines.written, refines.written⟩

/-- A chunk goes behind what waits. -/
theorem directWrite (refines : B.Refines O c) (between : c.body = []) (closed : c.depth = 0)
    (buffer : Bytes) :
    ∃ B', B.directWrite buffer = some B' ∧ B'.Refines { O with buffer := O.buffer ++ buffer } c := by
  unfold Buffered.directWrite
  by_cases some_ : buffer.length ≠ 0
  · have holds := refines.shows_.holds
    dsimp only at holds
    rw [between] at holds
    obtain ⟨W', written, after, depth⟩ :=
      holds.directWrite (refines.shows_.depth_eq.trans closed) buffer
    rw [if_pos some_, written, Option.map_some]
    refine ⟨_, rfl, ⟨?_, depth.trans closed.symm⟩, refines.written, refines.synced⟩
    dsimp only
    rwa [between]
  · have none : buffer = [] := List.eq_nil_of_length_eq_zero (not_not.mp some_)
    rw [if_neg some_, none, List.append_nil]
    exact ⟨B, rfl, refines⟩

/-- `buffered_write` does to the writer what it does to the list of waiting bytes. -/
theorem bufferedWrite (refines : B.Refines O c) (between : c.body = []) (closed : c.depth = 0)
    (buffer : Bytes) :
    ∃ B', B.bufferedWrite buffer = some B' ∧ B'.Refines (O.bufferedWrite buffer) c := by
  have length : writerLength B.W = some O.buffer.length :=
    (writerLength_eq refines.shows_).trans (if_pos between)
  unfold Buffered.bufferedWrite Output.bufferedWrite
  rw [length, Option.bind_eq_bind, Option.bind_some]
  dsimp only
  by_cases fits : O.buffer.length + buffer.length ≤ dbWriteBufferSize
  · rw [if_pos fits, if_pos (by omega)]
    exact refines.directWrite between closed buffer
  · rw [if_neg fits, if_neg (by omega)]
    obtain ⟨B₁, flushed, refines₁⟩ := refines.flush between
    simp only [flushed, Option.bind_eq_bind, Option.bind_some]
    by_cases large : dbWriteBufferSize / 2 < buffer.length
    · rw [if_pos large, if_pos large]
      exact ⟨_, rfl, refines₁.fdWrite buffer⟩
    · rw [if_neg large, if_neg large]
      exact refines₁.directWrite between closed buffer

theorem bufferedSync (refines : B.Refines O c) (between : c.body = []) :
    ∃ B', B.bufferedSync = some B' ∧ B'.Refines O.bufferedSync c := by
  have length : writerLength B.W = some O.buffer.length :=
    (writerLength_eq refines.shows_).trans (if_pos between)
  unfold Buffered.bufferedSync Output.bufferedSync
  rw [length, Option.bind_eq_bind, Option.bind_some]
  by_cases waiting : O.buffer.length ≠ 0
  · rw [if_pos waiting, if_pos waiting]
    obtain ⟨B₁, flushed, refines₁⟩ := refines.flush between
    simp only [flushed, Option.bind_eq_bind, Option.bind_some]
    exact ⟨_, rfl, refines₁.fsync⟩
  · rw [if_neg waiting, if_neg waiting]
    exact ⟨_, rfl, refines.fsync⟩

end Buffered.Refines

/-! ## The stream -/

/-- A call that appends to a writer. -/
abbrev Appending := { call : WriterCall // call ≠ .discart }

/-- Chunks, `fsync`s, and the calls that write elements into the same writer. -/
inductive BufferedCall
  | bufferedWrite (buffer : Bytes)
  | bufferedSync
  | call (call : Appending)

/-- Nothing written yet. -/
def Buffered.init : Buffered := ⟨.init, [], []⟩

/-- One call. -/
def Buffered.step (B : Buffered) : BufferedCall → Option Buffered
  | .bufferedWrite buffer => B.bufferedWrite buffer
  | .bufferedSync => B.bufferedSync
  | .call call => (B.W.call call).map fun W => { B with W := W }

/-- The stream the calls make: chunks and elements in the order of the calls. -/
def streamStep (c : Contents) : BufferedCall → Option Contents
  | .bufferedWrite buffer => if c.body = [] then some { c with out := c.out ++ buffer } else none
  | .bufferedSync => if c.body = [] then some c else none
  | .call call => c.call call

/-- Between elements no array is open. -/
def Closed (c : Contents) : Prop := c.body = [] → c.depth = 0

theorem Closed.call {call : Appending} {c' : Contents} (closed : Closed c)
    (called : c.call call = some c') : Closed c' := by
  obtain ⟨call, other⟩ := call
  have some_ (bytes : Bytes) (first : bytes ≠ []) : c.body ++ bytes ≠ [] :=
    List.append_ne_nil_of_right_ne_nil _ first
  cases call with
  | writeArray =>
      cases called
      exact fun none => absurd none (some_ _ (List.cons_ne_nil _ _))
  | writeArrayEnd =>
      obtain ⟨-, called⟩ := Option.ite_none_right_eq_some.mp called
      cases called
      exact fun none => absurd none (some_ _ (List.cons_ne_nil _ _))
  | writeString contents =>
      cases called
      have short := contents.property
      have positive := length_encodeString_pos contents.val (by rw [stString]; omega)
      exact fun none => absurd none (some_ _ (List.ne_nil_of_length_pos positive))
  | writeNumber number =>
      cases called
      exact fun none => absurd none (some_ _ (List.cons_ne_nil _ _))
  | finish checksum =>
      obtain ⟨zero, called⟩ := Option.ite_none_right_eq_some.mp called
      cases called
      exact fun _ => zero
  | directWrite buffer =>
      obtain ⟨⟨zero, -⟩, called⟩ := Option.ite_none_right_eq_some.mp called
      cases called
      exact fun _ => zero
  | discart => exact absurd rfl other
  | getSpace size =>
      cases called
      exact closed

/-- A call appends whatever stands in front. -/
theorem call_append (front : Bytes) (call : Appending) :
    { c with out := front ++ c.out }.call call =
      (c.call call).map fun d => { d with out := front ++ d.out } := by
  obtain ⟨call, other⟩ := call
  cases call with
  | discart => exact absurd rfl other
  | writeArray | writeString _ | writeNumber _ | getSpace _ => rfl
  | writeArrayEnd =>
      simp only [Contents.call]
      split <;> rfl
  | finish checksum | directWrite buffer =>
      simp only [Contents.call]
      split
      · simp only [Option.map_some, List.append_assoc]
      · rfl

/-- The descriptor and the writer hold the stream. -/
structure Streams (B : Buffered) (c : Contents) : Prop where
  refines : ∃ O : Output, B.Refines O c ∧ O.contents = c.out
  closed : Closed c

theorem streams_init : Streams .init .empty where
  refines := ⟨.ofFile [], ⟨Writer.shows_initSize 4000, rfl, rfl⟩, rfl⟩
  closed _ := rfl

theorem Streams.step (streams : Streams B c) (call : BufferedCall) :
    Option.Rel Streams (B.step call) (streamStep c call) := by
  obtain ⟨⟨O, refines, contents⟩, closed⟩ := streams
  cases call with
  | bufferedWrite buffer =>
      simp only [Buffered.step, streamStep]
      by_cases between : c.body = []
      · obtain ⟨B', written, refines'⟩ := refines.bufferedWrite between (closed between) buffer
        rw [if_pos between, written]
        refine .some ⟨⟨_, ⟨refines'.shows_, refines'.written, refines'.synced⟩, ?_⟩, closed⟩
        rw [Output.contents_bufferedWrite, contents]
      · rw [if_neg between, Buffered.bufferedWrite, writerLength_eq refines.shows_]
        rw [if_neg between]
        exact .none
  | bufferedSync =>
      simp only [Buffered.step, streamStep]
      by_cases between : c.body = []
      · obtain ⟨B', written, refines'⟩ := refines.bufferedSync between
        rw [if_pos between, written]
        refine .some ⟨⟨_, refines', ?_⟩, closed⟩
        rw [Output.contents_bufferedSync, contents]
      · rw [if_neg between, Buffered.bufferedSync, writerLength_eq refines.shows_]
        rw [if_neg between]
        exact .none
  | call call =>
      have called := refines.shows_.call call
      have whole : c = { ({ c with out := O.buffer } : Contents) with
          out := O.written ++ O.buffer } := by
        rw [show O.written ++ O.buffer = c.out from contents]
      have same := @call_append { c with out := O.buffer } O.written call
      rw [← whole] at same
      simp only [Buffered.step, streamStep, same]
      generalize B.W.call call = W at called
      generalize found : Contents.call { c with out := O.buffer } call = d at called same
      cases called with
      | none => exact .none
      | @some W d after =>
          refine .some ⟨⟨{ O with buffer := d.out }, ⟨after, refines.written, refines.synced⟩, rfl⟩,
            closed.call same⟩

/-- What passed to the descriptor and what waits are the stream, and little waits. -/
structure StreamKept (B : Buffered) (c : Contents) : Prop where
  /-- Also while an element is being written. -/
  finished : B.written ++ B.W.buf.take (B.W.begin - 10) = c.out
  output : B.W.output.isSome ↔ c.body = []
  stream : ∀ waiting, B.W.output = some waiting → B.written ++ waiting = c.out
  short : ∀ buffer B', B.bufferedWrite buffer = some B' →
    ∃ waiting, B'.W.output = some waiting ∧ waiting.length ≤ dbWriteBufferSize
  empty : ∀ B', B.bufferedSync = some B' → B'.W.output = some []

/-- A call that writes a chunk or an `fsync` is made between elements. -/
theorem Buffered.Refines.between {n : ℕ} (refines : B.Refines O c)
    (length : writerLength B.W = some n) : c.body = [] := by
  rw [writerLength_eq refines.shows_] at length
  exact (Option.ite_none_right_eq_some.mp length).1

theorem Streams.kept (streams : Streams B c) : StreamKept B c := by
  obtain ⟨⟨O, refines, contents⟩, closed⟩ := streams
  have lists := refines.shows_.byteList
  constructor
  case finished =>
    rw [lists.finished, refines.written]
    exact contents
  case output =>
    rw [refines.shows_.output_eq]
    show (if c.body = [] then some O.buffer else none).isSome ↔ c.body = []
    split <;> simp [*]
  case stream =>
    intro waiting output
    rw [refines.shows_.output_eq] at output
    obtain ⟨-, waits⟩ := Option.ite_none_right_eq_some.mp output
    rw [refines.written, ← Option.some.inj waits]
    exact contents
  case short =>
    intro buffer B' written
    obtain ⟨n, length, -⟩ := Option.bind_eq_some_iff.mp written
    have between := refines.between length
    obtain ⟨B₁, written₁, refines₁⟩ := refines.bufferedWrite between (closed between) buffer
    obtain rfl : B₁ = B' := Option.some.inj (written₁.symm.trans written)
    exact ⟨_, refines₁.output_eq between, O.length_bufferedWrite_le buffer⟩
  case empty =>
    intro B' written
    obtain ⟨n, length, -⟩ := Option.bind_eq_some_iff.mp written
    have between := refines.between length
    obtain ⟨B₁, written₁, refines₁⟩ := refines.bufferedSync between
    obtain rfl : B₁ = B' := Option.some.inj (written₁.symm.trans written)
    rw [refines₁.output_eq between, O.buffer_bufferedSync]

/-- Chunks, elements and `fsync`s in any order: the bytes come out in the order of the calls,
and only the assertions of the calls stop them. -/
theorem buffered_keeps_stream (calls : List BufferedCall) :
    Option.Rel StreamKept (runSteps Buffered.step .init calls)
      (runSteps streamStep .empty calls) := by
  have run := runSteps_rel (fun _ _ call streams => Streams.step streams call) streams_init calls
  generalize runSteps Buffered.step .init calls = B, runSteps streamStep .empty calls = c at run
  cases run with
  | none => exact .none
  | some streams => exact .some streams.kept

end HybridDatabase.Service
