/-
# What the service thread writes

The service thread collects the bytes of transactions in a writer of its own and
passes them to the file in larger pieces.  `Output` is that buffer together with the
file behind `D->file_desc`: what was passed to it since the thread looked at it first,
and how much of that an `fsync` covers.
-/

import HybridDatabase.Storage.Format

namespace HybridDatabase.Service

open HybridDatabase.Storage

/-- `DB_WRITE_BUFFER_SIZE`. -/
def dbWriteBufferSize : ℕ := 4096

/-- The buffer of the service thread and the file it writes to. -/
structure Output where
  /-- `writer_ptr(W)` .. `writer_length(W)`. -/
  buffer : Bytes
  /-- What the file holds. -/
  written : Bytes
  /-- What the file held at the last `fsync`. -/
  synced : Bytes
  synced_prefix : synced <+: written

namespace Output

/-- A file that holds some bytes already, and an empty buffer. -/
def ofFile (file : Bytes) : Output where
  buffer := []
  written := file
  synced := []
  synced_prefix := List.nil_prefix

/-- `util_fd_write`. -/
def fdWrite (O : Output) (bytes : Bytes) : Output where
  buffer := O.buffer
  written := O.written ++ bytes
  synced := O.synced
  synced_prefix := O.synced_prefix.trans (List.prefix_append ..)

/-- `util_fd_write` of the whole buffer and `writer_discart`. -/
def flush (O : Output) : Output := { O.fdWrite O.buffer with buffer := [] }

/-- `fsync`. -/
def fsync (O : Output) : Output where
  buffer := O.buffer
  written := O.written
  synced := O.written
  synced_prefix := List.prefix_rfl

/-- `buffered_write`. -/
def bufferedWrite (O : Output) (bytes : Bytes) : Output :=
  if O.buffer.length + bytes.length ≤ dbWriteBufferSize then
    { O with buffer := O.buffer ++ bytes }
  else if dbWriteBufferSize / 2 < bytes.length then
    O.flush.fdWrite bytes
  else
    { O.flush with buffer := bytes }

/-- `buffered_sync`. -/
def bufferedSync (O : Output) : Output :=
  if O.buffer.length ≠ 0 then O.flush.fsync else O.fsync

/-- The file followed by what waits in the buffer. -/
def contents (O : Output) : Bytes := O.written ++ O.buffer

@[simp]
theorem contents_ofFile (file : Bytes) : (ofFile file).contents = file := List.append_nil file

/-- Whatever way `buffered_write` takes, the bytes end up behind all earlier ones. -/
@[simp]
theorem contents_bufferedWrite (O : Output) (bytes : Bytes) :
    (O.bufferedWrite bytes).contents = O.contents ++ bytes := by
  unfold bufferedWrite
  split
  · simp [contents]
  · split
    · simp [contents, flush, fdWrite]
    · simp [contents, flush, fdWrite]

@[simp]
theorem contents_bufferedSync (O : Output) : O.bufferedSync.contents = O.contents := by
  unfold bufferedSync
  split
  · simp [contents, flush, fdWrite, fsync]
  · rfl

/-- After `buffered_sync` everything is on the disk. -/
@[simp]
theorem synced_bufferedSync (O : Output) : O.bufferedSync.synced = O.contents := by
  unfold bufferedSync
  split
  · rfl
  · next empty =>
      have none : O.buffer = [] := List.eq_nil_of_length_eq_zero (not_not.mp empty)
      simp [contents, fsync, none]

@[simp]
theorem synced_bufferedWrite (O : Output) (bytes : Bytes) :
    (O.bufferedWrite bytes).synced = O.synced := by
  unfold bufferedWrite
  split
  · rfl
  · split <;> rfl

/-- After `buffered_write` no more waits than `DB_WRITE_BUFFER_SIZE`. -/
theorem length_bufferedWrite_le (O : Output) (bytes : Bytes) :
    (O.bufferedWrite bytes).buffer.length ≤ dbWriteBufferSize := by
  unfold bufferedWrite
  split
  · rwa [List.length_append]
  · split
    · exact Nat.zero_le _
    · next small => exact (not_lt.mp small).trans (Nat.div_le_self _ _)

@[simp]
theorem buffer_bufferedSync (O : Output) : O.bufferedSync.buffer = [] := by
  unfold bufferedSync
  split
  · rfl
  · next empty => exact List.eq_nil_of_length_eq_zero (not_not.mp empty)

@[simp]
theorem written_bufferedSync (O : Output) : O.bufferedSync.written = O.contents := by
  have contents := contents_bufferedSync O
  rwa [Output.contents, buffer_bufferedSync, List.append_nil] at contents

theorem synced_prefix_contents (O : Output) : O.synced <+: O.contents :=
  O.synced_prefix.trans (List.prefix_append ..)

end Output

end HybridDatabase.Service
