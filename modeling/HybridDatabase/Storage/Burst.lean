/-
# Bursts of damage

A payload and what has become of it differ in the register by what the differing bits alone
leave there.  As long as these stand within 32 places, that is not nothing: the checksum is
another one, and `reader_finish` fails wherever the parse has stopped.
-/

import HybridDatabase.Storage.Remainder
import HybridDatabase.Storage.Skip

namespace HybridDatabase.Storage

open HybridDatabase.Base

/-- The bits of a byte, the most significant one first. -/
def byteBits (byte : UInt8) : List Bool := (List.range 8).map fun i => byte.toBitVec.getMsbD i

/-- The bits of a message. -/
def messageBits (bytes : Bytes) : List Bool := bytes.flatMap byteBits

/-- The bits that differ stand within a window of so many consecutive bits. -/
def DiffersWithin (width : ℕ) (bits bits' : List Bool) : Prop :=
  ∃ start, ∀ i, bits[i]? ≠ bits'[i]? → start ≤ i ∧ i < start + width

/-! ## Bits -/

@[simp]
theorem length_byteBits (byte : UInt8) : (byteBits byte).length = 8 := rfl

theorem length_messageBits (bytes : Bytes) : (messageBits bytes).length = 8 * bytes.length := by
  induction bytes with
  | nil => rfl
  | cons byte bytes ih =>
      have length := congrArg List.length (show messageBits (byte :: bytes) =
        byteBits byte ++ messageBits bytes from rfl)
      rw [length, List.length_append, length_byteBits, ih, List.length_cons]
      omega

theorem byteBits_injective : Function.Injective byteBits := by
  intro byte byte' same
  apply UInt8.toBitVec_inj.mp
  apply BitVec.eq_of_getMsbD_eq
  intro i inside
  have bit := congrArg (·[i]?) same
  simpa [byteBits, List.getElem?_range inside] using bit

theorem messageBits_injective {bytes bytes' : Bytes} (same : messageBits bytes = messageBits bytes') :
    bytes = bytes' := by
  induction bytes generalizing bytes' with
  | nil =>
      have length := congrArg List.length same
      rw [length_messageBits, length_messageBits, List.length_nil] at length
      exact (List.length_eq_zero_iff.mp (by omega)).symm
  | cons byte bytes ih =>
      cases bytes' with
      | nil => cases same
      | cons byte' bytes' =>
          obtain ⟨first, rest⟩ := List.append_inj
            (show byteBits byte ++ messageBits bytes = byteBits byte' ++ messageBits bytes' from same)
            rfl
          rw [byteBits_injective first, ih rest]

/-- A byte at the top of the register. -/
theorem lead_byteBits : ∀ i : Fin 256,
    lead 32 (byteBits (UInt8.ofNat i.val)) = ((UInt8.ofNat i.val).toUInt32 <<< 24).toBitVec := by
  decide +kernel

/-- A step of the checksum feeds the bits of the byte. -/
theorem crcByte_eq_feed (x : UInt32) (byte : UInt8) :
    (crcByte x byte).toBitVec = feed castagnoli.toBitVec x.toBitVec (byteBits byte) := by
  have placed := lead_byteBits ⟨byte.toNat, byte.toNat_lt⟩
  rw [UInt8.ofNat_toNat] at placed
  rw [crcByte, iterate_crcShift, feed_eq_iterate _ _ (by simp), length_byteBits, placed,
    UInt32.toBitVec_xor]

/-- The checksum feeds the bits of the message. -/
theorem crc32c_eq_feed (bytes : Bytes) (x : UInt32) :
    (crc32c bytes x).toBitVec = feed castagnoli.toBitVec x.toBitVec (messageBits bytes) := by
  rw [crc32c_bitwise]
  induction bytes generalizing x with
  | nil => rfl
  | cons byte bytes ih =>
      have step : messageBits (byte :: bytes) = byteBits byte ++ messageBits bytes := rfl
      rw [step, feed_append, ← crcByte_eq_feed, ← ih]
      rfl

/-! ## Damage -/

/-- Messages of one length that differ, with all differing bits within 32 consecutive ones, have
different checksums. -/
theorem crc32c_ne_of_differsWithin {payload payload' : Bytes} (same : payload'.length = payload.length)
    (differ : payload' ≠ payload)
    (burst : DiffersWithin 32 (messageBits payload') (messageBits payload)) (x : UInt32) :
    crc32c payload' x ≠ crc32c payload x := by
  obtain ⟨start, window⟩ := burst
  have lengths : (messageBits payload').length = (messageBits payload).length := by
    rw [length_messageBits, length_messageBits, same]
  set bits := List.zipWith (· ^^ ·) (messageBits payload') (messageBits payload) with hbits
  have at_ (i : ℕ) : bits[i]? = some true ↔ (messageBits payload')[i]? ≠ (messageBits payload)[i]? := by
    rw [hbits, List.getElem?_zipWith]
    by_cases inside : i < (messageBits payload').length
    · rw [List.getElem?_eq_getElem inside, List.getElem?_eq_getElem (lengths ▸ inside)]
      simp
    · rw [List.getElem?_eq_none (by omega), List.getElem?_eq_none (by omega)]
      simp
  have some_one : true ∈ bits := by
    by_contra none
    refine differ (messageBits_injective (List.ext_getElem? fun i => ?_))
    by_contra other
    exact none (List.mem_of_getElem? ((at_ i).mpr other))
  have odd : castagnoli.toBitVec.getLsbD 0 = true := by decide
  have nonzero := feed_ne_zero_of_window odd (fun i one => window i ((at_ i).mp one)) some_one
  intro equal
  have fed := feed_xor castagnoli.toBitVec x.toBitVec x.toBitVec lengths
  rw [← crc32c_eq_feed, ← crc32c_eq_feed, equal, BitVec.xor_self, BitVec.xor_self] at fed
  exact nonzero fed

/-- Behind a payload with another checksum `reader_finish` fails, wherever the pointer is. -/
theorem readerFinish_fails {R : Reader} {payload : Bytes} {crc : UInt32}
    (fits : R.begin + R.data.length + 256 ≤ 2 ^ 64)
    (data : R.data = payload ++ stCrc :: (crcBytes crc ++ [stDot])) (lower : R.begin ≤ R.ptr)
    (upper : R.ptr ≤ R.limit) (closed : R.depth = 0) (other : crc32c payload 0 ≠ crc) :
    ∃ R', readerFinish true R = .error .failed R' := by
  have at_ := Reader.at_ahead fits lower upper
  obtain ⟨done, split, ptr⟩ := at_.split
  obtain ⟨checksum, trailer, enough⟩ | failed := @readerFinish_cases R done R.ahead true fits split
    ptr closed
  · -- the trailer has six bytes, so the pointer is behind the payload
    obtain rfl : checksum = true := enough rfl
    have whole : payload ++ stCrc :: (crcBytes crc ++ [stDot]) =
        done ++ stCrc :: (crcBytes (crc32c done 0) ++ [stDot]) := by
      rw [← data, split, trailer]
      rfl
    obtain ⟨rfl, same⟩ := List.append_inj' whole (by simp)
    obtain ⟨codes, -⟩ := List.append_inj' (List.cons.inj same).2 rfl
    have equal := congrArg (shiftIn 0) codes
    rw [shiftIn_crcBytes, shiftIn_crcBytes] at equal
    exact absurd (UInt32.toNat_inj.mp equal).symm other
  · exact failed

/-- Damage within 32 consecutive bits of a payload changes the checksum, so that
`reader_finish` fails in front of the trailer of the original, wherever the parse has stopped. -/
theorem burst_detected (payload payload' : Bytes) (same : payload'.length = payload.length)
    (differ : payload' ≠ payload)
    (burst : DiffersWithin 32 (messageBits payload') (messageBits payload)) :
    crc32c payload' 0 ≠ crc32c payload 0 ∧
      ∀ R : Reader, R.begin + R.data.length + 256 ≤ 2 ^ 64 →
        R.data = payload' ++ Writer.trailer payload true → R.begin ≤ R.ptr → R.ptr ≤ R.limit →
          R.depth = 0 → ∃ R', readerFinish true R = .error .failed R' := by
  have other := crc32c_ne_of_differsWithin same differ burst 0
  exact ⟨other, fun R fits data lower upper closed =>
    readerFinish_fails fits data lower upper closed other⟩

/-- One byte of a payload has become another one. -/
theorem burst_detected_byte : crc32c [stString.toUInt8, 7] 0 ≠ crc32c [stString.toUInt8, 5] 0 := by
  refine (burst_detected [stString.toUInt8, 5] [stString.toUInt8, 7] rfl (by decide)
    ⟨8, fun i other => ?_⟩).1
  have inside : i < 16 := by
    by_contra outside
    rw [List.getElem?_eq_none (by rw [length_messageBits]; simpa using outside),
      List.getElem?_eq_none (by rw [length_messageBits]; simpa using outside)] at other
    exact other rfl
  revert other
  revert i
  decide

end HybridDatabase.Storage
