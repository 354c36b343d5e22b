/-
# The checksum bit by bit

The checksum is a remainder of polynomials over two elements: the bits of the message
are shifted through a register of 32 bits with the Castagnoli polynomial as feedback.
The table of `crc32_c` holds what eight shifts make of each byte.
-/

import HybridDatabase.Base.ShiftRegister
import HybridDatabase.Storage.Crc

namespace HybridDatabase.Storage

open HybridDatabase.Base

/-- The Castagnoli polynomial without its leading term. -/
def castagnoli : UInt32 := 0x1EDC6F41

/-- One shift of the checksum. -/
def crcShift (x : UInt32) : UInt32 := (x <<< 1) ^^^ (if x.toBitVec.msb then castagnoli else 0)

/-- The checksum after another byte, which enters at the top. -/
def crcByte (x : UInt32) (byte : UInt8) : UInt32 := crcShift^[8] (x ^^^ (byte.toUInt32 <<< 24))

/-- The checksum of `bytes` started from `x`, computed bit by bit. -/
def crcBits (bytes : Bytes) (x : UInt32) : UInt32 := bytes.foldl crcByte x

/-! ## The table -/

theorem iterate_crcShift (n : ℕ) (x : UInt32) :
    (crcShift^[n] x).toBitVec = (shiftOnce castagnoli.toBitVec)^[n] x.toBitVec := by
  induction n generalizing x with
  | zero => rfl
  | succ n ih =>
      have once : (crcShift x).toBitVec = shiftOnce castagnoli.toBitVec x.toBitVec := by
        unfold crcShift shiftOnce
        split <;> simp
      rw [Function.iterate_succ_apply, ih, once, Function.iterate_succ_apply]

/-- The constants of the table. -/
theorem crc32cTable_eq : ∀ i : Fin 256,
    crc32cTable.getD i.val 0 = crcShift^[8] (UInt32.ofNat i.val <<< 24) := by
  decide +kernel

/-- Eight shifts, done by the table. -/
theorem iterate_crcShift_eight (x : UInt32) :
    crcShift^[8] x = (x <<< 8) ^^^ crc32cTable.getD (x >>> 24).toNat 0 := by
  have bound : (x >>> 24).toNat < 256 := by
    have high := x.toNat_lt
    have quotient : (x >>> 24).toNat = x.toNat / 2 ^ 24 := by
      rw [UInt32.toNat_shiftRight, Nat.shiftRight_eq_div_pow]
      rfl
    omega
  have entry := crc32cTable_eq ⟨(x >>> 24).toNat, bound⟩
  rw [entry, UInt32.ofNat_toNat]
  apply UInt32.toBitVec_inj.mp
  rw [iterate_crcShift, iterate_shiftOnce_split _ (by decide), UInt32.toBitVec_xor,
    iterate_crcShift]
  rfl

/-- A step of `crc32_c`. -/
theorem crcByte_eq (x : UInt32) (byte : UInt8) :
    crcByte x byte =
      (x <<< 8) ^^^ crc32cTable.getD (((x >>> 24) ^^^ byte.toUInt32) &&& 0xFF).toNat 0 := by
  have moved : (x ^^^ (byte.toUInt32 <<< 24)) <<< 8 = x <<< 8 := by
    apply UInt32.toBitVec_inj.mp
    ext i inside
    by_cases low : i < 8
    · simp [low]
    · have gone : i - 8 < 24 := by omega
      simp [low, gone]
  have index : (x ^^^ (byte.toUInt32 <<< 24)) >>> 24 = ((x >>> 24) ^^^ byte.toUInt32) &&& 0xFF := by
    apply UInt32.toBitVec_inj.mp
    ext i inside
    have mask : (255#32).getLsbD i = decide (i < 8) := by
      rw [BitVec.getLsbD_ofNat, show (255 : ℕ) = 2 ^ 8 - 1 by rfl, Nat.testBit_two_pow_sub_one]
      simp [inside]
    by_cases low : i < 8
    · have place : 24 + i < 32 := by omega
      simp [low, place, mask, ← BitVec.getLsbD_eq_getElem]
    · have gone : x.toBitVec.getLsbD (24 + i) = false := BitVec.getLsbD_of_ge _ _ (by omega)
      have none : byte.toBitVec.getLsbD i = false := BitVec.getLsbD_of_ge _ _ (by omega)
      simp [low, gone, none, mask, ← BitVec.getLsbD_eq_getElem]
  rw [crcByte, iterate_crcShift_eight, moved, index]

theorem crc32c_bitwise (bytes : Bytes) (x : UInt32) : crc32c bytes x = crcBits bytes x := by
  unfold crc32c crcBits
  congr 1
  funext x byte
  exact (crcByte_eq x byte).symm

/-- `crc32_c` is the remainder computed bit by bit, and a message can be checked in
parts. -/
theorem crc32c_eq_crcBits (bytes : Bytes) (x : UInt32) :
    crc32c bytes x = crcBits bytes x ∧
      ∀ more, crc32c (bytes ++ more) x = crc32c more (crc32c bytes x) :=
  ⟨crc32c_bitwise bytes x, fun _ => List.foldl_append⟩

end HybridDatabase.Storage
