/-
# Control characters and number codes of the storage format

The lower layer of the file format is a sequence of bytes in which every element
starts with a control code.  Codes below `stString` are punctuation; a code
`stString + n` announces a string of `n` bytes.  This module holds the codes
themselves, the little-endian loops shared by reader and writer, and the
variable-width code of `_write_number`, together with the arithmetic that says
that the two directions are inverse.
-/

import Mathlib.Data.List.Basic
import Mathlib.Tactic.NormNum
import Mathlib.Tactic.Ring

namespace HybridDatabase.Storage

/-- A run of bytes as it lies in memory or in a file. -/
abbrev Bytes := List UInt8

/-! ## Control characters -/

/-- Start of an array. -/
def stArrayBegin : UInt8 := 0x01

/-- End of an array. -/
def stArrayEnd : UInt8 := 0x03

/-- End of a root element. -/
def stDot : UInt8 := 0x02

/-- Start of the length of a root element. -/
def stLenBegin : UInt8 := 0x07

/-- End of the length of a root element. -/
def stLenEnd : UInt8 := 0x09

/-- Mark of the checksum. -/
def stCrc : UInt8 := 0x04

/-- Offset added to the lengths of strings. -/
def stString : ℕ := 16

/-! ## Little-endian numbers -/

/-- The `k` low bytes of `n`, lowest first: the body of every
`for (…; n >>= 8) … = n & 0xFF` loop. -/
def leBytes : ℕ → ℕ → Bytes
  | 0, _ => []
  | k + 1, n => UInt8.ofNat n :: leBytes k (n / 256)

/-- The loop `for (i = l - 1; i >= 0; i--) len = (len << 8) | ptr[i]`, which
starts from the byte with the highest index. -/
def shiftIn (len : ℕ) (bytes : Bytes) : ℕ :=
  bytes.foldr (fun byte acc => (acc <<< 8) ||| byte.toNat) len

@[simp]
theorem length_leBytes (k n : ℕ) : (leBytes k n).length = k := by
  induction k generalizing n with
  | zero => rfl
  | succ k ih => simp [leBytes, ih]

/-- Shifting a byte in is multiplication, because the low byte is free. -/
theorem shiftIn_cons (len : ℕ) (byte : UInt8) (bytes : Bytes) :
    shiftIn len (byte :: bytes) = shiftIn len bytes * 256 + byte.toNat := by
  have low : byte.toNat < 2 ^ 8 := byte.toNat_lt
  simp only [shiftIn, List.foldr_cons]
  rw [← Nat.shiftLeft_add_eq_or_of_lt low, Nat.shiftLeft_eq]

@[simp]
theorem shiftIn_nil (len : ℕ) : shiftIn len [] = len := rfl

/-- Reading back the `k` low bytes of `n` on top of `len`. -/
theorem shiftIn_leBytes (len k n : ℕ) :
    shiftIn len (leBytes k n) = len * 256 ^ k + n % 256 ^ k := by
  induction k generalizing n with
  | zero => simp [leBytes, Nat.mod_one]
  | succ k ih =>
      have byte : (UInt8.ofNat n).toNat = n % 256 := by simp
      rw [leBytes, shiftIn_cons, ih, byte, pow_succ', Nat.mod_mul]
      ring

theorem shiftIn_leBytes_of_lt {k n : ℕ} (fits : n < 256 ^ k) :
    shiftIn 0 (leBytes k n) = n := by
  rw [shiftIn_leBytes, Nat.zero_mul, Nat.zero_add, Nat.mod_eq_of_lt fits]

theorem shiftIn_lt (bytes : Bytes) : shiftIn 0 bytes < 256 ^ bytes.length := by
  induction bytes with
  | nil => simp
  | cons byte bytes ih =>
      have low : byte.toNat < 256 := byte.toNat_lt
      rw [shiftIn_cons, List.length_cons, pow_succ]
      omega

/-- Bytes are the number that is shifted in from them. -/
theorem leBytes_shiftIn (bytes : Bytes) : leBytes bytes.length (shiftIn 0 bytes) = bytes := by
  induction bytes with
  | nil => rfl
  | cons byte bytes ih =>
      have low : byte.toNat < 256 := byte.toNat_lt
      have rest : (shiftIn 0 bytes * 256 + byte.toNat) / 256 = shiftIn 0 bytes := by omega
      have first : UInt8.ofNat (shiftIn 0 bytes * 256 + byte.toNat) = byte :=
        UInt8.toNat_inj.mp (by rw [UInt8.toNat_ofNat']; omega)
      rw [shiftIn_cons, List.length_cons, leBytes, rest, ih, first]

/-! ## Numbers stored as strings -/

/-- The bytes `write_number` stores after the length byte: the low bytes of the
number up to its highest non-zero one.  A 64-bit number has at most eight, which
bounds the loop. -/
def numberDigits : ℕ → ℕ → Bytes
  | 0, _ => []
  | k + 1, n => if n = 0 then [] else UInt8.ofNat n :: numberDigits k (n / 256)

/-- The digits of a 64-bit number. -/
abbrev numberBytes (n : ℕ) : Bytes := numberDigits 8 n

theorem length_numberDigits (k n : ℕ) : (numberDigits k n).length ≤ k := by
  induction k generalizing n with
  | zero => simp [numberDigits]
  | succ k ih =>
      rw [numberDigits]
      split
      · simp
      · simpa using ih (n / 256)

theorem length_numberBytes (n : ℕ) : (numberBytes n).length ≤ 8 := length_numberDigits 8 n

/-- The digits read back as the number they were cut from. -/
theorem shiftIn_numberDigits {k n : ℕ} (fits : n < 256 ^ k) :
    shiftIn 0 (numberDigits k n) = n := by
  induction k generalizing n with
  | zero =>
      have : n = 0 := by simpa using fits
      simp [numberDigits, this]
  | succ k ih =>
      by_cases zero : n = 0
      · simp [numberDigits, zero]
      · have quotient : n / 256 < 256 ^ k := by
          rw [Nat.div_lt_iff_lt_mul (by decide)]
          simpa [pow_succ] using fits
        have byte : (UInt8.ofNat n).toNat = n % 256 := by simp
        rw [numberDigits, if_neg zero, shiftIn_cons, ih quotient, byte]
        omega

/-! ## Control codes of variable width -/

/-- The loop of `_write_number` when `max` is `2 ^ k`: the bytes stored behind the
first one and what is left of `n`.  For `n < 2 ^ 56` it ends before `max` does. -/
def writeNumberLoop : ℕ → ℕ → Bytes × ℕ
  | 0, n => ([], n)
  | k + 1, n =>
      if 2 ^ (k + 1) ≤ n then
        let (stored, rest) := writeNumberLoop k (n / 256)
        (UInt8.ofNat n :: stored, rest)
      else ([], n)

/-- The bytes `_write_number` stores from `W->ptr` on. -/
def writeNumberCode (n : ℕ) : Bytes :=
  if n < 2 ^ 7 then [UInt8.ofNat n]
  else if 2 ^ 56 ≤ n then 0xFF :: leBytes 8 n
  else
    let (stored, rest) := writeNumberLoop 7 n
    UInt8.ofNat ((0xFF ^^^ (0xFF >>> stored.length)) ||| rest) :: stored

/-- `for (unsigned i = first; i & 0x80; i <<= 1) l++`; bit 7 of the shifted word
is bit `7 - l` of the byte, so eight rounds are enough. -/
def leadingOnes : ℕ → ℕ → ℕ
  | 0, _ => 0
  | rounds + 1, i => if i &&& 0x80 = 0 then 0 else leadingOnes rounds (i <<< 1) + 1

/-- The number of bytes that follow the first byte of a code. -/
def codeTail (first : UInt8) : ℕ :=
  if first < 0x80 then 0 else if first = 0xFF then 8 else leadingOnes 8 first.toNat

/-- The value `read_string` assembles from a first byte and the bytes after it,
before it subtracts `stString`. -/
def codeValue (first : UInt8) (tail : Bytes) : ℕ :=
  if first < 0x80 then first.toNat
  else if first = 0xFF then shiftIn 0 tail
  else shiftIn (first.toNat &&& (0xFF >>> leadingOnes 8 first.toNat)) tail

/-- The loop stores exactly the low bytes of `n` and keeps the rest, which fits
below the marker bit. -/
theorem writeNumberLoop_spec (k n : ℕ) (fits : n < 2 ^ (8 * k)) :
    ∃ l rest, writeNumberLoop k n = (leBytes l n, rest) ∧ l ≤ k ∧
      rest < 2 ^ (k - l) ∧ n = rest * 256 ^ l + n % 256 ^ l ∧ (2 ^ k ≤ n → 0 < l) := by
  induction k generalizing n with
  | zero =>
      have zero : n = 0 := by simpa using fits
      exact ⟨0, n, by simp [writeNumberLoop, leBytes], le_refl 0, by simp [zero],
        by simp [Nat.mod_one], by simp [zero]⟩
  | succ k ih =>
      by_cases big : 2 ^ (k + 1) ≤ n
      · have quotient : n / 256 < 2 ^ (8 * k) := by
          rw [Nat.div_lt_iff_lt_mul (by decide)]
          calc n < 2 ^ (8 * (k + 1)) := fits
            _ = 2 ^ (8 * k) * 256 := by rw [Nat.mul_succ, pow_add]; norm_num
        obtain ⟨l, rest, loop, lle, small, value, _⟩ := ih (n / 256) quotient
        refine ⟨l + 1, rest, ?_, Nat.succ_le_succ lle, by simpa using small, ?_, by simp⟩
        · simp [writeNumberLoop, big, loop, leBytes]
        · have split : n = n / 256 * 256 + n % 256 := by omega
          have low : n % 256 ^ (l + 1) = n / 256 % 256 ^ l * 256 + n % 256 := by
            rw [pow_succ', Nat.mod_mul]
            ring
          calc n = (rest * 256 ^ l + n / 256 % 256 ^ l) * 256 + n % 256 := by
                rw [← value]; exact split
            _ = rest * 256 ^ (l + 1) + n % 256 ^ (l + 1) := by
                rw [low, pow_succ]; ring
      · exact ⟨0, n, by simp [writeNumberLoop, big, leBytes], Nat.zero_le _,
          by simpa using big, by simp [Nat.mod_one], fun h => absurd h big⟩

/-- What the reader's bit tests see in a first byte made of `l` ones, a zero and
`rest`. -/
theorem firstByte_bits : ∀ l < 8, 0 < l → ∀ rest < 2 ^ (7 - l),
    (0xFF ^^^ (0xFF >>> l)) ||| rest < 255 ∧ 128 ≤ (0xFF ^^^ (0xFF >>> l)) ||| rest ∧
    leadingOnes 8 ((0xFF ^^^ (0xFF >>> l)) ||| rest) = l ∧
    ((0xFF ^^^ (0xFF >>> l)) ||| rest) &&& (0xFF >>> l) = rest := by
  decide

/-- Decoding undoes `_write_number` for every 64-bit number, whatever its width. -/
theorem writeNumberCode_spec (n : ℕ) (fits : n < 2 ^ 64) :
    ∃ first tail, writeNumberCode n = first :: tail ∧ tail.length = codeTail first ∧
      tail.length ≤ 8 ∧ codeValue first tail = n ∧ (stString ≤ n → stString ≤ first.toNat) := by
  by_cases small : n < 2 ^ 7
  · have value : (UInt8.ofNat n).toNat = n := by
      rw [UInt8.toNat_ofNat']; omega
    have low : UInt8.ofNat n < 0x80 := by
      rw [UInt8.lt_iff_toNat_lt, value]; simpa using small
    exact ⟨UInt8.ofNat n, [], by rw [writeNumberCode, if_pos small], by simp [codeTail, low], by simp,
      by simp [codeValue, low, value], fun h => by rw [value]; exact h⟩
  · by_cases large : 2 ^ 56 ≤ n
    · refine ⟨0xFF, leBytes 8 n, by rw [writeNumberCode, if_neg small, if_pos large], by simp [codeTail],
        by simp, ?_, fun _ => by decide⟩
      have : n < 256 ^ 8 := by simpa using fits
      simpa [codeValue] using shiftIn_leBytes_of_lt this
    · obtain ⟨l, rest, loop, lle, below, value, positive⟩ :=
        writeNumberLoop_spec 7 n (by simpa using large)
      have lpos : 0 < l := positive (by simpa using small)
      obtain ⟨upper, lower, ones, mask⟩ := firstByte_bits l (by omega) lpos rest below
      set first := (0xFF ^^^ (0xFF >>> l)) ||| rest with hfirst
      have byte : (UInt8.ofNat first).toNat = first := by
        rw [UInt8.toNat_ofNat']; omega
      have notLow : ¬ UInt8.ofNat first < 0x80 := by
        rw [UInt8.lt_iff_toNat_lt, byte]; simpa using lower
      have notFull : UInt8.ofNat first ≠ 0xFF := by
        intro h
        have := congrArg UInt8.toNat h
        rw [byte] at this
        simp at this
        omega
      refine ⟨UInt8.ofNat first, leBytes l n, ?_, ?_, ?_, ?_, ?_⟩
      · rw [writeNumberCode, if_neg small, if_neg large, loop, hfirst]
        simp only [length_leBytes]
      · simp [codeTail, notLow, notFull, byte, ones]
      · simpa using Nat.le_succ_of_le lle
      · simp only [codeValue, notLow, notFull, if_false, byte, ones, mask]
        rw [shiftIn_leBytes, ← value]
      · intro _
        rw [byte, stString]
        omega

end HybridDatabase.Storage
