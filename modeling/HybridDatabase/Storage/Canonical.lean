/-
# The codes of numbers

The code of a number says in its first byte how long it is, so that no code goes on where
another one ends.  A longer code than necessary is read as well, but the writer never uses
one: what it writes is the shortest of all codes of the number.
-/

import HybridDatabase.Storage.Grammar

namespace HybridDatabase.Storage

/-! ## Codes and `read_string` -/

variable {R : Reader} {n : ℕ} {code rest : Bytes}

/-- In front of a code the decoding part of `read_string` takes it. -/
theorem IsCode.read (isCode : IsCode n code) (at_ : R.At (code ++ rest)) :
    readCode R = .ok n (R.skip code.length) := by
  obtain ⟨first, tail, rfl, high, length, rfl⟩ := isCode
  rw [List.cons_append] at at_
  rw [readCode_whole at_ high (by rw [List.length_append]; omega), ← length, List.take_left,
    List.length_cons, Nat.add_comm]

/-- It takes nothing but codes. -/
theorem isCode_of_read (at_ : R.At (code ++ rest))
    (read : readCode R = .ok n (R.skip code.length)) : IsCode n code := by
  cases ahead : code ++ rest with
  | nil =>
      rw [ahead] at at_
      have short := ensureSpace_short at_ Nat.zero_lt_one (by decide)
      unfold readCode at read
      rw [Base.bind_error short] at read
      cases read
  | cons first tail =>
      rw [ahead] at at_
      by_cases high : stString ≤ first.toNat
      · by_cases whole : codeTail first ≤ tail.length
        · rw [readCode_whole at_ high whole] at read
          injection read with value place
          have length : R.ptr + (1 + codeTail first) = R.ptr + code.length :=
            congrArg Reader.ptr place
          have front : code = first :: tail.take (codeTail first) := by
            have taken := congrArg (List.take code.length) ahead
            rw [List.take_left, show code.length = codeTail first + 1 by omega,
              List.take_succ_cons] at taken
            exact taken
          exact ⟨first, _, front, high, List.length_take_of_le whole, value⟩
        · rw [readCode_torn at_ high (Nat.not_le.mp whole)] at read
          cases read
      · have room : ensureSpace 1 R = .ok () R :=
          ensureSpace_at (show R.At ([first] ++ tail) from at_)
        have refused : check (stString ≤ first.toNat) (R.skip 1) = .error .failed (R.skip 1) := by
          simp [check, high]
        unfold readCode at read
        rw [Base.bind_ok room, Base.bind_ok (takeByte_at at_), Base.bind_error refused] at read
        cases read

/-! ## The shortest code -/

/-- The loop stores no more bytes than the number needs. -/
theorem length_writeNumberLoop_le (k n i : ℕ) (small : n < 2 ^ (k + 7 * i)) :
    (writeNumberLoop k n).1.length ≤ i := by
  induction k generalizing n i with
  | zero => exact Nat.zero_le i
  | succ k ih =>
      rw [writeNumberLoop]
      by_cases more : 2 ^ (k + 1) ≤ n
      · rw [if_pos more]
        obtain ⟨i, rfl⟩ : ∃ j, i = j + 1 := by
          refine ⟨i - 1, (Nat.succ_pred fun none => ?_).symm⟩
          rw [none, Nat.mul_zero, Nat.add_zero] at small
          omega
        have fewer : n / 256 < 2 ^ (k + 7 * i) := by
          rw [Nat.div_lt_iff_lt_mul (by decide), show 256 = 2 ^ 8 from rfl, ← pow_add]
          rwa [show k + 7 * i + 8 = k + 1 + 7 * (i + 1) by ring]
        exact Nat.succ_le_succ (ih (n / 256) i fewer)
      · rw [if_neg more]
        exact Nat.zero_le i

/-- A number of `7 * (i + 1)` bits is written in `i + 1` bytes. -/
theorem length_writeNumberCode_le {i : ℕ} (few : i ≤ 7) (small : n < 2 ^ (7 * (i + 1))) :
    (writeNumberCode n).length ≤ i + 1 := by
  have fits : 7 * (i + 1) ≤ 56 := by omega
  have low : n < 2 ^ 56 := small.trans_le (Nat.pow_le_pow_right (by decide) fits)
  unfold writeNumberCode
  split
  · exact Nat.le_add_left 1 i
  · rw [if_neg (Nat.not_le.mpr low)]
    have bytes := length_writeNumberLoop_le 7 n i (by rwa [show 7 + 7 * i = 7 * (i + 1) by ring])
    exact Nat.succ_le_succ bytes

/-- No code of a number is shorter than the one that is written. -/
theorem IsCode.length_le (isCode : IsCode n code) : (writeNumberCode n).length ≤ code.length := by
  obtain ⟨first, tail, rfl, -, length, rfl⟩ := isCode
  rw [List.length_cons, length]
  by_cases full : first = 0xFF
  · obtain ⟨mark, digits, written, -, short, -⟩ :=
      writeNumberCode_spec _ (codeValue_lt length)
    rw [written, List.length_cons, full]
    exact Nat.succ_le_succ short
  · obtain ⟨few, small⟩ := codeValue_lt_of_short length full
    exact length_writeNumberCode_le few small

/-! ## The codes that are written -/

/-- The code of a number is read back whatever follows, it is the shortest one, no code of
another number begins with it, and it fits into the bytes that `write_string` reserves. -/
structure SelfDelimiting (n : ℕ) : Prop where
  length_le : (writeNumberCode n).length ≤ 9
  decodes : ∀ (R : Reader) (rest : Bytes), R.At (writeNumberCode n ++ rest) →
    readCode R = .ok n (R.skip (writeNumberCode n).length)
  shortest : ∀ (code : Bytes) (R : Reader) (rest : Bytes), R.At (code ++ rest) →
    readCode R = .ok n (R.skip code.length) → (writeNumberCode n).length ≤ code.length
  notPrefix : ∀ m, stString ≤ m → m < 2 ^ 64 → m ≠ n →
    ¬writeNumberCode n <+: writeNumberCode m
  reserved : ∀ (W : Writer) (out body contents : Bytes), W.Holds out body →
    contents.length + stString = n → (W.writeString contents).isSome

/-- Two codes one of which begins with the other are the same. -/
theorem IsCode.eq_of_front {m : ℕ} {code' : Bytes} (isCode : IsCode n code)
    (isCode' : IsCode m code') (front : code <+: code') : m = n := by
  obtain ⟨first, tail, rfl, -, length, rfl⟩ := isCode
  obtain ⟨first', tail', rfl, -, length', rfl⟩ := isCode'
  obtain ⟨rfl, starts⟩ := List.cons_prefix_cons.mp front
  rw [starts.eq_of_length (length.trans length'.symm)]

theorem selfDelimiting (n : ℕ) (low : stString ≤ n) (fits : n < 2 ^ 64) : SelfDelimiting n where
  length_le := by
    obtain ⟨first, tail, code, -, short, -, -⟩ := writeNumberCode_spec n fits
    rw [code, List.length_cons]
    omega
  decodes R rest at_ := (isCode_writeNumberCode low fits).read at_
  shortest code R rest at_ read := (isCode_of_read at_ read).length_le
  notPrefix m low' fits' other front := other
    ((isCode_writeNumberCode low fits).eq_of_front (isCode_writeNumberCode low' fits') front)
  reserved W out body contents holds length := by
    obtain ⟨W', written, -⟩ := holds.writeString (show contents.length + stString < 2 ^ 64 by omega)
    rw [written]
    rfl

/-- The first number in two bytes. -/
theorem selfDelimiting_128 : SelfDelimiting 128 := selfDelimiting 128 (by decide) (by decide)

end HybridDatabase.Storage
