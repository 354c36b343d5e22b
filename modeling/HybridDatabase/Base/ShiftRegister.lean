/-
# Shift registers with feedback

A word that is shifted to the left bit by bit; whenever a one leaves the register, the
feedback is added to it.  Addition is exclusive or, and both steps commute with it, so
that the effects of the bits of a word can be computed apart from each other.

A message is fed bit by bit.  Where the feedback is odd, the register does not become empty by
shifts, and so messages that differ within as many places as it has lead to different registers.
-/

import Mathlib.Logic.Function.Iterate
import Mathlib.Tactic.Ring

namespace HybridDatabase.Base

variable {w : ℕ} (feedback : BitVec w)

/-- One shift of the register. -/
def shiftOnce (x : BitVec w) : BitVec w := (x <<< 1) ^^^ (if x.msb then feedback else 0#w)

/-- What leaves the register is the sum of what leaves it from the summands. -/
theorem feedback_xor (first second : Bool) :
    (if first ^^ second then feedback else 0#w) =
      (if first then feedback else 0#w) ^^^ (if second then feedback else 0#w) := by
  cases first <;> cases second <;> simp

/-- A shift is linear. -/
theorem shiftOnce_xor (x y : BitVec w) :
    shiftOnce feedback (x ^^^ y) = shiftOnce feedback x ^^^ shiftOnce feedback y := by
  rw [shiftOnce, BitVec.msb_xor, feedback_xor, BitVec.shiftLeft_xor_distrib, shiftOnce, shiftOnce]
  ac_rfl

/-- Any number of shifts is linear. -/
theorem iterate_shiftOnce_xor (n : ℕ) (x y : BitVec w) :
    (shiftOnce feedback)^[n] (x ^^^ y) =
      (shiftOnce feedback)^[n] x ^^^ (shiftOnce feedback)^[n] y := by
  induction n generalizing x y with
  | zero => rfl
  | succ n ih => rw [Function.iterate_succ_apply, shiftOnce_xor, ih]; rfl

/-- Zeros that leave the register leave nothing behind. -/
theorem iterate_shiftOnce_of_clear {n : ℕ} {x : BitVec w} (clear : x.toNat * 2 ^ n < 2 ^ w) :
    (shiftOnce feedback)^[n] x = x <<< n := by
  induction n generalizing x with
  | zero => simp
  | succ n ih =>
      have double : x.toNat * 2 ^ (n + 1) = x.toNat * 2 * 2 ^ n := by ring
      have low : x.toNat * 2 < 2 ^ w := by
        have grows := Nat.le_mul_of_pos_right (x.toNat * 2) (Nat.two_pow_pos n)
        omega
      have top : x.msb = false := by
        rw [BitVec.msb_eq_false_iff_two_mul_lt]
        omega
      have shifted : shiftOnce feedback x = x <<< 1 := by simp [shiftOnce, top]
      have moved : (x <<< 1).toNat = x.toNat * 2 := by
        rw [BitVec.toNat_shiftLeft, Nat.shiftLeft_eq, pow_one, Nat.mod_eq_of_lt low]
      rw [Function.iterate_succ_apply, shifted, ih (by rw [moved, ← double]; exact clear),
        ← BitVec.shiftLeft_add, Nat.add_comm]

/-- A word is its low bits and its high bits. -/
theorem split_word (n : ℕ) (x : BitVec w) :
    x = (x.setWidth (w - n)).setWidth w ^^^ ((x >>> (w - n)) <<< (w - n)) := by
  ext i inside
  by_cases low : i < w - n
  · simp [low, inside, ← BitVec.getLsbD_eq_getElem]
  · have place : w - n + (i - (w - n)) = i := by omega
    simp [low, inside, place, ← BitVec.getLsbD_eq_getElem]

/-- What `n` shifts make of a word: its low bits move up, and its high bits leave the
register. -/
theorem iterate_shiftOnce_split {n : ℕ} (le : n ≤ w) (x : BitVec w) :
    (shiftOnce feedback)^[n] x =
      x <<< n ^^^ (shiftOnce feedback)^[n] ((x >>> (w - n)) <<< (w - n)) := by
  have clear : ((x.setWidth (w - n)).setWidth w).toNat * 2 ^ n < 2 ^ w := by
    have bound : ((x.setWidth (w - n)).setWidth w).toNat < 2 ^ (w - n) := by
      rw [BitVec.toNat_setWidth, BitVec.toNat_setWidth]
      exact Nat.lt_of_le_of_lt (Nat.mod_le _ _) (Nat.mod_lt _ (Nat.two_pow_pos _))
    have power : 2 ^ w = 2 ^ (w - n) * 2 ^ n := by rw [← pow_add, Nat.sub_add_cancel le]
    rw [power]
    exact Nat.mul_lt_mul_of_pos_right bound (Nat.two_pow_pos n)
  have moved : (x.setWidth (w - n)).setWidth w <<< n = x <<< n := by
    ext i inside
    by_cases low : i < n
    · simp [low]
    · have under : i - n < w - n := by omega
      have below : i - n < w := by omega
      simp [low, under, below, ← BitVec.getLsbD_eq_getElem]
  conv_lhs => rw [split_word n x]
  rw [iterate_shiftOnce_xor, iterate_shiftOnce_of_clear feedback clear, moved]

/-! ## Messages -/

/-- A bit at the top of the register. -/
def top (w : ℕ) (bit : Bool) : BitVec w := if bit then BitVec.twoPow w (w - 1) else 0#w

/-- The register after the bits of a message, each of which enters at the top. -/
def feed (x : BitVec w) (bits : List Bool) : BitVec w :=
  bits.foldl (fun x bit => shiftOnce feedback (x ^^^ top w bit)) x

/-- Bits from the top downwards. -/
def lead (w : ℕ) : List Bool → BitVec w
  | [] => 0#w
  | bit :: bits => top w bit ^^^ (lead w bits >>> 1)

theorem feed_append (x : BitVec w) (bits bits' : List Bool) :
    feed feedback x (bits ++ bits') = feed feedback (feed feedback x bits) bits' :=
  List.foldl_append

theorem top_xor (bit bit' : Bool) : top w (bit ^^ bit') = top w bit ^^^ top w bit' := by
  cases bit <;> cases bit' <;> simp [top]

/-- Messages of one length can be fed apart from each other. -/
theorem feed_xor (x y : BitVec w) {bits bits' : List Bool} (same : bits.length = bits'.length) :
    feed feedback (x ^^^ y) (List.zipWith (· ^^ ·) bits bits') =
      feed feedback x bits ^^^ feed feedback y bits' := by
  induction bits generalizing bits' x y with
  | nil =>
      obtain rfl := List.length_eq_zero_iff.mp same.symm
      rfl
  | cons bit bits ih =>
      cases bits' with
      | nil => cases same
      | cons bit' bits' =>
          have step : shiftOnce feedback (x ^^^ y ^^^ top w (bit ^^ bit')) =
              shiftOnce feedback (x ^^^ top w bit) ^^^ shiftOnce feedback (y ^^^ top w bit') := by
            rw [← shiftOnce_xor, top_xor]
            congr 1
            ac_rfl
          have rest := ih (shiftOnce feedback (x ^^^ top w bit))
            (shiftOnce feedback (y ^^^ top w bit')) (Nat.succ.inj same)
          rw [← step] at rest
          exact rest

theorem getMsbD_top (bit : Bool) (i : ℕ) :
    (top w bit).getMsbD i = (bit && decide (i = 0 ∧ 0 < w)) := by
  cases bit with
  | false => simp [top]
  | true =>
      rw [top, if_pos rfl, BitVec.getMsbD, BitVec.getLsbD_twoPow, Bool.true_and,
        Bool.eq_iff_iff, Bool.and_eq_true, Bool.and_eq_true, decide_eq_true_iff,
        decide_eq_true_iff, decide_eq_true_iff, decide_eq_true_iff]
      omega

/-- The bits stand in the register as in the message. -/
theorem getMsbD_lead (bits : List Bool) {i : ℕ} (inside : i < w) :
    (lead w bits).getMsbD i = bits.getD i false := by
  induction bits generalizing i with
  | nil => simp [lead]
  | cons bit bits ih =>
      rw [lead, BitVec.getMsbD_xor, getMsbD_top, BitVec.getMsbD_ushiftRight]
      cases i with
      | zero => simp [inside]
      | succ i =>
          have older := ih (show i < w by omega)
          simp [inside, older]

/-- Behind a free place the first shift only moves. -/
theorem shiftOnce_lead {bits : List Bool} (short : bits.length < w) :
    shiftOnce feedback (lead w bits >>> 1) = lead w bits := by
  have clear : (lead w bits >>> 1).msb = false := by
    rw [BitVec.msb, BitVec.getMsbD_ushiftRight]
    simp
  rw [shiftOnce, clear]
  apply BitVec.eq_of_getMsbD_eq
  intro i inside
  rw [if_neg (by simp), BitVec.getMsbD_xor, BitVec.getMsbD_shiftLeft, BitVec.getMsbD_ushiftRight]
  by_cases last : i + 1 < w
  · simp [last]
  · have none : (lead w bits).getMsbD i = false := by
      rw [getMsbD_lead bits inside, List.getD, List.getElem?_eq_none (by omega)]
      rfl
    simp [last, none]

/-- Bits that fit into the register can be put there at once. -/
theorem feed_eq_iterate (x : BitVec w) {bits : List Bool} (short : bits.length ≤ w) :
    feed feedback x bits = (shiftOnce feedback)^[bits.length] (x ^^^ lead w bits) := by
  induction bits generalizing x with
  | nil => simp [feed, lead]
  | cons bit bits ih =>
      rw [List.length_cons] at short
      have step : feed feedback x (bit :: bits) =
          feed feedback (shiftOnce feedback (x ^^^ top w bit)) bits := rfl
      rw [step, ih _ (by omega), List.length_cons, Function.iterate_succ_apply, lead,
        ← BitVec.xor_assoc, shiftOnce_xor _ (x ^^^ top w bit), shiftOnce_lead feedback (by omega)]

/-! ## Bursts -/

variable {feedback}

/-- A register with a word in it does not become empty by shifts. -/
theorem shiftOnce_ne_zero (odd : feedback.getLsbD 0 = true) {x : BitVec w} (nonzero : x ≠ 0#w) :
    shiftOnce feedback x ≠ 0#w := by
  intro zero
  have positive : 0 < w := by
    by_contra empty
    obtain rfl : w = 0 := by omega
    exact nonzero (BitVec.of_length_zero)
  cases high : x.msb with
  | true =>
      have lowest := congrArg (BitVec.getLsbD · 0) zero
      rw [shiftOnce, high, if_pos rfl] at lowest
      rw [BitVec.getLsbD_eq_getElem positive] at odd
      simp [odd, positive] at lowest
  | false =>
      refine nonzero (BitVec.eq_of_getMsbD_eq fun i inside => ?_)
      rw [shiftOnce, high, if_neg (by simp)] at zero
      cases i with
      | zero =>
          rw [BitVec.msb] at high
          simp [high]
      | succ i =>
          have bit := congrArg (BitVec.getMsbD · i) zero
          simpa using bit

theorem feed_zeros (odd : feedback.getLsbD 0 = true) {x : BitVec w} (nonzero : x ≠ 0#w)
    {bits : List Bool} (zeros : ∀ bit ∈ bits, bit = false) : feed feedback x bits ≠ 0#w := by
  induction bits generalizing x with
  | nil => exact nonzero
  | cons bit bits ih =>
      obtain rfl := zeros bit List.mem_cons_self
      have same : x ^^^ top w false = x := by simp [top]
      have step : feed feedback x (false :: bits) =
          feed feedback (shiftOnce feedback (x ^^^ top w false)) bits := rfl
      rw [step, same]
      exact ih (shiftOnce_ne_zero odd nonzero) fun bit inside =>
        zeros bit (List.mem_cons_of_mem _ inside)

theorem feed_zeros_zero {bits : List Bool} (zeros : ∀ bit ∈ bits, bit = false) :
    feed feedback 0#w bits = 0#w := by
  induction bits with
  | nil => rfl
  | cons bit bits ih =>
      obtain rfl := zeros bit List.mem_cons_self
      have same : shiftOnce feedback (0#w ^^^ top w false) = 0#w := by simp [top, shiftOnce]
      have step : feed feedback 0#w (false :: bits) =
          feed feedback (shiftOnce feedback (0#w ^^^ top w false)) bits := rfl
      rw [step, same]
      exact ih fun bit inside => zeros bit (List.mem_cons_of_mem _ inside)

/-- A message whose ones stand within as many places as the register has leaves something in it. -/
theorem feed_ne_zero_of_window (odd : feedback.getLsbD 0 = true) {bits : List Bool} {start : ℕ}
    (window : ∀ i, bits[i]? = some true → start ≤ i ∧ i < start + w) (some_one : true ∈ bits) :
    feed feedback 0#w bits ≠ 0#w := by
  have split : bits.take start ++ ((bits.drop start).take w ++ bits.drop (start + w)) = bits := by
    rw [← List.drop_drop, List.take_append_drop, List.take_append_drop]
  have before : ∀ bit ∈ bits.take start, bit = false := by
    intro bit inside
    obtain ⟨i, at_⟩ := List.mem_iff_getElem?.mp inside
    have low := (List.getElem?_eq_some_iff.mp at_).1
    rw [List.length_take] at low
    rw [List.getElem?_take_of_lt (by omega)] at at_
    by_contra one
    have := window i (by rw [at_, Bool.eq_true_of_not_eq_false one])
    omega
  have behind : ∀ bit ∈ bits.drop (start + w), bit = false := by
    intro bit inside
    obtain ⟨i, at_⟩ := List.mem_iff_getElem?.mp inside
    rw [List.getElem?_drop] at at_
    by_contra one
    have := window _ (by rw [at_, Bool.eq_true_of_not_eq_false one])
    omega
  have short : ((bits.drop start).take w).length ≤ w := List.length_take_le _ _
  rw [← split, feed_append, feed_zeros_zero before, feed_append]
  refine feed_zeros odd ?_ behind
  rw [feed_eq_iterate feedback _ short, BitVec.zero_xor]
  have nonzero : lead w ((bits.drop start).take w) ≠ 0#w := by
    intro zero
    obtain ⟨i, one⟩ := List.mem_iff_getElem?.mp some_one
    obtain ⟨low, high⟩ := window i one
    have bit := getMsbD_lead ((bits.drop start).take w) (show i - start < w by omega)
    have place : start + (i - start) = i := by omega
    rw [zero, List.getD, List.getElem?_take_of_lt (by omega), List.getElem?_drop, place, one] at bit
    simp at bit
  generalize ((bits.drop start).take w).length = n
  induction n with
  | zero => exact nonzero
  | succ n ih =>
      rw [Function.iterate_succ_apply']
      exact shiftOnce_ne_zero odd ih

end HybridDatabase.Base
