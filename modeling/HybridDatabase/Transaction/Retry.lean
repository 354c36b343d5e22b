/-
# The delay before a restart

A transaction that could not be committed is started again after a delay.  The delay is
doubled for every restart there has been, and it is bounded from above afterwards: so many
doublings that the number leaves its 64 bits make the delay disappear.
-/

import Mathlib.Tactic.NormNum
import Mathlib.Tactic.Ring

namespace HybridDatabase.Transaction

/-! ## The source -/

/-- The rounds of `while (--loop > 0) t *= 2`. -/
def doubled : ℕ → UInt64 → UInt64
  | 0, t => t
  | rounds + 1, t => doubled rounds (t * 2)

/-- `t` in `_tr_retry_wait` before `rand() % 500000` is added, in nanoseconds. -/
def trRetryWait (loop : ℕ) : UInt64 :=
  let t := doubled (loop - 1) 10000
  if t > 100000000 then 100000000 else t

/-! ## The law -/

/-- The delay before the restart number `loop`: it is the doubled one with its bound, and it
is not shorter than the delay before. -/
def DelayGrows (loop : ℕ) : Prop :=
  (trRetryWait loop).toNat = min (10000 * 2 ^ (loop - 1)) 100000000 ∧
    (1 < loop → trRetryWait (loop - 1) ≤ trRetryWait loop)

theorem toNat_doubled (rounds : ℕ) (t : UInt64) :
    (doubled rounds t).toNat = t.toNat * 2 ^ rounds % 2 ^ 64 := by
  induction rounds generalizing t with
  | zero =>
      rw [doubled, pow_zero, Nat.mul_one, Nat.mod_eq_of_lt t.toNat_lt]
  | succ rounds ih =>
      have twice : (t * 2).toNat = t.toNat * 2 % 2 ^ 64 := UInt64.toNat_mul t 2
      rw [doubled, ih, twice, Nat.mod_mul_mod, Nat.mul_assoc, ← pow_succ']

theorem toNat_trRetryWait (loop : ℕ) :
    (trRetryWait loop).toNat = min (10000 * 2 ^ (loop - 1) % 2 ^ 64) 100000000 := by
  have start := toNat_doubled (loop - 1) 10000
  rw [show (10000 : UInt64).toNat = 10000 from rfl] at start
  unfold trRetryWait
  dsimp only
  rw [← start]
  split
  · next more =>
      have more := UInt64.lt_iff_toNat_lt.mp more
      exact (Nat.min_eq_right more.le).symm
  · next less =>
      have less := Nat.not_lt.mp fun more => less (UInt64.lt_iff_toNat_lt.mpr more)
      exact (Nat.min_eq_left less).symm

/-- For the first sixty restarts what wraps around is still above the bound. -/
theorem wrapped_above : ∀ rounds < 60, min (10000 * 2 ^ rounds % 2 ^ 64) 100000000 =
    min (10000 * 2 ^ rounds) 100000000 := by decide

/-- Then nothing is left of it: `10000` has four factors of two. -/
theorem wrapped_away (rounds : ℕ) : 10000 * 2 ^ (rounds + 60) % 2 ^ 64 = 0 := by
  have product : 10000 * 2 ^ (rounds + 60) = 2 ^ 64 * (625 * 2 ^ rounds) := by
    rw [pow_add]
    ring
  rw [product, Nat.mul_mod_right]

/-- The law holds up to the sixtieth restart, and not behind it. -/
theorem delayGrows_iff (loop : ℕ) (restarted : 1 ≤ loop) : DelayGrows loop ↔ loop ≤ 60 := by
  constructor
  · rintro ⟨bounded, -⟩
    by_contra late
    obtain ⟨rounds, rfl⟩ : ∃ rounds, loop = rounds + 61 := ⟨loop - 61, by omega⟩
    have positive : 0 < 2 ^ (rounds + 60) := Nat.two_pow_pos _
    rw [toNat_trRetryWait, show rounds + 61 - 1 = rounds + 60 from rfl, wrapped_away] at bounded
    omega
  · intro early
    refine ⟨?_, fun again => UInt64.le_iff_toNat_le.mpr ?_⟩
    · rw [toNat_trRetryWait]
      exact wrapped_above (loop - 1) (by omega)
    · rw [toNat_trRetryWait, toNat_trRetryWait, wrapped_above _ (by omega),
        wrapped_above _ (by omega)]
      have longer : 2 ^ (loop - 1 - 1) ≤ 2 ^ (loop - 1) := Nat.pow_le_pow_right (by decide) (by omega)
      omega

/-- The second restart waits for twenty microseconds. -/
theorem delayGrows_second : DelayGrows 2 := (delayGrows_iff 2 (by decide)).mpr (by decide)

/-- The restart number 61 does not wait at all. -/
theorem delay_collapses : ¬∀ loop, 1 ≤ loop → DelayGrows loop := by
  intro claim
  have collapsed : trRetryWait 61 = 0 := by decide +kernel
  have bounded := (claim 61 (by decide)).1
  rw [collapsed] at bounded
  revert bounded
  decide

end HybridDatabase.Transaction
