/-
# Skipping

`reader_skip` walks to the bracket that closes the current array.  Over what the writer
wrote it comes to the same place as reading the elements one by one.  Over hostile bytes
it need not come to an end: the length of a string is added to the pointer modulo
`2 ^ 64`, and a length close to `2 ^ 64` moves the pointer back to bytes that have been
walked over.  `CodeForward` excludes such lengths, and length codes whose tail lies
behind the element.
-/

import HybridDatabase.Storage.Safety
import HybridDatabase.Storage.Tree

namespace HybridDatabase.Storage

open HybridDatabase.Base

/-! ## One string at any bytes -/

/-- The length that `read_string` gets from a code. -/
def codeLength (first : UInt8) (tail : Bytes) : ℕ :=
  (codeValue first tail + 2 ^ 64 - stString) % 2 ^ 64

variable {R R' : Reader} {first : UInt8} {rest : Bytes}

theorem readCode_start (at_ : R.At (first :: rest)) (high : stString ≤ first.toNat) :
    readCode R = (if first < 0x80 then pure first.toNat else do
      ensureTail first
      let tail ← takeMany (codeTail first)
      return codeValue first tail : ReaderM ℕ) (R.skip 1) := by
  have room : ensureSpace 1 R = .ok () R := ensureSpace_at (show R.At ([first] ++ rest) from at_)
  have kept : check (stString ≤ first.toNat) (R.skip 1) = .ok () (R.skip 1) := by
    simp [check, high]
  unfold readCode
  rw [bind_ok room, bind_ok (takeByte_at at_), bind_ok kept]

/-- A code that is there to its end is decoded. -/
theorem readCode_whole (at_ : R.At (first :: rest)) (high : stString ≤ first.toNat)
    (whole : codeTail first ≤ rest.length) :
    readCode R =
      .ok (codeValue first (rest.take (codeTail first))) (R.skip (1 + codeTail first)) := by
  have after : (R.skip 1).At rest := Reader.At.skip (show R.At ([first] ++ rest) from at_)
  have length : (rest.take (codeTail first)).length = codeTail first :=
    List.length_take_of_le whole
  have split : (R.skip 1).At (rest.take (codeTail first) ++ rest.drop (codeTail first)) := by
    rwa [List.take_append_drop]
  have taken := takeMany_at split
  rw [length, Reader.skip_skip] at taken
  rw [readCode_start at_ high]
  by_cases low : first < 0x80
  · have none : codeTail first = 0 := by simp [codeTail, low]
    have same : codeValue first (rest.take (codeTail first)) = first.toNat := by
      simp [codeValue, low]
    rw [if_pos low, same, none]
    rfl
  · have room : ensureTail first (R.skip 1) = .ok () (R.skip 1) := by
      unfold ensureTail
      by_cases full : first = 0xFF
      · have eight : codeTail first = 8 := by rw [full]; decide
        have room := ensureSpace_at split
        rw [if_pos full]
        rwa [length, eight] at room
      · rw [if_neg full]
        rfl
    rw [if_neg low, bind_ok room, bind_ok taken]
    rfl

/-- Only the full form of a code is checked for its end. -/
theorem readCode_torn (at_ : R.At (first :: rest)) (high : stString ≤ first.toNat)
    (torn : rest.length < codeTail first) :
    readCode R = .error (if first = 0xFF then .failed else .fault) (R.skip 1) := by
  have after : (R.skip 1).At rest := Reader.At.skip (show R.At ([first] ++ rest) from at_)
  have low : ¬ first < 0x80 := by
    intro low
    rw [codeTail, if_pos low] at torn
    omega
  rw [readCode_start at_ high, if_neg low]
  unfold ensureTail
  by_cases full : first = 0xFF
  · have eight : codeTail first = 8 := by rw [full]; decide
    rw [if_pos full, if_pos full, bind_error (ensureSpace_short after (by omega) (by decide))]
  · have limit := after.limit_eq
    have outside : fetchMany (R.skip 1).ptr (codeTail first) (R.skip 1) =
        .error .fault (R.skip 1) := by
      rw [fetchMany, if_neg (by omega)]
    rw [if_neg full, if_neg full, bind_ok (pure_run _ _)]
    unfold takeMany
    rw [bind_error]
    rw [bind_ok (get_run _), bind_error outside]

/-- Where `read_string` goes: the sum of the pointer and the length wraps around. -/
theorem readString_whole (at_ : R.At (first :: rest)) (high : stString ≤ first.toNat)
    (whole : codeTail first ≤ rest.length) {length ptr : ℕ}
    (decoded : (codeValue first (rest.take (codeTail first)) + 2 ^ 64 - stString) % 2 ^ 64 = length)
    (sum : (R.ptr + (1 + codeTail first) + length) % 2 ^ 64 = ptr) :
    readString R =
      if R.limit < ptr then .error .failed (R.skip (1 + codeTail first))
      else .ok (R.ptr + (1 + codeTail first), length) { R with ptr := ptr } := by
  unfold readString
  rw [bind_ok (readCode_whole at_ high whole)]
  simp only [decoded]
  have place : (R.skip (1 + codeTail first)).ptr + length = R.ptr + (1 + codeTail first) + length :=
    rfl
  have room : ensureSpace length (R.skip (1 + codeTail first)) =
      if R.limit < ptr then .error .failed (R.skip (1 + codeTail first))
      else .ok () (R.skip (1 + codeTail first)) := by
    rw [ensureSpace, place, sum]
    rfl
  by_cases short : R.limit < ptr
  · rw [if_pos short] at room
    rw [bind_error room, if_pos short]
  · rw [if_neg short] at room
    rw [bind_ok room, bind_ok (get_run _), if_neg short, ← sum]
    rfl

theorem readString_torn (at_ : R.At (first :: rest)) (high : stString ≤ first.toNat)
    (torn : rest.length < codeTail first) :
    readString R = .error (if first = 0xFF then .failed else .fault) (R.skip 1) := by
  unfold readString
  rw [bind_error (readCode_torn at_ high torn)]

/-! ## One turn of the loop -/

/-- One turn of the loop of `reader_skip`: the new counter, or `none` behind `return`. -/
def readerSkipTurn (depth : ℤ) : ReaderM (Option ℤ) := do
  match ← readerNext with
  | .arrayBegin =>
      readArray
      return some (toInt (depth + 1))
  | .string =>
      let _ ← readString
      return some depth
  | .arrayEnd =>
      if depth = 0 then return none
      else do
        readArrayEnd
        return some (toInt (depth - 1))
  | _ => throw .failed

/-- The loop repeats the turn. -/
theorem readerSkipLoop_succ (fuel : ℕ) (depth : ℤ) :
    readerSkipLoop (fuel + 1) depth = (do
      match ← readerSkipTurn depth with
      | some depth => readerSkipLoop fuel depth
      | none => return ()) := by
  rw [readerSkipLoop, readerSkipTurn, bind_assoc]
  congr 1
  funext kind
  cases kind with
  | arrayEnd =>
      by_cases outermost : depth = 0
      · simp [outermost]
      · simp [outermost]
  | arrayBegin => simp
  | string => simp
  | crc => rfl
  | dot => rfl
  | error => rfl

/-- The loop goes from the top of one turn to the top of the next. -/
def skipTurn (p : Reader × ℤ) (_ : Unit) : Option (Reader × ℤ) :=
  match readerSkipTurn p.2 p.1 with
  | .ok (some depth) R => some (R, depth)
  | _ => none

/-- The code at the pointer leads forward: it ends in the element if nothing checks this,
and its length does not move the pointer around to where it was or further back. -/
def CodeForward (R : Reader) : Prop :=
  match R.ahead with
  | [] => True
  | first :: rest =>
      stString ≤ first.toNat →
        (first ≠ 0xFF → codeTail first ≤ rest.length) ∧
        (codeTail first ≤ rest.length →
          R.ptr + (1 + codeTail first) + codeLength first (rest.take (codeTail first)) < 2 ^ 64 ∨
          2 ^ 64 < 1 + codeTail first + codeLength first (rest.take (codeTail first)))

/-- Only strings have a code. -/
theorem codeForward_of_low (at_ : R.At (first :: rest)) (low : first.toNat < stString) :
    CodeForward R := by
  rw [CodeForward, at_.ahead_eq]
  exact fun high => absurd high (Nat.not_le.mpr low)

theorem Reader.at_ahead (fits : R.begin + R.data.length + 256 ≤ 2 ^ 64) (lower : R.begin ≤ R.ptr)
    (upper : R.ptr ≤ R.limit) : R.At R.ahead := by
  unfold Reader.limit at upper
  refine ⟨fits, R.data.take (R.ptr - R.begin), (List.take_append_drop _ _).symm, ?_⟩
  rw [List.length_take]
  omega

/-- The same element, and the pointer not behind it. -/
structure Within (R R' : Reader) : Prop where
  begin_eq : R'.begin = R.begin
  data_eq : R'.data = R.data
  inside : R'.ptr ≤ R.limit

theorem Within.limit_eq (within : Within R R') : R'.limit = R.limit := by
  rw [Reader.limit, Reader.limit, within.begin_eq, within.data_eq]

/-- A reader that has moved on stands in the element. -/
theorem Within.at_ahead (within : Within R R') (at_ : R.At R.ahead) (forward : R.ptr < R'.ptr) :
    R'.At R'.ahead := by
  obtain ⟨done, data, ptr⟩ := at_.split
  refine Reader.at_ahead ?_ ?_ ?_
  · rw [within.begin_eq, within.data_eq]
    exact at_.fits
  · rw [within.begin_eq]
    omega
  · rw [within.limit_eq]
    exact within.inside

/-- The loop ended in an answer or an assertion. -/
def Proper (e : ReadError) : Prop := e ≠ .fault ∧ e ≠ .outOfFuel

theorem proper_failed : Proper .failed := ⟨by decide, by decide⟩

theorem not_proper_fault : ¬ Proper .fault := fun proper => proper.1 rfl

theorem nextKind_eq_arrayBegin (kind : nextKind first = .arrayBegin) : first = stArrayBegin := by
  unfold nextKind at kind
  split_ifs at kind with one
  exact one

theorem nextKind_eq_arrayEnd (kind : nextKind first = .arrayEnd) : first = stArrayEnd := by
  unfold nextKind at kind
  split_ifs at kind with one two
  exact two

theorem nextKind_eq_string (kind : nextKind first = .string) : stString ≤ first.toNat := by
  unfold nextKind at kind
  split_ifs at kind with one two three four five
  exact five

theorem nextKind_ne_string (kind : nextKind first ≠ .string) : first.toNat < stString := by
  unfold nextKind at kind
  split_ifs at kind with one two three four five
  · rw [one]; decide
  · rw [two]; decide
  · rw [three]; decide
  · rw [four]; decide
  · exact absurd rfl kind
  · exact Nat.not_le.mp five

/-- Behind a byte of the element. -/
theorem within_skip (at_ : R.At (first :: rest)) (depth : ℤ) :
    Within R { R.skip 1 with depth := depth } where
  begin_eq := rfl
  data_eq := rfl
  inside := by
    have limit := at_.limit_eq
    rw [List.length_cons] at limit
    show R.ptr + 1 ≤ R.limit
    omega

theorem readArray_bracket (at_ : R.At (stArrayBegin :: rest)) :
    readArray R = .ok () { R.skip 1 with depth := toInt (R.depth + 1) } := by
  have room : ensureSpace 1 R = .ok () R :=
    ensureSpace_at (show R.At ([stArrayBegin] ++ rest) from at_)
  unfold readArray
  rw [bind_ok room, bind_ok (modify_run _ _), bind_ok (takeByte_at (at_.withDepth _))]
  rfl

theorem readArrayEnd_bracket (at_ : R.At (stArrayEnd :: rest)) :
    Post (fun _ R' => Within R R' ∧ R.ptr < R'.ptr) (fun e _ => Proper e) (readArrayEnd R) := by
  by_cases positive : 0 < R.depth
  · rw [readArrayEnd_at at_ positive]
    exact ⟨within_skip at_ _, Nat.lt_succ_self _⟩
  · have room : ensureSpace 1 R = .ok () R :=
      ensureSpace_at (show R.At ([stArrayEnd] ++ rest) from at_)
    have broken : assertion (0 < R.depth) R = .error .abort R := by simp [assertion, positive]
    unfold readArrayEnd
    rw [bind_ok room, bind_ok (get_run _), bind_error broken]
    exact ⟨by decide, by decide⟩

/-- A string that is read moves the pointer forward exactly where its code leads forward. -/
theorem readString_forward_iff (at_ : R.At (first :: rest)) (high : stString ≤ first.toNat) :
    Post (fun _ R' => Within R R' ∧ (R.ptr < R'.ptr ↔ CodeForward R))
      (fun e _ => Proper e ↔ CodeForward R) (readString R) := by
  have condition : CodeForward R ↔ (first ≠ 0xFF → codeTail first ≤ rest.length) ∧
      (codeTail first ≤ rest.length →
        R.ptr + (1 + codeTail first) + codeLength first (rest.take (codeTail first)) < 2 ^ 64 ∨
        2 ^ 64 < 1 + codeTail first + codeLength first (rest.take (codeTail first))) := by
    rw [CodeForward, at_.ahead_eq]
    exact ⟨fun forward => forward high, fun forward _ => forward⟩
  by_cases whole : codeTail first ≤ rest.length
  · have bound := at_.bound
    have limit := at_.limit_eq
    rw [List.length_cons] at bound limit
    have length : codeLength first (rest.take (codeTail first)) < 2 ^ 64 :=
      Nat.mod_lt _ (Nat.two_pow_pos 64)
    obtain ⟨ptr, sum⟩ : ∃ ptr, (R.ptr + (1 + codeTail first) +
        codeLength first (rest.take (codeTail first))) % 2 ^ 64 = ptr := ⟨_, rfl⟩
    have advanced : R.ptr < ptr ↔ CodeForward R := by
      rw [condition]
      constructor
      · exact fun forward => ⟨fun _ => whole, fun _ => by omega⟩
      · intro forward
        have forward := forward.2 whole
        omega
    rw [readString_whole at_ high whole rfl sum]
    by_cases short : R.limit < ptr
    · rw [if_pos short]
      exact iff_of_true proper_failed (advanced.mp (by omega))
    · rw [if_neg short]
      exact ⟨⟨rfl, rfl, Nat.not_lt.mp short⟩, advanced⟩
  · rw [readString_torn at_ high (Nat.not_le.mp whole)]
    by_cases full : first = 0xFF
    · rw [if_pos full]
      exact iff_of_true proper_failed
        (condition.mpr ⟨fun other => absurd full other, fun there => absurd there whole⟩)
    · rw [if_neg full]
      exact iff_of_false not_proper_fault fun forward => whole ((condition.mp forward).1 full)

/-- A turn moves the pointer forward, or ends the loop as it should, exactly where the
code at the pointer leads forward. -/
theorem readerSkipTurn_forward_iff (at_ : R.At R.ahead) (depth : ℤ) :
    Post
      (fun answer R' => match answer with
        | some _ => Within R R' ∧ (R.ptr < R'.ptr ↔ CodeForward R)
        | none => CodeForward R)
      (fun e _ => Proper e ↔ CodeForward R) (readerSkipTurn depth R) := by
  unfold readerSkipTurn
  cases ahead : R.ahead with
  | nil =>
      rw [ahead] at at_
      rw [bind_ok (readerNext_end at_)]
      exact iff_of_true proper_failed (by rw [CodeForward, ahead]; trivial)
  | cons byte rest =>
      rw [ahead] at at_
      have low (other : nextKind byte ≠ .string) : CodeForward R :=
        codeForward_of_low at_ (nextKind_ne_string other)
      rw [bind_ok (readerNext_at at_)]
      cases kind : nextKind byte with
      | arrayBegin =>
          obtain rfl := nextKind_eq_arrayBegin kind
          dsimp only
          rw [bind_ok (readArray_bracket at_)]
          exact ⟨within_skip at_ _,
            iff_of_true (Nat.lt_succ_self _) (low (by rw [kind]; decide))⟩
      | arrayEnd =>
          obtain rfl := nextKind_eq_arrayEnd kind
          have forward := low (by rw [kind]; decide)
          by_cases outermost : depth = 0
          · simp only [outermost, if_true]
            exact forward
          · simp only [outermost, if_false]
            have closed := readArrayEnd_bracket at_
            cases run : readArrayEnd R with
            | ok _ R' =>
                rw [run] at closed
                rw [bind_ok run]
                exact ⟨closed.1, iff_of_true closed.2 forward⟩
            | error e R' =>
                rw [run] at closed
                rw [bind_error run]
                exact iff_of_true closed forward
      | string =>
          exact (readString_forward_iff at_ (nextKind_eq_string kind)).bind
            fun _ R' _ moved => moved
      | crc => exact iff_of_true proper_failed (low (by rw [kind]; decide))
      | dot => exact iff_of_true proper_failed (low (by rw [kind]; decide))
      | error => exact iff_of_true proper_failed (low (by rw [kind]; decide))

/-! ## The whole loop -/

/-- The loop ends after finitely many turns, and without reading outside the element. -/
def SkipEnds (R : Reader) : Prop := ∃ fuel, Post (fun _ _ => True) (fun e _ => Proper e) (readerSkip fuel R)

/-- Every turn of the loop that reads something moves the pointer strictly forward. -/
def SkipAdvances (R : Reader) : Prop :=
  ∀ p p', Reaches skipTurn anyStep (R, 0) p → skipTurn p () = some p' → p.1.ptr < p'.1.ptr

theorem skipTurn_eq_some {p p' : Reader × ℤ} {l : Unit} :
    skipTurn p l = some p' ↔ readerSkipTurn p.2 p.1 = .ok (some p'.2) p'.1 := by
  unfold skipTurn
  constructor
  · intro turn
    split at turn
    · next run =>
        cases turn
        exact run
    · cases turn
  · intro run
    rw [run]

/-- More fuel does not change how the loop ends. -/
theorem readerSkipLoop_mono {fuel : ℕ} {depth : ℤ}
    (ends : Post (fun _ _ => True) (fun e _ => Proper e) (readerSkipLoop fuel depth R)) (more : ℕ) :
    readerSkipLoop (fuel + more) depth R = readerSkipLoop fuel depth R := by
  induction fuel generalizing R depth with
  | zero => exact absurd rfl ends.2
  | succ fuel ih =>
      rw [Nat.add_right_comm, readerSkipLoop_succ, readerSkipLoop_succ]
      rw [readerSkipLoop_succ] at ends
      cases turn : readerSkipTurn depth R with
      | error e R' => rw [bind_error turn, bind_error turn]
      | ok answer R' =>
          rw [bind_ok turn, bind_ok turn]
          rw [bind_ok turn] at ends
          cases answer with
          | none => rfl
          | some depth => exact ih ends

/-- What the loop does from a turn that it comes to. -/
theorem readerSkipLoop_reaches {p q : Reader × ℤ} (reach : Reaches skipTurn anyStep p q) :
    ∃ n, ∀ fuel, readerSkipLoop (n + fuel) p.2 p.1 = readerSkipLoop fuel q.2 q.1 := by
  induction reach with
  | start => exact ⟨0, fun fuel => by rw [Nat.zero_add]⟩
  | step before met moved ih =>
      obtain ⟨n, same⟩ := ih
      refine ⟨n + 1, fun fuel => ?_⟩
      rw [Nat.add_assoc, Nat.add_comm 1, same, readerSkipLoop_succ,
        bind_ok (skipTurn_eq_some.mp moved)]

/-- The loop ends, and moves forward all the way, exactly when every string code it comes
to leads forward. -/
theorem readerSkip_ends_iff (at_ : R.At R.ahead) :
    SkipEnds R ∧ SkipAdvances R ↔
      ∀ p, Reaches skipTurn anyStep (R, 0) p → CodeForward p.1 := by
  constructor
  · rintro ⟨⟨fuel, ends⟩, advances⟩ p reach
    have there : p.1.At p.1.ahead := by
      induction reach with
      | start => exact at_
      | @step t u l before met moved ih =>
          have spec := readerSkipTurn_forward_iff ih t.2
          rw [skipTurn_eq_some.mp moved] at spec
          exact spec.1.at_ahead ih (advances t u before moved)
    have spec := readerSkipTurn_forward_iff there p.2
    cases turn : readerSkipTurn p.2 p.1 with
    | ok answer R' =>
        rw [turn] at spec
        cases answer with
        | none => exact spec
        | some depth =>
            exact spec.2.mp (advances p (R', depth) reach (skipTurn_eq_some.mpr turn))
    | error e R' =>
        rw [turn] at spec
        obtain ⟨n, same⟩ := readerSkipLoop_reaches reach
        have longer := readerSkipLoop_mono ends (n + 1)
        rw [show fuel + (n + 1) = n + (fuel + 1) by omega, same, readerSkipLoop_succ,
          bind_error turn] at longer
        rw [readerSkip, ← longer] at ends
        exact spec.mp ends
  · intro forward
    have spec : ∀ p, Reaches skipTurn anyStep (R, 0) p → p.1.At p.1.ahead → ∀ p',
        skipTurn p () = some p' → Within p.1 p'.1 ∧ p.1.ptr < p'.1.ptr := by
      intro p reach there p' moved
      have spec := readerSkipTurn_forward_iff there p.2
      rw [skipTurn_eq_some.mp moved] at spec
      exact ⟨spec.1, spec.2.mpr (forward p reach)⟩
    have there : ∀ p, Reaches skipTurn anyStep (R, 0) p → p.1.At p.1.ahead := by
      intro p reach
      induction reach with
      | start => exact at_
      | step before met moved ih =>
          obtain ⟨within, further⟩ := spec _ before ih _ moved
          exact within.at_ahead ih further
    refine ⟨?_, fun p p' reach moved => (spec p reach (there p reach) p' moved).2⟩
    -- the distance from the end is what becomes smaller
    have ends : ∀ n p, Reaches skipTurn anyStep (R, 0) p → p.1.limit - p.1.ptr < n →
        Post (fun _ _ => True) (fun e _ => Proper e) (readerSkipLoop n p.2 p.1) := by
      intro n
      induction n with
      | zero => exact fun p _ none => absurd none (Nat.not_lt_zero _)
      | succ n ih =>
          intro p reach few
          have turned := readerSkipTurn_forward_iff (there p reach) p.2
          rw [readerSkipLoop_succ]
          cases turn : readerSkipTurn p.2 p.1 with
          | error e R' =>
              rw [turn] at turned
              rw [bind_error turn]
              exact turned.mpr (forward p reach)
          | ok answer R' =>
              rw [bind_ok turn]
              cases answer with
              | none => trivial
              | some depth =>
                  have moved : skipTurn p () = some (R', depth) := skipTurn_eq_some.mpr turn
                  obtain ⟨within, further⟩ := spec p reach (there p reach) _ moved
                  have limit := within.limit_eq
                  have inside := within.inside
                  exact ih (R', depth) (reach.step trivial moved) (by dsimp only at *; omega)
    exact ⟨_, ends _ (R, 0) .start (Nat.lt_succ_self _)⟩

/-- A string of one byte in front of the bracket. -/
theorem readerSkip_ends_string :
    SkipEnds ((Reader.init [] 4096).opened [] [0x11, 7, stArrayEnd]) ∧
      SkipAdvances ((Reader.init [] 4096).opened [] [0x11, 7, stArrayEnd]) := by
  refine (readerSkip_ends_iff ⟨by decide, [], rfl, rfl⟩).mpr fun p reach => ?_
  let Holds (p : Reader × ℤ) : Prop :=
    p = ((Reader.init [] 4096).opened [] [0x11, 7, stArrayEnd], 0) ∨
      p = (((Reader.init [] 4096).opened [] [0x11, 7, stArrayEnd]).skip 2, 0)
  have inside : Holds p := by
    apply reach.invariant (.inl rfl)
    rintro t u ⟨⟩ (rfl | rfl) - moved
    · exact .inr (Option.some.inj (moved.symm.trans rfl))
    · have last : skipTurn (((Reader.init [] 4096).opened [] [0x11, 7, stArrayEnd]).skip 2, 0) () =
          none := by decide +kernel
      rw [last] at moved
      cases moved
  rcases inside with rfl | rfl
  · exact fun _ => ⟨fun _ => by decide, fun _ => .inl (by decide +kernel)⟩
  · exact fun high => absurd high (by decide)

/-- The code `0x80 0x0E` is that of the length `14 - 16`: the pointer goes back to the
code, again and again. -/
theorem readerSkip_runs_forever :
    ¬ ∀ R : Reader, R.At R.ahead → SkipEnds R ∧ SkipAdvances R := by
  intro claim
  obtain ⟨⟨fuel, ends⟩, -⟩ :=
    claim ((Reader.init [] 4096).opened [] [0x80, 0x0E]) ⟨by decide, [], rfl, rfl⟩
  have back : readerSkipTurn 0 ((Reader.init [] 4096).opened [] [0x80, 0x0E]) =
      .ok (some 0) ((Reader.init [] 4096).opened [] [0x80, 0x0E]) := by rfl
  have forever : ∀ fuel, readerSkipLoop fuel 0 ((Reader.init [] 4096).opened [] [0x80, 0x0E]) =
      .error .outOfFuel ((Reader.init [] 4096).opened [] [0x80, 0x0E]) := by
    intro fuel
    induction fuel with
    | zero => rfl
    | succ fuel ih =>
        rw [readerSkipLoop_succ, bind_ok back]
        exact ih
  rw [readerSkip, forever fuel] at ends
  exact ends.2 rfl

/-! ## Skipping what was written -/

/-- The counter of open arrays after another one. -/
theorem toInt_succ {depth : ℤ} (lower : -2 ^ 31 ≤ depth) (upper : depth < 2 ^ 31) :
    depth + 1 < 2 ^ 31 ∧ toInt (depth + 1) = depth + 1 ∨ toInt (depth + 1) = -2 ^ 31 := by
  by_cases last : depth + 1 = 2 ^ 31
  · exact .inr (by rw [last]; decide)
  · left
    refine ⟨by omega, ?_⟩
    unfold toInt
    rw [Int.bmod_eq_of_le] <;> omega

theorem Writer.depth_store {W W' : Writer} {bytes : Bytes} (stored : W.store bytes = some W') :
    W'.depth = W.depth := by
  unfold Writer.store at stored
  split at stored
  · cases stored
    rfl
  · cases stored

theorem Writer.depth_writeString {W W' : Writer} {contents : Bytes}
    (written : W.writeString contents = some W') : W'.depth = W.depth := by
  obtain ⟨W₁, code, stored⟩ := Option.bind_eq_some_iff.mp written
  rw [Writer.depth_store stored, Writer.depth_store code, Writer.ensureSpace_depth]

theorem Writer.depth_writeArray {W W' : Writer} (written : W.writeArray = some W') :
    W'.depth = toInt (W.depth + 1) := by
  obtain ⟨W₁, stored, opened⟩ := Option.bind_eq_some_iff.mp written
  cases opened
  show toInt (W₁.depth + 1) = _
  rw [Writer.depth_store stored, Writer.ensureSpace_depth]

theorem Writer.depth_writeArrayEnd {W W' : Writer} (written : W.writeArrayEnd = some W') :
    0 < W.depth ∧ W'.depth = W.depth - 1 := by
  obtain ⟨_, opened, stored⟩ := Option.bind_eq_some_iff.mp written
  have positive : 0 < W.depth := by
    rw [Writer.ensureSpace_depth] at opened
    by_contra closed
    rw [guard, if_neg closed] at opened
    cases opened
  refine ⟨positive, ?_⟩
  rw [Writer.depth_store stored]
  show (W.ensureSpace 1).depth - 1 = _
  rw [Writer.ensureSpace_depth]

mutual

/-- What the writer has written it could count. -/
theorem depth_writeTree : ∀ (tree : Tree) (W W' : Writer), -2 ^ 31 ≤ W.depth → W.depth < 2 ^ 31 →
    writeTree W tree = some W' →
    W'.depth = W.depth ∧ (0 ≤ W.depth → W.depth + tree.nesting < 2 ^ 31)
  | .string contents, W, W', lower, upper, written => by
      refine ⟨Writer.depth_writeString (by simpa [writeTree] using written), fun _ => ?_⟩
      simpa [Tree.nesting] using upper
  | .array items, W, W', lower, upper, written => by
      rw [writeTree] at written
      obtain ⟨W₁, opened, others⟩ := Option.bind_eq_some_iff.mp written
      obtain ⟨W₂, inside, closed⟩ := Option.bind_eq_some_iff.mp others
      have depth₁ := Writer.depth_writeArray opened
      obtain ⟨positive, depth₂⟩ := Writer.depth_writeArrayEnd closed
      have range := toInt_succ lower upper
      obtain ⟨same, shallow⟩ := depth_writeItems items W₁ W₂ (by omega) (by omega) inside
      refine ⟨by omega, fun nonneg => ?_⟩
      have shallow := shallow (by omega)
      rw [Tree.nesting]
      push_cast
      omega

theorem depth_writeItems : ∀ (items : List Tree) (W W' : Writer), -2 ^ 31 ≤ W.depth →
    W.depth < 2 ^ 31 → writeItems W items = some W' →
    W'.depth = W.depth ∧ (0 ≤ W.depth → W.depth + Tree.nestingItems items < 2 ^ 31)
  | [], W, W', lower, upper, written => by
      rw [writeItems] at written
      cases written
      exact ⟨rfl, fun _ => by simpa [Tree.nestingItems] using upper⟩
  | tree :: items, W, W', lower, upper, written => by
      rw [writeItems] at written
      obtain ⟨W₁, first, others⟩ := Option.bind_eq_some_iff.mp written
      obtain ⟨same₁, shallow₁⟩ := depth_writeTree tree W W₁ lower upper first
      obtain ⟨same₂, shallow₂⟩ := depth_writeItems items W₁ W' (by omega) (by omega) others
      refine ⟨by omega, fun nonneg => ?_⟩
      have one := shallow₁ nonneg
      have two := shallow₂ (by omega)
      rw [Tree.nestingItems]
      push_cast
      omega

end

/-- Behind an open bracket the writer has written items and closed the array.  In front of
these items, with as many arrays open, `reader_skip` comes to the closing bracket, and so
does reading them. -/
theorem readerSkip_agrees {W W' : Writer} {out done : Bytes} {items : List Tree} {fuel : ℕ}
    (holds : W.Holds out done) (lower : 0 < W.depth) (upper : W.depth < 2 ^ 31)
    (written : (do let W ← writeItems W items; W.writeArrayEnd) = some W')
    (at_ : R.At (Tree.encodeItems items ++ stArrayEnd :: rest)) (level : R.depth = W.depth)
    (enough : (Tree.encodeItems items).length < fuel) :
    W'.Holds out (done ++ (Tree.encodeItems items ++ [stArrayEnd])) ∧
      ∃ R', readerSkip fuel R = .ok () R' ∧ readItems fuel R = .ok items R' ∧
        R'.At (stArrayEnd :: rest) ∧ R'.depth = R.depth := by
  obtain ⟨W₁, inside, closed⟩ := Option.bind_eq_some_iff.mp written
  have bound := at_.bound
  rw [List.length_append] at bound
  have shallow := (depth_writeItems items W W₁ (by omega) upper inside).2 (by omega)
  constructor
  · obtain ⟨W₂, inside₂, holds₂, depth₂⟩ :=
      writes_writeItems items (by omega) W out done holds (by omega) shallow
    obtain ⟨W₃, closed₃, holds₃, -⟩ := holds₂.writeArrayEnd (by omega)
    cases inside₂.symm.trans inside
    cases closed₃.symm.trans closed
    rwa [← List.append_assoc]
  · exact ⟨R.skip (Tree.encodeItems items).length,
      readsItems_readerSkip items (by omega) (by omega) enough R rest at_ (by omega) (by omega),
      reads_readItems items fuel (by omega) enough R rest at_ (by omega) (by omega), at_.skip, rfl⟩

/-- A string with the bytes of brackets in it, and a nested array. -/
theorem readerSkip_agrees_brackets :
    ∃ R', readerSkip 20 { (Reader.init [] 4096).opened []
        ([stArrayBegin] ++ (Tree.encodeItems [.string [3, 1], .array []] ++ [stArrayEnd])) with
          ptr := 4097, depth := 1 } = .ok () R' ∧
      R'.ahead = [stArrayEnd] ∧ R'.depth = 1 := by
  obtain ⟨W, opened, holds, depth⟩ := Writer.init_holds.writeArray (by decide) (by decide)
  have start : W.depth = 1 := depth
  obtain ⟨W₁, inside, holds₁, depth₁⟩ := writes_writeItems [.string [3, 1], .array []] (by decide)
    W [] _ holds (by omega) (by rw [start]; decide)
  obtain ⟨W₂, closed, -, -⟩ := holds₁.writeArrayEnd (by omega)
  have at_ : Reader.At { (Reader.init [] 4096).opened []
      ([stArrayBegin] ++ (Tree.encodeItems [.string [3, 1], .array []] ++ [stArrayEnd])) with
        ptr := 4097, depth := 1 }
      (Tree.encodeItems [.string [3, 1], .array []] ++ stArrayEnd :: []) :=
    ⟨by decide, [stArrayBegin], rfl, rfl⟩
  have enough : (Tree.encodeItems [.string [3, 1], .array []]).length < 20 := by decide
  obtain ⟨-, R', skipped, -, behind, level⟩ := readerSkip_agrees holds (by omega) (by omega)
    (Option.bind_eq_some_iff.mpr ⟨W₁, inside, closed⟩) at_ start.symm enough
  exact ⟨R', skipped, behind.ahead_eq, level⟩

end HybridDatabase.Storage
