/-
# Reading hostile elements

The bytes of a root element come from a file and may be anything.  This file says
when the reading calls stay inside the element.  All of them check the space they
need, except for one form of a string length: a first byte in `0x80 .. 0xFE`
announces tail bytes that `read_string` takes without a check.  The length decoded
in the middle or the full form is not checked to be at least `ST_STRING` either,
and the sum of the pointer and a huge length wraps.  `StringSafe` excludes these
cases and nothing else.
-/

import HybridDatabase.Base.Runs
import HybridDatabase.Storage.Frame

namespace HybridDatabase.Storage

open HybridDatabase.Base

/-! ## Calls on one element -/

/-- The calls on a root element.  The loop of `reader_skip` is given fuel. -/
inductive Call
  | next
  | array
  | arrayEnd
  | string
  | number
  | skip (fuel : ℕ)
  | finish (checksum : Bool)
  deriving DecidableEq, Repr

/-- Run a call; a string call answers the address and the length of the string. -/
def Call.perform : Call → ReaderM (Option (ℕ × ℕ))
  | .next => do
      let _ ← readerNext
      return none
  | .array => do
      readArray
      return none
  | .arrayEnd => do
      readArrayEnd
      return none
  | .string => do
      let got ← readString
      return some got
  | .number => do
      let _ ← readNumber
      return none
  | .skip fuel => do
      readerSkip fuel
      return none
  | .finish checksum => do
      readerFinish checksum
      return none

/-- The assertions a caller has to keep. -/
def Call.Allowed (R : Reader) : Call → Prop
  | .arrayEnd => 0 < R.depth
  | .finish _ => R.depth = 0
  | _ => True

instance (R : Reader) (call : Call) : Decidable (call.Allowed R) := by
  cases call <;> unfold Call.Allowed <;> infer_instance

/-- One call of a caller that goes on after a call has failed, too. -/
def Reader.call (R : Reader) (call : Call) : Option Reader :=
  if call.Allowed R then
    match call.perform R with
    | .ok _ R' => some R'
    | .error .failed R' => some R'
    | .error _ _ => none
  else none

/-- The call reads inside the element `data` at `base`, and so do the pointer and the
string it leaves. -/
def StaysInside (base : ℕ) (data : Bytes) (R : Reader) (call : Call) : Prop :=
  match call.perform R with
  | .ok none R' => base ≤ R'.ptr ∧ R'.ptr ≤ base + data.length
  | .ok (some (address, length)) R' =>
      (base ≤ R'.ptr ∧ R'.ptr ≤ base + data.length) ∧
        base ≤ address ∧ address + length ≤ base + data.length
  | .error e _ => e ≠ .fault

/-! ## The strings that can lead out -/

/-- The bytes between the pointer and the end. -/
def Reader.ahead (R : Reader) : Bytes := R.data.drop (R.ptr - R.begin)

/-- What `read_string` needs of the bytes ahead: a code of the middle form is there to
its end, and the length that a code gives neither underflows nor wraps the pointer. -/
def StringSafe (R : Reader) : Prop :=
  match R.ahead with
  | [] => True
  | first :: rest =>
      stString ≤ first.toNat →
        (first ≠ 0xFF → codeTail first ≤ rest.length) ∧
        (codeTail first ≤ rest.length →
          stString ≤ codeValue first (rest.take (codeTail first)) ∧
          R.ptr + 1 + codeTail first +
            (codeValue first (rest.take (codeTail first)) - stString) < 2 ^ 64)

/-- Every string that the loop of `reader_skip` comes to is safe. -/
def SkipSafe : ℕ → ℤ → Reader → Prop
  | 0, _, _ => True
  | fuel + 1, depth, R =>
      match readerNext R with
      | .ok .string R =>
          StringSafe R ∧ ∀ got R', readString R = .ok got R' → SkipSafe fuel depth R'
      | .ok .arrayBegin R =>
          ∀ R', readArray R = .ok () R' → SkipSafe fuel (toInt (depth + 1)) R'
      | .ok .arrayEnd R =>
          depth ≠ 0 → ∀ R', readArrayEnd R = .ok () R' → SkipSafe fuel (toInt (depth - 1)) R'
      | _ => True

/-- Every string a call comes to is safe. -/
def Call.Safe (R : Reader) : Call → Prop
  | .string => StringSafe R
  | .skip fuel => SkipSafe fuel 0 R
  | _ => True

/-! ## Positions in the element -/

/-- The reader stands somewhere in the element `data` at `base`. -/
structure Inside (base : ℕ) (data : Bytes) (R : Reader) : Prop where
  begin_eq : R.begin = base
  data_eq : R.data = data
  here : ∃ rest, R.At rest

theorem Inside.bounds {base : ℕ} {data : Bytes} {R : Reader} (h : Inside base data R) :
    base ≤ R.ptr ∧ R.ptr ≤ base + data.length := by
  obtain ⟨rest, at_⟩ := h.here
  obtain ⟨done, split, ptr⟩ := at_.split
  rw [← h.begin_eq, ← h.data_eq, split, List.length_append]
  omega

theorem Inside.withDepth {base : ℕ} {data : Bytes} {R : Reader} (h : Inside base data R)
    (depth : ℤ) : Inside base data { R with depth := depth } := by
  obtain ⟨rest, at_⟩ := h.here
  exact ⟨h.begin_eq, h.data_eq, rest, at_.withDepth depth⟩

/-- Moving behind bytes that are there stays inside. -/
theorem Inside.skip {base : ℕ} {data : Bytes} {R : Reader} {front rest : Bytes}
    (h : Inside base data R) (at_ : R.At (front ++ rest)) :
    Inside base data (R.skip front.length) := ⟨h.begin_eq, h.data_eq, rest, at_.skip⟩

theorem Reader.At.ahead_eq {R : Reader} {rest : Bytes} (h : R.At rest) : R.ahead = rest := by
  obtain ⟨done, split, ptr⟩ := h.split
  rw [Reader.ahead, split, ptr, Nat.add_sub_cancel_left, List.drop_left]

/-- A call that failed did not read outside, and left the pointer inside. -/
def Unharmed (base : ℕ) (data : Bytes) (e : ReadError) (R : Reader) : Prop :=
  e ≠ .fault ∧ Inside base data R

section Calls

variable {base : ℕ} {data : Bytes}

/-- Either the bytes asked for are ahead or the check fails. -/
theorem ensureSpace_inside {R : Reader} (h : Inside base data R) (size : ℕ) (few : size < 256) :
    (∃ front rest, front.length = size ∧ R.At (front ++ rest) ∧ ensureSpace size R = .ok () R) ∨
      ensureSpace size R = .error .failed R := by
  obtain ⟨rest, at_⟩ := h.here
  by_cases enough : size ≤ rest.length
  · left
    have length : (rest.take size).length = size := List.length_take_of_le enough
    rw [← List.take_append_drop size rest] at at_
    refine ⟨rest.take size, rest.drop size, length, at_, ?_⟩
    have room := ensureSpace_at at_
    rwa [length] at room
  · right
    exact ensureSpace_short at_ (by omega) few

theorem readerNext_inside :
    Triple (Inside base data) readerNext (fun _ => Inside base data) (Unharmed base data) := by
  intro R h
  obtain ⟨rest, at_⟩ := h.here
  cases rest with
  | nil =>
      rw [readerNext_end at_]
      exact h
  | cons byte rest =>
      rw [readerNext_at at_]
      exact h

/-- A call that takes one byte and compares it. -/
theorem takeByte_inside (P : UInt8 → Bool) {R : Reader} {byte : UInt8} {rest : Bytes}
    (h : Inside base data R) (at_ : R.At (byte :: rest)) :
    Post (fun _ => Inside base data) (Unharmed base data)
      ((do let byte ← takeByte; check (P byte) : ReaderM Unit) R) := by
  have moved : Inside base data (R.skip 1) := h.skip (show R.At ([byte] ++ rest) from at_)
  rw [bind_ok (takeByte_at at_), check]
  cases P byte with
  | true => exact moved
  | false => exact ⟨by decide, moved⟩

theorem readArray_inside :
    Triple (Inside base data) readArray (fun _ => Inside base data) (Unharmed base data) := by
  intro R h
  unfold readArray
  obtain ⟨front, rest, one, at_, room⟩ | short := ensureSpace_inside h 1 (by decide)
  · obtain ⟨byte, rfl⟩ := List.length_eq_one_iff.mp one
    rw [bind_ok room, bind_ok (modify_run _ _)]
    exact takeByte_inside (fun byte => byte = stArrayBegin) (h.withDepth _) (at_.withDepth _)
  · rw [bind_error short]
    exact ⟨by decide, h⟩

theorem readArrayEnd_inside :
    Triple (Inside base data) readArrayEnd (fun _ => Inside base data) (Unharmed base data) := by
  intro R h
  unfold readArrayEnd
  obtain ⟨front, rest, one, at_, room⟩ | short := ensureSpace_inside h 1 (by decide)
  · obtain ⟨byte, rfl⟩ := List.length_eq_one_iff.mp one
    rw [bind_ok room, bind_ok (get_run _)]
    by_cases positive : 0 < R.depth
    · have kept : assertion (0 < R.depth) R = .ok () R := by simp [assertion, positive]
      rw [bind_ok kept, bind_ok (modify_run _ _)]
      exact takeByte_inside (fun byte => byte = stArrayEnd) (h.withDepth _) (at_.withDepth _)
    · have broken : assertion (0 < R.depth) R = .error .abort R := by simp [assertion, positive]
      rw [bind_error broken]
      exact ⟨by decide, h⟩
  · rw [bind_error short]
    exact ⟨by decide, h⟩

theorem readNumber_inside :
    Triple (Inside base data) readNumber (fun _ => Inside base data) (Unharmed base data) := by
  intro R h
  unfold readNumber
  obtain ⟨front, rest, one, at_, room⟩ | short := ensureSpace_inside h 1 (by decide)
  · obtain ⟨byte, rfl⟩ := List.length_eq_one_iff.mp one
    have moved : Inside base data (R.skip 1) := h.skip at_
    rw [bind_ok room, bind_ok (takeByte_at at_)]
    by_cases digits : (stString ≤ byte.toNat && byte.toNat ≤ stString + 8) = true
    · have kept : check (stString ≤ byte.toNat && byte.toNat ≤ stString + 8) (R.skip 1) =
          .ok () (R.skip 1) := by rw [check, if_pos digits]; rfl
      have few : byte.toNat - stString < 256 := by have := byte.toNat_lt; omega
      rw [bind_ok kept]
      obtain ⟨digits, rest, length, there, room⟩ | short := ensureSpace_inside moved _ few
      · rw [← length, bind_ok (by rw [length]; exact room), bind_ok (takeMany_at there)]
        exact moved.skip there
      · rw [bind_error short]
        exact ⟨by decide, moved⟩
    · have broken : check (stString ≤ byte.toNat && byte.toNat ≤ stString + 8) (R.skip 1) =
          .error .failed (R.skip 1) := by rw [check, if_neg digits]; rfl
      rw [bind_error broken]
      exact ⟨by decide, moved⟩
  · rw [bind_error short]
    exact ⟨by decide, h⟩

/-- The length code: under `StringSafe` it is at least `ST_STRING`, and the pointer
can be moved by the rest of it. -/
theorem readCode_inside :
    Triple (fun R => Inside base data R ∧ StringSafe R) readCode
      (fun code R => Inside base data R ∧ stString ≤ code ∧ R.ptr + (code - stString) < 2 ^ 64)
      (Unharmed base data) := by
  rintro R ⟨h, safe⟩
  unfold readCode
  obtain ⟨front, rest, one, at_, room⟩ | short := ensureSpace_inside h 1 (by decide)
  · obtain ⟨first, rfl⟩ := List.length_eq_one_iff.mp one
    have moved : Inside base data (R.skip 1) := h.skip at_
    have after : (R.skip 1).At rest := at_.skip
    rw [StringSafe, at_.ahead_eq] at safe
    simp only [List.singleton_append] at safe
    rw [bind_ok room, bind_ok (takeByte_at at_)]
    by_cases high : stString ≤ first.toNat
    · have kept : check (stString ≤ first.toNat) (R.skip 1) = .ok () (R.skip 1) := by
        simp [check, high]
      obtain ⟨middle, decoded⟩ := safe high
      rw [bind_ok kept]
      by_cases low : first < 0x80
      · rw [if_pos low]
        have none : codeTail first = 0 := by simp [codeTail, low]
        have same : codeValue first (rest.take (codeTail first)) = first.toNat := by
          simp [codeValue, low]
        obtain ⟨large, bound⟩ := decoded (by omega)
        rw [same] at bound
        rw [none] at bound
        exact ⟨moved, high, bound⟩
      · rw [if_neg low]
        -- with the whole tail ahead, the rest of the code is what `StringSafe` speaks of
        have there (enough : codeTail first ≤ rest.length) :
            Post (fun code R => Inside base data R ∧ stString ≤ code ∧
                R.ptr + (code - stString) < 2 ^ 64) (Unharmed base data)
              ((do let tail ← takeMany (codeTail first); pure (codeValue first tail) : ReaderM ℕ)
                (R.skip 1)) := by
          have length : (rest.take (codeTail first)).length = codeTail first :=
            List.length_take_of_le enough
          have split : (R.skip 1).At (rest.take (codeTail first) ++ rest.drop (codeTail first)) := by
            rwa [List.take_append_drop]
          have taken := takeMany_at split
          rw [length] at taken
          have behind := moved.skip split
          rw [length] at behind
          rw [bind_ok taken]
          obtain ⟨large, bound⟩ := decoded enough
          exact ⟨behind, large, bound⟩
        rw [ensureTail]
        by_cases full : first = 0xFF
        · rw [if_pos full]
          have eight : codeTail first = 8 := by rw [full]; decide
          obtain ⟨tail, rest', length, split, room⟩ | short :=
            ensureSpace_inside moved 8 (by decide)
          · rw [bind_ok room]
            have ahead : rest = tail ++ rest' := by rw [← after.ahead_eq, split.ahead_eq]
            exact there (by rw [eight, ahead, List.length_append]; omega)
          · rw [bind_error short]
            exact ⟨by decide, moved⟩
        · rw [if_neg full, bind_ok (pure_run _ _)]
          exact there (middle full)
    · have broken : check (stString ≤ first.toNat) (R.skip 1) = .error .failed (R.skip 1) := by
        simp [check, high]
      rw [bind_error broken]
      exact ⟨by decide, moved⟩
  · rw [bind_error short]
    exact ⟨by decide, h⟩

/-- A safe string lies in the element. -/
theorem readString_inside :
    Triple (fun R => Inside base data R ∧ StringSafe R) readString
      (fun got R => Inside base data R ∧ base ≤ got.1 ∧ got.1 + got.2 ≤ base + data.length)
      (Unharmed base data) := by
  refine Triple.bind readCode_inside fun code R decoded => ?_
  have h := decoded.1
  have large := decoded.2.1
  have bound := decoded.2.2
  have length : (code + 2 ^ 64 - stString) % 2 ^ 64 = code - stString := by
    simp only [stString] at large bound ⊢
    omega
  simp only [length]
  obtain ⟨rest, at_⟩ := h.here
  have limit := at_.limit_eq
  by_cases enough : code - stString ≤ rest.length
  · have size : (rest.take (code - stString)).length = code - stString :=
      List.length_take_of_le enough
    have split : R.At (rest.take (code - stString) ++ rest.drop (code - stString)) := by
      rwa [List.take_append_drop]
    have room := ensureSpace_at split
    have moved := advance_at split
    have behind := h.skip split
    rw [size] at room moved behind
    rw [bind_ok room, bind_ok (get_run R), bind_ok moved]
    have lower := h.bounds.1
    have upper := behind.bounds.2
    exact ⟨behind, lower, upper⟩
  · have short : ensureSpace (code - stString) R = .error .failed R := by
      rw [ensureSpace, Nat.mod_eq_of_lt bound, if_pos (by omega)]
    rw [bind_error short]
    exact ⟨by decide, h⟩

theorem readerFinish_inside (checksum : Bool) :
    Triple (Inside base data) (readerFinish checksum) (fun _ => Inside base data)
      (Unharmed base data) := by
  intro R h
  unfold readerFinish
  rw [bind_ok (get_run R)]
  by_cases closed : R.depth = 0
  · have kept : assertion (R.depth = 0) R = .ok () R := by simp [assertion, closed]
    rw [bind_ok kept]
    obtain ⟨front, rest, one, at_, room⟩ | short := ensureSpace_inside h 1 (by decide)
    · obtain ⟨mark, rfl⟩ := List.length_eq_one_iff.mp one
      rw [bind_ok room, bind_ok (fetch_at at_)]
      by_cases crc : mark = stCrc
      · rw [if_pos crc]
        obtain ⟨trailer, rest', six, split, room⟩ | short :=
          ensureSpace_inside h 6 (by decide)
        · have lower := h.bounds.1
          have limit := split.limit_eq
          rw [List.length_append, six] at limit
          have begin_eq := h.begin_eq
          have payload : fetchMany R.begin (R.ptr - R.begin) R =
              .ok ((R.data.drop (R.begin - R.begin)).take (R.ptr - R.begin)) R := by
            rw [fetchMany, if_pos ⟨le_rfl, by omega⟩]
          have orig : fetchMany (R.ptr + 1) 4 R =
              .ok ((R.data.drop (R.ptr + 1 - R.begin)).take 4) R := by
            rw [fetchMany, if_pos ⟨by omega, by omega⟩]
          have moved := advance_at split
          have behind := h.skip split
          rw [six] at moved behind
          obtain ⟨dot, hdot⟩ : ∃ dot, (trailer ++ rest')[5]? = some dot :=
            ⟨_, List.getElem?_eq_getElem (by rw [List.length_append]; omega)⟩
          have byte : (R.skip 6).byteAt (R.ptr + 5) = some dot := by
            have here : (R.skip 6).byteAt (R.ptr + 5) = R.byteAt (R.ptr + 5) := rfl
            rw [here, byteAt_at split 5, hdot]
          have read : fetch (R.ptr + 5) (R.skip 6) = .ok dot (R.skip 6) := by
            simp only [fetch, byte]
          rw [bind_ok room, bind_ok payload, bind_ok orig, bind_ok moved, bind_ok read,
            bind_ok (get_run _), check]
          split
          · exact behind
          · exact ⟨by decide, behind⟩
        · rw [bind_error short]
          exact ⟨by decide, h⟩
      · rw [if_neg crc]
        have moved : advance 1 R = .ok () (R.skip 1) := advance_at at_
        have behind : Inside base data (R.skip 1) := h.skip at_
        rw [bind_ok moved, bind_ok (get_run _), check]
        split
        · exact behind
        · exact ⟨by decide, behind⟩
    · rw [bind_error short]
      exact ⟨by decide, h⟩
  · have broken : assertion (R.depth = 0) R = .error .abort R := by simp [assertion, closed]
    rw [bind_error broken]
    exact ⟨by decide, h⟩

theorem readerSkipLoop_inside (fuel : ℕ) (depth : ℤ) :
    Triple (fun R => Inside base data R ∧ SkipSafe fuel depth R) (readerSkipLoop fuel depth)
      (fun _ => Inside base data) (Unharmed base data) := by
  induction fuel generalizing depth with
  | zero =>
      rintro R ⟨h, -⟩
      exact ⟨by decide, h⟩
  | succ fuel ih =>
      rintro R ⟨h, safe⟩
      unfold readerSkipLoop
      rw [SkipSafe] at safe
      refine (readerNext_inside R h).bind fun kind R' announced h' => ?_
      rw [announced] at safe
      cases kind with
      | arrayBegin =>
          refine (readArray_inside R' h').bind fun _ R'' read inside => ?_
          exact ih (toInt (depth + 1)) R'' ⟨inside, safe R'' read⟩
      | string =>
          refine (readString_inside R' ⟨h', safe.1⟩).bind fun got R'' read inside => ?_
          exact ih depth R'' ⟨inside.1, safe.2 got R'' read⟩
      | arrayEnd =>
          by_cases outermost : depth = 0
          · simp only [outermost, if_true]
            exact h'
          · simp only [outermost, if_false]
            refine (readArrayEnd_inside R' h').bind fun _ R'' read inside => ?_
            exact ih (toInt (depth - 1)) R'' ⟨inside, safe outermost R'' read⟩
      | crc => exact ⟨by decide, h'⟩
      | dot => exact ⟨by decide, h'⟩
      | error => exact ⟨by decide, h'⟩

/-- Every call keeps the reader inside the element and answers strings inside it. -/
theorem Call.perform_inside (call : Call) :
    Triple (fun R => Inside base data R ∧ call.Safe R) call.perform
      (fun got R => Inside base data R ∧
        ∀ address length, got = some (address, length) →
          base ≤ address ∧ address + length ≤ base + data.length)
      (Unharmed base data) := by
  rintro R ⟨h, safe⟩
  cases call with
  | next => exact (readerNext_inside R h).bind fun _ _ _ inside => ⟨inside, by simp⟩
  | array => exact (readArray_inside R h).bind fun _ _ _ inside => ⟨inside, by simp⟩
  | arrayEnd => exact (readArrayEnd_inside R h).bind fun _ _ _ inside => ⟨inside, by simp⟩
  | string =>
      refine (readString_inside R ⟨h, safe⟩).bind fun got R' _ inside => ⟨inside.1, ?_⟩
      rintro address length ⟨rfl⟩
      exact inside.2
  | number => exact (readNumber_inside R h).bind fun _ _ _ inside => ⟨inside, by simp⟩
  | skip fuel =>
      exact (readerSkipLoop_inside fuel 0 R ⟨h, safe⟩).bind fun _ _ _ inside => ⟨inside, by simp⟩
  | finish checksum =>
      exact (readerFinish_inside checksum R h).bind fun _ _ _ inside => ⟨inside, by simp⟩

theorem Reader.call_inside {R R' : Reader} {call : Call} (h : Inside base data R)
    (safe : call.Safe R) (done : R.call call = some R') : Inside base data R' := by
  have outcome := call.perform_inside R ⟨h, safe⟩
  unfold Reader.call at done
  by_cases allowed : call.Allowed R
  · rw [if_pos allowed] at done
    cases run : call.perform R with
    | ok got R'' =>
        rw [run] at outcome done
        cases done
        exact outcome.1
    | error e R'' =>
        rw [run] at outcome done
        cases e with
        | failed =>
            cases done
            exact outcome.2
        | fault => cases done
        | abort => cases done
        | outOfFuel => cases done
  · rw [if_neg allowed] at done
    cases done

theorem staysInside_of_inside {R : Reader} {call : Call} (h : Inside base data R)
    (safe : call.Safe R) : StaysInside base data R call := by
  have outcome := call.perform_inside R ⟨h, safe⟩
  unfold StaysInside
  cases run : call.perform R with
  | error e R' =>
      rw [run] at outcome
      exact outcome.1
  | ok got R' =>
      rw [run] at outcome
      obtain ⟨inside, strings⟩ := outcome
      cases got with
      | none => exact inside.bounds
      | some string => exact ⟨inside.bounds, strings string.1 string.2 rfl⟩

end Calls

/-! ## Runs of calls -/

/-- In a run of calls on any element that come to safe strings only, every call stays
inside the element. -/
theorem calls_stay_inside (R₀ : Reader) (file data : Bytes) {R : Reader} {call : Call}
    (fits : R₀.base.address data + data.length + 256 ≤ 2 ^ 64)
    (run : Reaches Reader.call (fun R call => call.Safe R) (R₀.opened file data) R)
    (safe : call.Safe R) : StaysInside (R₀.base.address data) data R call := by
  have start : Inside (R₀.base.address data) data (R₀.opened file data) :=
    ⟨rfl, rfl, data, ⟨fits, [], rfl, rfl⟩⟩
  have inside := run.invariant start fun _ _ _ h safe done => Reader.call_inside h safe done
  exact staysInside_of_inside inside safe

/-- A written string is safe, whatever the form of its length. -/
theorem stringSafe_at {R : Reader} {contents rest : Bytes}
    (at_ : R.At (encodeString contents ++ rest)) : StringSafe R := by
  have fits := string_fits at_
  have bound := at_.bound
  obtain ⟨first, tail, code, length, -, value, -⟩ := writeNumberCode_spec _ fits
  have ahead : R.ahead = first :: (tail ++ (contents ++ rest)) := by
    rw [at_.ahead_eq, encodeString, code, List.cons_append, List.cons_append, List.append_assoc]
  have taken : (tail ++ (contents ++ rest)).take (codeTail first) = tail := by
    rw [← length, List.take_left]
  rw [encodeString, code] at bound
  simp only [List.length_append, List.length_cons] at bound
  rw [StringSafe, ahead]
  intro _
  rw [taken, value, ← length, List.length_append]
  exact ⟨fun _ => Nat.le_add_right _ _, fun _ => ⟨Nat.le_add_left _ _, by omega⟩⟩

theorem Reader.call_of_perform {R R' : Reader} {call : Call} {got : Option (ℕ × ℕ)}
    (allowed : call.Allowed R) (done : call.perform R = .ok got R') : R.call call = some R' := by
  rw [Reader.call, if_pos allowed, done]

/-- An array is entered and the string at its begin is read. -/
theorem reaches_string {R : Reader} {text rest : Bytes} (closed : R.depth = 0)
    (at_ : R.At (stArrayBegin :: (encodeString text ++ rest))) :
    Reaches Reader.call (fun R call => call.Safe R) R
      (Reader.skip { R.skip 1 with depth := R.depth + 1 } (encodeString text).length) := by
  set R₁ : Reader := { R.skip 1 with depth := R.depth + 1 } with hR₁
  have inside : R₁.At (encodeString text ++ rest) :=
    (show R.At ([stArrayBegin] ++ _) from at_).skip.withDepth _
  have depth : R₁.depth = 1 := by
    rw [hR₁, closed]
    rfl
  have array : Call.perform .array R = .ok none R₁ := by
    rw [Call.perform, bind_ok (readArray_at at_ (by omega) (by omega))]
    rfl
  obtain ⟨address, read, -⟩ := readString_at inside (by omega) (by omega)
  have string : Call.perform .string R₁ =
      .ok (some (address, text.length)) (R₁.skip (encodeString text).length) := by
    rw [Call.perform, bind_ok read]
    rfl
  have entered : Reaches Reader.call (fun R call => call.Safe R) R R₁ :=
    Reaches.start.step (l := .array) trivial (Reader.call_of_perform trivial array)
  exact entered.step (l := .string) (stringSafe_at inside) (Reader.call_of_perform trivial string)

/-- The shortest string with a length code of the middle form. -/
def longText : Bytes := List.replicate 112 7

/-- An array around a string of the middle form is entered, the string is read, and the end of
the array is found behind it. -/
theorem calls_stay_inside_string : ∃ R : Reader, R.ptr = 4096 + 115 ∧
    StaysInside 4096 (stArrayBegin :: (encodeString longText ++ [stArrayEnd, stDot])) R
      .arrayEnd := by
  have length : (encodeString longText).length = 114 := by decide +kernel
  generalize longText = text at length ⊢
  set data := stArrayBegin :: (encodeString text ++ [stArrayEnd, stDot]) with hdata
  have room : 4096 + data.length + 256 ≤ 2 ^ 64 := by
    rw [hdata, List.length_cons, List.length_append, length]
    decide
  have start : ((Reader.init [] 4096).opened [] data).At data := ⟨room, [], rfl, rfl⟩
  have run := reaches_string rfl start
  rw [length] at run
  exact ⟨_, rfl, calls_stay_inside (Reader.init [] 4096) [] data room run trivial⟩

/-- A root element of the one byte `0x80`: `read_string` reads the byte behind it. -/
theorem string_read_outside :
    ¬ ∀ (R₀ : Reader) (file data : Bytes) (R : Reader) (call : Call),
      R₀.base.address data + data.length + 256 ≤ 2 ^ 64 →
      Reaches Reader.call anyStep (R₀.opened file data) R → call.Allowed R →
      StaysInside (R₀.base.address data) data R call := by
  intro claim
  have outside := claim (Reader.init [] 4096) [] [0x80] _ .string (by decide) .start trivial
  exact outside rfl

end HybridDatabase.Storage
