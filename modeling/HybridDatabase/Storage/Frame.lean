/-
# Frames

A root element is stored as a frame: a header with the length, the payload and a
trailer that may hold a checksum.  This file says what `reader_begin` and
`reader_finish` do in front of a whole frame, in front of a frame that was cut
off, and at the end of the file.
-/

import HybridDatabase.Storage.Reads

namespace HybridDatabase.Storage

open HybridDatabase.Base

/-- A root element with the payload `body`, as `writer_finish` leaves it. -/
def frame (body : Bytes) (checksum : Bool) : Bytes :=
  Writer.frameHeader (body ++ Writer.trailer body checksum).length ++
    (body ++ Writer.trailer body checksum)

theorem length_frame (body : Bytes) (checksum : Bool) :
    (frame body checksum).length = 10 + (body ++ Writer.trailer body checksum).length := by
  simp [frame]

/-- The reader after `reader_begin` found an element with these bytes. -/
def Reader.opened (R : Reader) (rest data : Bytes) : Reader where
  file := rest
  base := R.base
  data := data
  ptr := R.base.address data
  depth := 0

/-- Where there is room for all buffers, there is room for this one. -/
theorem Reader.opened_fits {R : Reader} {data : Bytes}
    (fits : R.base.top + data.length + 256 ≤ 2 ^ 64) (rest : Bytes) :
    (R.opened rest data).begin + (R.opened rest data).data.length + 256 ≤ 2 ^ 64 := by
  have low := R.base.address_le data
  show R.base.address data + data.length + 256 ≤ 2 ^ 64
  omega

/-- An element that has been opened is in front of its reader. -/
theorem Reader.opened_at {R : Reader} {data : Bytes}
    (fits : R.base.top + data.length + 256 ≤ 2 ^ 64) (rest : Bytes) :
    (R.opened rest data).At data := ⟨opened_fits fits rest, [], rfl, rfl⟩

/-- A part of a list that was put together of two. -/
theorem split_append {α : Type} {cut lost front rest : List α} (h : front ++ rest = cut ++ lost) :
    (∃ more, more ≠ [] ∧ front = cut ++ more) ∨ ∃ more, cut = front ++ more ∧ rest = more ++ lost := by
  rcases List.append_eq_append_iff.mp h with ⟨more, rfl, rest⟩ | ⟨more, rfl, lost⟩
  · exact .inr ⟨more, rfl, rest⟩
  · by_cases empty : more = []
    · subst empty
      exact .inr ⟨[], by simp, by simpa using lost.symm⟩
    · exact .inl ⟨more, empty, rfl⟩

/-! ## Beginning an element -/

theorem readHeader_frameHeader {length : ℕ} (fits : length < 2 ^ 64) :
    readHeader (Writer.frameHeader length) = some length := by
  have split : Writer.frameHeader length = stLenBegin :: (leBytes 8 length ++ [stLenEnd]) := rfl
  have size : (leBytes 8 length).length = 8 := length_leBytes 8 length
  have last : (Writer.frameHeader length)[9]? = some stLenEnd := by
    rw [split, List.getElem?_cons_succ, List.getElem?_append_right (by omega), size]
    rfl
  have digits : ((Writer.frameHeader length).drop 1).take 8 = leBytes 8 length := by
    rw [split, List.drop_one, List.tail_cons, List.take_left' size]
  have value : shiftIn 0 (leBytes 8 length) = length :=
    shiftIn_leBytes_of_lt (by norm_num at fits ⊢; exact fits)
  rw [readHeader, if_pos ⟨rfl, last⟩, digits, value]

theorem fileReaderRead_whole {R : Reader} {front rest : Bytes} (file : R.file = front ++ rest) :
    fileReaderRead front.length R = .ok (.success, front) { R with file := rest } := by
  simp only [fileReaderRead, file, List.take_left, List.drop_left, if_true]

/-- `fread` answers with what is left. -/
theorem fileReaderRead_short {R : Reader} {length : ℕ} (short : R.file.length < length) :
    ∃ status, status ≠ .success ∧
      fileReaderRead length R = .ok (status, R.file) { R with file := [] } ∧
      (status = .endOfFile ↔ R.file = []) := by
  have all : R.file.take length = R.file := List.take_of_length_le (by omega)
  have none : R.file.drop length = [] := List.drop_of_length_le (by omega)
  have different : R.file.length ≠ length := by omega
  simp only [fileReaderRead, all, none, different, if_false]
  by_cases empty : R.file = []
  · exact ⟨.endOfFile, by decide, by simp [empty], by simp [empty]⟩
  · have : R.file.length ≠ 0 := by simpa using empty
    exact ⟨.fail, by decide, by simp [this], by simp [empty]⟩

/-- In front of a whole element `reader_begin` loads it. -/
theorem readerBegin_whole {R : Reader} {data rest : Bytes} (fits : data.length < 2 ^ 64)
    (file : R.file = Writer.frameHeader data.length ++ (data ++ rest)) :
    readerBegin R = .ok .success (R.opened rest data) := by
  have header : fileReaderRead 10 R =
      .ok (.success, Writer.frameHeader data.length) { R with file := data ++ rest } := by
    rw [← Writer.length_frameHeader data.length]
    exact fileReaderRead_whole file
  have payload : fileReaderRead data.length { R with file := data ++ rest } =
      .ok (.success, data) { R with file := rest } := fileReaderRead_whole rfl
  unfold readerBegin
  rw [bind_ok header]
  simp only [readHeader_frameHeader fits]
  rw [bind_ok payload]
  rfl

theorem readerBegin_end {R : Reader} (file : R.file = []) :
    readerBegin R = .ok .endOfFile { R with file := [] } := by
  obtain ⟨status, -, read, isEnd⟩ := fileReaderRead_short (show R.file.length < 10 by simp [file])
  obtain rfl := isEnd.mpr file
  unfold readerBegin
  rw [bind_ok read]
  rfl

/-- In front of a frame that was cut off `reader_begin` fails, wherever the cut is. -/
theorem readerBegin_cut {R : Reader} {data : Bytes} (fits : data.length < 2 ^ 64)
    (nonempty : R.file ≠ [])
    (cut : R.file <+: Writer.frameHeader data.length ++ data)
    (short : R.file.length < 10 + data.length) :
    readerBegin R = .ok .fail { R with file := [] } := by
  by_cases header : R.file.length < 10
  · obtain ⟨status, fails, read, isEnd⟩ := fileReaderRead_short header
    have notEnd : status ≠ .endOfFile := fun h => nonempty (isEnd.mp h)
    have failed : status = .fail := by
      cases status with
      | fail => rfl
      | success => exact absurd rfl fails
      | endOfFile => exact absurd rfl notEnd
    unfold readerBegin
    rw [bind_ok read, failed]
    rfl
  · -- the header is whole, so the cut is in the body
    obtain ⟨body, file⟩ : ∃ body, R.file = Writer.frameHeader data.length ++ body := by
      have same : Writer.frameHeader data.length = R.file.take 10 := by
        have := List.prefix_iff_eq_take.mp cut
        rw [this, List.take_take, Nat.min_eq_left (by omega),
          ← Writer.length_frameHeader data.length, List.take_left]
      exact ⟨R.file.drop 10, by rw [same, List.take_append_drop]⟩
    have tail : body.length < data.length := by
      rw [file, List.length_append, Writer.length_frameHeader] at short
      omega
    have first : fileReaderRead 10 R =
        .ok (.success, Writer.frameHeader data.length) { R with file := body } := by
      rw [← Writer.length_frameHeader data.length]
      exact fileReaderRead_whole file
    obtain ⟨status, fails, second, -⟩ :=
      fileReaderRead_short (R := { R with file := body }) tail
    unfold readerBegin
    rw [bind_ok first]
    simp only [readHeader_frameHeader fits]
    rw [bind_ok second]
    simp only [fails, if_false]
    rfl

/-- In front of less than a whole frame `reader_begin` does not succeed. -/
theorem readerBegin_short {R : Reader} {data : Bytes} (fits : data.length < 2 ^ 64)
    (cut : R.file <+: Writer.frameHeader data.length ++ data)
    (short : R.file.length < 10 + data.length) :
    ∃ status, status ≠ .success ∧ (status = .endOfFile ↔ R.file = []) ∧
      readerBegin R = .ok status { R with file := [] } := by
  by_cases empty : R.file = []
  · exact ⟨.endOfFile, by decide, by simp [empty], readerBegin_end empty⟩
  · exact ⟨.fail, by decide, by simp [empty], readerBegin_cut fits empty cut short⟩

/-- A header that is read is the header of the length that is read from it. -/
theorem eq_frameHeader {header : Bytes} {length : ℕ} (ten : header.length = 10)
    (read : readHeader header = some length) :
    header = Writer.frameHeader length ∧ length < 2 ^ 64 := by
  unfold readHeader at read
  obtain ⟨⟨first, last⟩, value⟩ := Option.ite_none_right_eq_some.mp read
  obtain ⟨mark, digits, rfl⟩ := List.exists_cons_of_length_eq_add_one ten
  rw [List.length_cons] at ten
  have eight : (digits.take 8).length = 8 := List.length_take_of_le (by omega)
  have value : shiftIn 0 (digits.take 8) = length := Option.some.inj value
  have back : digits.drop 8 = [stLenEnd] := by
    rw [List.getElem?_cons_succ] at last
    rw [List.drop_eq_getElem_cons (by omega), List.drop_of_length_le (by omega)]
    rw [List.getElem?_eq_getElem (by omega)] at last
    rw [Option.some.inj last]
  have code := leBytes_shiftIn (digits.take 8)
  have small := shiftIn_lt (digits.take 8)
  rw [eight, value] at code small
  refine ⟨?_, small⟩
  rw [Writer.frameHeader, code, Option.some.inj first, ← back, List.cons_append,
    List.take_append_drop]

/-- `reader_begin` succeeds in front of a whole frame only. -/
theorem readerBegin_cases (R : Reader) :
    (∃ data rest, data.length < 2 ^ 64 ∧
      R.file = Writer.frameHeader data.length ++ (data ++ rest)) ∨
    ∃ status R', status ≠ .success ∧ readerBegin R = .ok status R' := by
  by_cases header : R.file.length < 10
  · obtain ⟨status, fails, read, -⟩ := fileReaderRead_short header
    right
    unfold readerBegin
    rw [bind_ok read]
    cases status with
    | success => exact absurd rfl fails
    | fail => exact ⟨.fail, _, by decide, rfl⟩
    | endOfFile => exact ⟨.endOfFile, _, by decide, rfl⟩
  · obtain ⟨front, back, ten, file⟩ : ∃ front back, List.length front = 10 ∧
        R.file = front ++ back :=
      ⟨R.file.take 10, R.file.drop 10, List.length_take_of_le (by omega),
        (List.take_append_drop 10 R.file).symm⟩
    have first := fileReaderRead_whole file
    rw [ten] at first
    cases read : readHeader front with
    | none =>
        right
        unfold readerBegin
        rw [bind_ok first]
        dsimp only
        rw [read]
        exact ⟨.fail, _, by decide, rfl⟩
    | some length =>
        obtain ⟨rfl, small⟩ := eq_frameHeader ten read
        by_cases short : back.length < length
        · obtain ⟨status, fails, second, -⟩ :=
            @fileReaderRead_short { R with file := back } length short
          right
          unfold readerBegin
          rw [bind_ok first]
          dsimp only
          rw [read]
          dsimp only
          rw [bind_ok second]
          dsimp only
          rw [if_neg fails]
          exact ⟨.fail, _, by decide, rfl⟩
        · have whole : (back.take length).length = length :=
            List.length_take_of_le (Nat.not_lt.mp short)
          refine .inl ⟨back.take length, back.drop length, by omega, ?_⟩
          rw [whole, List.take_append_drop, file]

/-! ## Finishing an element -/

/-- Behind the payload `reader_finish` accepts the trailer that `writer_finish` wrote,
if it holds a checksum where one is required. -/
theorem readerFinish_trailer {R : Reader} {body : Bytes} {checksum required : Bool}
    (fits : R.begin + R.data.length + 256 ≤ 2 ^ 64)
    (data : R.data = body ++ Writer.trailer body checksum)
    (ptr : R.ptr = R.begin + body.length) (closed : R.depth = 0)
    (enough : required = true → checksum = true) :
    readerFinish required R = .ok () (R.skip (Writer.trailer body checksum).length) := by
  have closed_ : assertion (R.depth = 0) R = .ok () R := by
    simp only [assertion, closed, decide_true, if_true, pure_run]
  cases checksum with
  | true =>
      set crc := crcBytes (crc32c body 0) with hcrc
      have four : crc.length = 4 := length_crcBytes _
      have trailer : Writer.trailer body true = stCrc :: (crc ++ [stDot]) := rfl
      have total : R.limit = R.ptr + 6 := by
        simp only [Reader.limit, data, trailer, ptr, List.length_append, List.length_cons,
          List.length_nil, four, Nat.add_assoc]
      have at_ : R.At ([stCrc] ++ (crc ++ ([stDot] ++ []))) :=
        ⟨fits, body, by rw [data, trailer]; simp, ptr⟩
      have here : R.At (stCrc :: (crc ++ [stDot])) := by simpa using at_
      have one : ensureSpace 1 R = .ok () R := ensureSpace_at at_
      have six : ensureSpace 6 R = .ok () R := by
        have := ensureSpace_at (show R.At ((stCrc :: (crc ++ [stDot])) ++ []) by simpa using here)
        simpa [four] using this
      have payload : fetchMany R.begin (R.ptr - R.begin) R = .ok body R := by
        have offset : R.ptr - R.begin = body.length := by omega
        rw [fetchMany, if_pos ⟨le_rfl, by omega⟩, Nat.sub_self, List.drop_zero, offset, data,
          List.take_left]
      have orig : fetchMany (R.ptr + 1) 4 R = .ok crc R := by
        have offset : R.ptr + 1 - R.begin = (body ++ [stCrc]).length := by
          simp only [List.length_append, List.length_cons, List.length_nil]; omega
        have shape : R.data = (body ++ [stCrc]) ++ (crc ++ [stDot]) := by
          rw [data, trailer]; simp
        rw [fetchMany, if_pos ⟨by omega, by omega⟩, offset, shape, List.drop_left, ← four,
          List.take_left]
      have six_ : advance 6 R = .ok () (R.skip 6) := by
        have := advance_at (show R.At ((stCrc :: (crc ++ [stDot])) ++ []) by simpa using here)
        simpa [four] using this
      have dot : fetch (R.ptr + 5) (R.skip 6) = .ok stDot (R.skip 6) := by
        have byte : (R.skip 6).byteAt (R.ptr + 5) = some stDot := by
          have shape := byteAt_at here 5
          have same : (R.skip 6).byteAt (R.ptr + 5) = R.byteAt (R.ptr + 5) := rfl
          rw [same, shape, List.getElem?_cons_succ, List.getElem?_append_right (by omega), four]
          rfl
        simp only [fetch, byte]
      have value : shiftIn 0 crc = (crc32c body 0).toNat := shiftIn_crcBytes _
      unfold readerFinish
      rw [bind_ok (get_run R), bind_ok closed_, bind_ok one, bind_ok (fetch_at here)]
      simp only [if_true]
      rw [bind_ok six, bind_ok payload, bind_ok orig, bind_ok six_, bind_ok dot,
        bind_ok (get_run _)]
      have reached : (R.skip 6).ptr = (R.skip 6).limit := total.symm
      simp only [check, reached, value, decide_true, Bool.and_self, if_true, pure_run, trailer,
        List.length_cons, List.length_append, four, List.length_nil]
  | false =>
      have optional : required = false := by
        cases required with
        | false => rfl
        | true => exact absurd (enough rfl) (by decide)
      have trailer : Writer.trailer body false = [stDot] := rfl
      have at_ : R.At ([stDot] ++ []) := ⟨fits, body, by rw [data, trailer]; simp, ptr⟩
      have here : R.At [stDot] := at_
      have one : ensureSpace 1 R = .ok () R := ensureSpace_at at_
      have one_ : advance 1 R = .ok () (R.skip 1) := advance_at at_
      have reached : (R.skip 1).ptr = (R.skip 1).limit := here.limit_eq.symm
      have other : ¬ stDot = stCrc := by decide
      unfold readerFinish
      rw [bind_ok (get_run R), bind_ok closed_, bind_ok one, bind_ok (fetch_at here), if_neg other,
        bind_ok one_, bind_ok (get_run _)]
      simp only [check, reached, optional, decide_true, Bool.not_false, Bool.and_self, if_true,
        pure_run, trailer, List.length_cons, List.length_nil, Nat.zero_add]

/-- In front of anything but such a trailer `reader_finish` answers `false`. -/
theorem readerFinish_cases {R : Reader} {done rest : Bytes} {required : Bool}
    (fits : R.begin + R.data.length + 256 ≤ 2 ^ 64) (data : R.data = done ++ rest)
    (ptr : R.ptr = R.begin + done.length) (closed : R.depth = 0) :
    (∃ checksum, rest = Writer.trailer done checksum ∧ (required = true → checksum = true)) ∨
      ∃ R', readerFinish required R = .error .failed R' := by
  have closed_ : assertion (R.depth = 0) R = .ok () R := by
    simp only [assertion, closed, decide_true, if_true, pure_run]
  have at_ : R.At rest := ⟨fits, done, data, ptr⟩
  have limit := at_.limit_eq
  unfold readerFinish
  rw [bind_ok (get_run R), bind_ok closed_]
  cases rest with
  | nil =>
      rw [bind_error (ensureSpace_short at_ Nat.zero_lt_one (by decide))]
      exact .inr ⟨R, rfl⟩
  | cons mark more =>
      rw [List.length_cons] at limit
      have one : ensureSpace 1 R = .ok () R := ensureSpace_at (show R.At ([mark] ++ more) from at_)
      rw [bind_ok one, bind_ok (fetch_at at_)]
      by_cases crc : mark = stCrc
      · rw [if_pos crc]
        by_cases short : more.length + 1 < 6
        · rw [bind_error (ensureSpace_short at_ short (by decide))]
          exact .inr ⟨R, rfl⟩
        · -- four bytes, a dot and what may stand behind it
          obtain ⟨orig, dot, extra, four, rfl⟩ : ∃ orig dot extra, List.length orig = 4 ∧
              more = orig ++ dot :: extra :=
            ⟨more.take 4, more.get ⟨4, by omega⟩, more.drop 5, List.length_take_of_le (by omega), by
              rw [List.get_eq_getElem, ← List.drop_eq_getElem_cons, List.take_append_drop]⟩
          simp only [List.length_append, List.length_cons, four] at limit
          have split : R.At ((mark :: (orig ++ [dot])) ++ extra) := by simpa using at_
          have six : (mark :: (orig ++ [dot])).length = 6 := by simp [four]
          have room := ensureSpace_at split
          have moved := advance_at split
          rw [six] at room moved
          have offset : R.ptr - R.begin = done.length := by omega
          have payload : fetchMany R.begin (R.ptr - R.begin) R = .ok done R := by
            rw [fetchMany, if_pos ⟨le_rfl, by omega⟩, Nat.sub_self, List.drop_zero, offset, data,
              List.take_left]
          have stored : fetchMany (R.ptr + 1) 4 R = .ok orig R := by
            have offset : R.ptr + 1 - R.begin = (done ++ [mark]).length := by
              simp only [List.length_append, List.length_cons, List.length_nil]; omega
            have shape : R.data = (done ++ [mark]) ++ (orig ++ dot :: extra) := by
              rw [data]; simp
            rw [fetchMany, if_pos ⟨by omega, by omega⟩, offset, shape, List.drop_left, ← four,
              List.take_left]
          have last : fetch (R.ptr + 5) (R.skip 6) = .ok dot (R.skip 6) := by
            have byte : (R.skip 6).byteAt (R.ptr + 5) = some dot := by
              have same : (R.skip 6).byteAt (R.ptr + 5) = R.byteAt (R.ptr + 5) := rfl
              rw [same, byteAt_at at_ 5, List.getElem?_cons_succ,
                List.getElem?_append_right (by omega), four]
              rfl
            simp only [fetch, byte]
          rw [bind_ok room, bind_ok payload, bind_ok stored, bind_ok moved, bind_ok last,
            bind_ok (get_run _)]
          unfold check
          split
          · next agrees =>
              simp only [Bool.and_eq_true, decide_eq_true_eq] at agrees
              obtain ⟨⟨reached, isDot⟩, same⟩ := agrees
              have none : extra = [] := by
                have reached : R.ptr + 6 = R.limit := reached
                exact List.eq_nil_of_length_eq_zero (by omega)
              have code : orig = crcBytes (crc32c done 0) := by
                rw [crcBytes, same, ← four, leBytes_shiftIn]
              refine .inl ⟨true, ?_, fun _ => rfl⟩
              rw [crc, none, isDot, code]
              rfl
          · exact .inr ⟨_, rfl⟩
      · rw [if_neg crc]
        have moved : advance 1 R = .ok () (R.skip 1) :=
          advance_at (show R.At ([mark] ++ more) from at_)
        rw [bind_ok moved, bind_ok (get_run _)]
        unfold check
        split
        · next agrees =>
            simp only [Bool.and_eq_true, decide_eq_true_eq, Bool.not_eq_true'] at agrees
            obtain ⟨⟨reached, isDot⟩, optional⟩ := agrees
            have none : more = [] := by
              have reached : R.ptr + 1 = R.limit := reached
              exact List.eq_nil_of_length_eq_zero (by omega)
            refine .inl ⟨false, ?_, fun must => ?_⟩
            · rw [isDot, none]
              rfl
            · rw [must] at optional
              cases optional
        · exact .inr ⟨_, rfl⟩

end HybridDatabase.Storage
