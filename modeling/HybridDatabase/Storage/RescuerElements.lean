/-
# One element in the rescuer

From an element that matches the grammar the rescuer makes the bytes the writer would
write for the same tree, unless it breaks on the way; it breaks exactly in front of the
bytes that `Harmful` names, and everything else it refuses.
-/

import HybridDatabase.Storage.Rescuer

namespace HybridDatabase.Storage

open HybridDatabase.Base

variable {base : Bases} {level level' level'' : ℕ} {file done body ahead : Bytes} {S : Rescue}

/-! ## Stretches of the loop -/

/-- The loop comes to a turn with `level'` arrays open and `P`; where the element is too
deep, it may break before. -/
def Comes (deep : Prop) (level level' : ℕ) (S : Rescue) (P : Rescue → Prop) : Prop :=
  (∃ n S', P S' ∧ ∀ fuel, processLoop (fuel + n) level S = processLoop fuel level' S') ∨
    deep ∧ ∃ n e S', Broken e ∧ ∀ fuel, processLoop (fuel + n) level S = .error e S'

/-- The loop ends with `P`; where the element is too deep, it may break. -/
def Ends (deep : Prop) (level : ℕ) (S : Rescue) (P : Rescue → Prop) : Prop :=
  (∃ n S', P S' ∧ ∀ fuel, processLoop (fuel + n) level S = .ok () S') ∨
    deep ∧ ∃ n e S', Broken e ∧ ∀ fuel, processLoop (fuel + n) level S = .error e S'

variable {P Q : Rescue → Prop} {deep deep' : Prop}

theorem Comes.here (start : P S) : Comes deep level level S P := .inl ⟨0, S, start, fun _ => rfl⟩

theorem Comes.mono (comes : Comes deep level level' S P) (deeper : deep → deep') :
    Comes deep' level level' S P := comes.imp_right fun broken => ⟨deeper broken.1, broken.2⟩

theorem Comes.trans (first : Comes deep level level' S P)
    (second : ∀ S', P S' → Comes deep level' level'' S' Q) : Comes deep level level'' S Q := by
  obtain ⟨n, S', there, same⟩ | broken := first
  · obtain ⟨m, S'', there', same'⟩ | ⟨tooDeep, m, e, S'', broken, same'⟩ := second S' there
    · exact .inl ⟨m + n, S'', there', fun fuel => by rw [← Nat.add_assoc, same, same']⟩
    · exact .inr ⟨tooDeep, m + n, e, S'', broken, fun fuel => by
        rw [← Nat.add_assoc, same, same']⟩
  · exact .inr broken

theorem Comes.ends (first : Comes deep level level' S P)
    (second : ∀ S', P S' → Ends deep level' S' Q) : Ends deep level S Q := by
  obtain ⟨n, S', there, same⟩ | broken := first
  · obtain ⟨m, S'', there', same'⟩ | ⟨tooDeep, m, e, S'', broken, same'⟩ := second S' there
    · exact .inl ⟨m + n, S'', there', fun fuel => by rw [← Nat.add_assoc, same, same']⟩
    · exact .inr ⟨tooDeep, m + n, e, S'', broken, fun fuel => by
        rw [← Nat.add_assoc, same, same']⟩
  · exact .inr broken

/-- A turn behind which an array is open. -/
theorem Comes.turn {S' : Rescue} (turn : processTurn level S = .ok (level' : ℤ) S')
    (inside : 0 < level') (there : P S') : Comes deep level level' S P := by
  refine .inl ⟨1, S', there, fun fuel => ?_⟩
  rw [processLoop_ok turn, if_neg (by omega)]

/-- A turn behind which no array is open. -/
theorem Ends.turn {S' : Rescue} (turn : processTurn level S = .ok ((0 : ℕ) : ℤ) S')
    (there : P S') : Ends deep level S P := by
  refine .inl ⟨1, S', there, fun fuel => ?_⟩
  rw [processLoop_ok turn]
  rfl

theorem Comes.broken {e : ReadError} {S' : Rescue} (tooDeep : deep) (broken : Broken e)
    (turn : processTurn level S = .error e S') : Comes deep level level' S P :=
  .inr ⟨tooDeep, 1, e, S', broken, fun _ => processLoop_error turn⟩

/-! ## Trees -/

/-- An opening bracket, if there is room for one more level. -/
theorem comes_opening {rest : Bytes}
    (working : Working base file done body (stArrayBegin :: rest) level S) :
    Comes (2 ^ 31 ≤ level + 1) level (level + 1) S (Working base file (done ++ [stArrayBegin])
      (body ++ [stArrayBegin]) rest (level + 1)) := by
  have shallow := working.shallow
  by_cases room : level + 1 < 2 ^ 31
  · obtain ⟨S', turn, working'⟩ := working.turn_opening room
    exact .turn turn (Nat.succ_pos level) working'
  · obtain ⟨e, S', broken, turn⟩ := working.turn_harmful (.inr (.inl ⟨rfl, by omega⟩))
    exact .broken (Nat.not_lt.mp room) broken turn

mutual

/-- Inside an array the loop takes a whole tree. -/
theorem comes_tree : ∀ (tree : Tree) (bytes rest done body : Bytes) (level : ℕ) (S : Rescue),
    tree.Matches bytes → 0 < level →
    Working base file done body (bytes ++ rest) level S →
    Comes (2 ^ 31 ≤ level + tree.nesting) level level S
      (Working base file (done ++ bytes) (body ++ tree.encode) rest level)
  | .string contents, bytes, rest, done, body, level, S, here, inside, working => by
      obtain ⟨code, isCode, rfl⟩ := here
      rw [List.append_assoc] at working
      obtain ⟨S', turn, working'⟩ := working.turn_string isCode
      exact .turn turn inside working'
  | .array items, bytes, rest, done, body, level, S, here, inside, working => by
      obtain ⟨inner, here, rfl⟩ := here
      have start : Working base file done body
          (stArrayBegin :: (inner ++ stArrayEnd :: rest)) level S := by
        simpa [encodeArray] using working
      rw [Tree.nesting]
      refine ((comes_opening start).mono (by omega)).trans fun S₁ working₁ =>
        ((comes_items items inner (stArrayEnd :: rest) _ _ (level + 1) S₁ here
          (Nat.succ_pos level) working₁).mono (by omega)).trans fun S₂ working₂ => ?_
      obtain ⟨S₃, turn, working₃⟩ := working₂.turn_closing
      refine .turn turn inside ?_
      simpa [Tree.encode, encodeArray] using working₃

theorem comes_items : ∀ (items : List Tree) (bytes rest done body : Bytes) (level : ℕ)
    (S : Rescue), Tree.MatchesItems items bytes → 0 < level →
    Working base file done body (bytes ++ rest) level S →
    Comes (2 ^ 31 ≤ level + Tree.nestingItems items) level level S
      (Working base file (done ++ bytes) (body ++ Tree.encodeItems items) rest level)
  | [], bytes, rest, done, body, level, S, here, _, working => by
      obtain rfl : bytes = [] := here
      refine .here ?_
      simpa [Tree.encodeItems] using working
  | tree :: items, bytes, rest, done, body, level, S, here, inside, working => by
      obtain ⟨front, back, first, others, rfl⟩ := here
      rw [List.append_assoc] at working
      rw [Tree.nestingItems]
      refine ((comes_tree tree front (back ++ rest) done body level S first inside
        working).mono (by omega)).trans fun S₁ working₁ => ?_
      have more := (comes_items items back rest (done ++ front) (body ++ tree.encode) level S₁
        others inside working₁).mono
          (show _ → 2 ^ 31 ≤ level + max tree.nesting (Tree.nestingItems items) by omega)
      simpa only [Tree.encodeItems, List.append_assoc] using more

end

/-- The loop comes to every place behind which an element can go on. -/
theorem comes_opens {stack : List (List Tree)} (opens : Opens stack done) (start : Working base
    file [] [] (done ++ ahead) 0 S) :
    Comes True 0 stack.length S
      (Working base file done (encodeOpens stack) ahead stack.length) := by
  induction stack generalizing done ahead with
  | nil =>
      obtain rfl : done = [] := opens
      exact .here start
  | cons items outer ih =>
      obtain ⟨before, inner, opened, inside, rfl⟩ := opens
      rw [List.append_assoc, List.cons_append] at start
      refine (ih opened start).trans fun S₁ working₁ =>
        ((comes_opening working₁).mono fun _ => trivial).trans fun S₂ working₂ => ?_
      have more := (comes_items items inner ahead _ _ (outer.length + 1) S₂ inside
        (Nat.succ_pos _) working₂).mono (fun _ => trivial)
      simpa [encodeOpens] using more

/-- Over an element at the root the loop ends behind it. -/
theorem ends_tree {tree : Tree} {bytes rest : Bytes} (here : tree.Matches bytes)
    (start : Working base file [] [] (bytes ++ rest) 0 S) :
    Ends (2 ^ 31 ≤ tree.nesting) 0 S (Working base file bytes tree.encode rest 0) := by
  cases tree with
  | string contents =>
      obtain ⟨code, isCode, rfl⟩ := here
      rw [List.append_assoc] at start
      obtain ⟨S', turn, working⟩ := start.turn_string isCode
      exact .turn turn working
  | array items =>
      obtain ⟨inner, inside, rfl⟩ := here
      have start : Working base file [] [] (stArrayBegin :: (inner ++ stArrayEnd :: rest)) 0 S := by
        simpa [encodeArray] using start
      rw [Tree.nesting]
      refine ((comes_opening start).mono (by omega)).ends fun S₁ working₁ =>
        ((comes_items items inner (stArrayEnd :: rest) _ _ 1 S₁ inside Nat.zero_lt_one
          working₁).mono (by omega)).ends fun S₂ working₂ => ?_
      obtain ⟨S₃, turn, working₃⟩ := working₂.turn_closing
      refine .turn turn ?_
      simpa [Tree.encode, encodeArray] using working₃

/-! ## Any bytes -/

/-- The rescuer is behind an element, and it has written it. -/
def Behind (base : Bases) (file data : Bytes) (S : Rescue) : Prop :=
  ∃ (tree : Tree) (bytes rest : Bytes), data = bytes ++ rest ∧ tree.Matches bytes ∧
    Working base file bytes tree.encode rest 0 S

/-- The loop ends behind an element, in an answer, or in front of harmful bytes. -/
theorem processLoop_forward (fuel : ℕ) {stack : List (List Tree)} (opens : Opens stack done)
    (working : Working base file done (encodeOpens stack) ahead stack.length S)
    (enough : ahead.length < fuel) :
    Post (fun _ => Behind base file (done ++ ahead))
      (fun e _ => e = .failed ∨
        Broken e ∧ ¬Harmless (base.address (done ++ ahead)) (done ++ ahead))
      (processLoop fuel stack.length S) := by
  induction fuel generalizing stack done ahead S with
  | zero => exact absurd enough (Nat.not_lt_zero _)
  | succ fuel ih =>
      by_cases harmful : Harmful stack.length (base.address (done ++ ahead) + done.length) ahead
      · obtain ⟨e, S', broken, turn⟩ := working.turn_harmful harmful
        rw [processLoop_error turn]
        exact .inr ⟨broken, fun harmless => harmless stack done ahead rfl opens harmful⟩
      -- a complete tree ends the loop or is one more item of the innermost array
      have complete {before bytes rest : Bytes} {outer : List (List Tree)} {tree : Tree}
          {S' : Rescue} (opened : Opens outer before) (here : tree.Matches bytes)
          (whole : done ++ ahead = before ++ bytes ++ rest) (less : rest.length < ahead.length)
          (turn : processTurn stack.length S = .ok (outer.length : ℤ) S')
          (working' : Working base file (before ++ bytes) (encodeOpens outer ++ tree.encode) rest
            outer.length S') :
          Post (fun _ => Behind base file (done ++ ahead))
            (fun e _ => e = .failed ∨
              Broken e ∧ ¬Harmless (base.address (done ++ ahead)) (done ++ ahead))
            (processLoop (fuel + 1) stack.length S) := by
        rw [processLoop_ok turn]
        cases outer with
        | nil =>
            obtain rfl : before = [] := opened
            exact ⟨tree, bytes, rest, whole, here, working'⟩
        | cons items outer =>
            rw [if_neg (by simp; omega), whole]
            rw [← encodeOpens_item] at working'
            have later := ih (opened.item here) working' (by omega)
            exact later
      obtain ⟨rest, rfl, room⟩ | ⟨rest, outer, rfl, deeper⟩ | ⟨code, contents, rest, rfl, isCode⟩ |
        ⟨S', turn⟩ := working.turn_cases harmful
      · obtain ⟨S', turn, working'⟩ := working.turn_opening room
        have whole : done ++ stArrayBegin :: rest = done ++ [stArrayBegin] ++ rest := by simp
        rw [processLoop_ok turn, if_neg (by omega), whole]
        exact ih opens.opening working' (by simpa using enough)
      · obtain _ | ⟨items, outer⟩ := stack
        · cases deeper
        · obtain ⟨before, bytes, opened, here, split⟩ := opens.closing
          obtain ⟨S', turn, working'⟩ := working.turn_closing
          rw [encodeOpens_closing, split] at working'
          refine complete opened here ?_ (Nat.lt_succ_self _) turn working'
          rw [← split, List.append_assoc, List.singleton_append]
      · obtain ⟨S', turn, working'⟩ := working.turn_string isCode
        obtain ⟨first, tail, code_eq, -⟩ := id isCode
        have here : (Tree.string contents).Matches (code ++ contents) := ⟨code, isCode, rfl⟩
        refine complete opens here ?_ ?_ turn working'
        · simp only [List.append_assoc]
        · simp only [List.length_append, code_eq, List.length_cons]
          omega
      · rw [processLoop_error turn]
        exact .inl rfl

/-- More fuel does not change how the loop ends. -/
theorem processLoop_mono {fuel : ℕ} {indent : ℤ}
    (ends : Post (fun _ _ => True) (fun e _ => e ≠ .outOfFuel) (processLoop fuel indent S))
    (more : ℕ) : processLoop (fuel + more) indent S = processLoop fuel indent S := by
  induction fuel generalizing S indent with
  | zero => exact absurd rfl ends
  | succ fuel ih =>
      rw [Nat.add_right_comm]
      cases turn : processTurn indent S with
      | error e S' => rw [processLoop_error turn, processLoop_error turn]
      | ok indent' S' =>
          rw [processLoop_ok turn] at ends
          rw [processLoop_ok turn, processLoop_ok turn]
          split
          · rfl
          · next inside =>
              rw [if_neg inside] at ends
              exact ih ends

theorem Broken.ne_outOfFuel {e : ReadError} (broken : Broken e) : e ≠ .outOfFuel := by
  rintro rfl
  rcases broken with broken | broken
  · cases broken
  · cases broken

section Element

variable {data : Bytes} {fuel : ℕ}

/-- The loop does not run on for ever. -/
theorem processLoop_ends (start : Working base file [] [] data 0 S) (enough : data.length < fuel) :
    Post (fun _ _ => True) (fun e _ => e ≠ .outOfFuel) (processLoop fuel 0 S) := by
  have forward := @processLoop_forward base file [] data S fuel [] rfl start enough
  cases run : processLoop fuel 0 S with
  | ok _ S' => trivial
  | error e S' =>
      rw [List.length_nil, Nat.cast_zero, run] at forward
      obtain rfl | ⟨broken, -⟩ := forward
      · exact fun same => by cases same
      · exact broken.ne_outOfFuel

/-- From an element that matches the grammar the loop goes to its end, if it is not too
deep. -/
theorem processLoop_matches {tree : Tree} {bytes rest : Bytes} (here : tree.Matches bytes)
    (start : Working base file [] [] (bytes ++ rest) 0 S)
    (enough : (bytes ++ rest).length < fuel) :
    Post (fun _ S' => Working base file bytes tree.encode rest 0 S')
      (fun e _ => Broken e ∧ 2 ^ 31 ≤ tree.nesting) (processLoop fuel 0 S) := by
  have ends := processLoop_ends start enough
  obtain ⟨n, S', there, same⟩ | ⟨tooDeep, n, e, S', broken, same⟩ := ends_tree here start
  · rw [← processLoop_mono ends n]
    have same := same fuel
    rw [Nat.cast_zero] at same
    rw [same]
    exact there
  · rw [← processLoop_mono ends n]
    have same := same fuel
    rw [Nat.cast_zero] at same
    rw [same]
    exact ⟨broken, tooDeep⟩

/-- The loop breaks exactly on the way to harmful bytes. -/
theorem processLoop_broken_iff (start : Working base file [] [] data 0 S)
    (enough : data.length < fuel) :
    (∃ e S', Broken e ∧ processLoop fuel 0 S = .error e S') ↔
      ¬Harmless (base.address data) data := by
  constructor
  · rintro ⟨e, S', broken, run⟩
    have forward := @processLoop_forward base file [] data S fuel [] rfl start enough
    rw [List.length_nil, Nat.cast_zero, run] at forward
    obtain rfl | ⟨-, harmful⟩ := forward
    · rcases broken with broken | broken
      · cases broken
      · cases broken
    · exact harmful
  · intro some_harm
    unfold Harmless at some_harm
    push Not at some_harm
    obtain ⟨stack, done, ahead, rfl, opens, harmful⟩ := some_harm
    have ends := processLoop_ends start enough
    have comes : Comes True 0 stack.length S (fun _ => False) := by
      refine (comes_opens opens start).trans fun S' working => ?_
      obtain ⟨e, S'', broken, turn⟩ := working.turn_harmful harmful
      exact .broken trivial broken turn
    obtain ⟨n, S', absent, -⟩ | ⟨-, n, e, S', broken, same⟩ := comes
    · exact absent.elim
    · have same := same fuel
      rw [Nat.cast_zero, processLoop_mono ends n] at same
      exact ⟨e, S', broken, same⟩

end Element

/-! ## The end of an element -/

/-- The rescuer between two elements; `file` is what it has not read. -/
structure Between (base : Bases) (file out : Bytes) (S : Rescue) : Prop where
  base_eq : S.reader.base = base
  file_eq : S.reader.file = file
  written : S.writer.Holds [] []
  depth_eq : S.writer.depth = 0
  output_eq : S.output = out

/-- Behind an element, in front of its trailer. -/
theorem processEnd_trailer {bytes : Bytes} {checksum : Bool}
    (working : Working base file bytes body (Writer.trailer bytes checksum) 0 S) :
    ∃ S', processEnd S = .ok () S' ∧ S'.reader.base = base ∧ S'.reader.file = file ∧
      S'.writer.Holds (frame body checksum) [] ∧ S'.writer.depth = 0 := by
  obtain ⟨W, finished, holds, depth⟩ := working.written.finish working.depth_eq checksum
  have read : onReader (readerFinish checksum) S = .ok ()
      { S with
        reader := S.reader.skip (Writer.trailer bytes checksum).length } := by
    apply onReader_ok
    rw [working.reader_eq]
    exact readerFinish_trailer working.fits rfl rfl rfl id
  refine ⟨{ S with
      writer := W, reader := S.reader.skip (Writer.trailer bytes checksum).length },
    ?_, ?_, ?_, ?_, depth⟩
  · unfold processEnd
    cases checksum with
    | true =>
        rw [bind_ok working.next, show nextKind stCrc = .crc by decide]
        dsimp only
        rw [bind_ok read, onWriter_some finished]
    | false =>
        rw [bind_ok working.next, show nextKind stDot = .dot by decide]
        dsimp only
        rw [bind_ok read, onWriter_some finished]
  · rw [Reader.skip, working.reader_eq]
    rfl
  · rw [Reader.skip, working.reader_eq]
    rfl
  · simpa [frame] using holds

/-- In front of anything but a trailer the answer is `false`. -/
theorem processEnd_cases {bytes rest : Bytes} (working : Working base file bytes body rest 0 S) :
    (∃ checksum, rest = Writer.trailer bytes checksum) ∨
      ∃ S', processEnd S = .error .failed S' := by
  have finish (required : Bool) : (∃ checksum, rest = Writer.trailer bytes checksum) ∨
      ∃ S', onReader (readerFinish required) S = .error .failed S' := by
    obtain ⟨checksum, trailer, -⟩ | ⟨R, failed⟩ :=
      @readerFinish_cases (place base file bytes rest 0) bytes rest required working.fits rfl rfl rfl
    · exact .inl ⟨checksum, trailer⟩
    · rw [← working.reader_eq] at failed
      exact .inr ⟨_, onReader_error failed⟩
  cases rest with
  | nil =>
      refine .inr ⟨S, ?_⟩
      unfold processEnd
      rw [bind_ok working.next_end]
      rfl
  | cons first more =>
      unfold processEnd
      rw [bind_ok working.next]
      cases nextKind first with
      | dot => exact (finish false).imp_right fun ⟨S', failed⟩ => ⟨S', bind_error failed⟩
      | crc => exact (finish true).imp_right fun ⟨S', failed⟩ => ⟨S', bind_error failed⟩
      | arrayBegin => exact .inr ⟨S, rfl⟩
      | arrayEnd => exact .inr ⟨S, rfl⟩
      | string => exact .inr ⟨S, rfl⟩
      | error => exact .inr ⟨S, rfl⟩

/-! ## `process_element` -/

section Element

variable {data : Bytes} {fuel : ℕ}

/-- An element that matches the grammar is processed, if it is not too deep. -/
theorem processElement_payload {tree : Tree} {checksum : Bool}
    (payload : IsPayload tree checksum data) (start : Working base file [] [] data 0 S)
    (enough : data.length < fuel) :
    Post
      (fun _ S' => S'.reader.base = base ∧ S'.reader.file = file ∧
        S'.writer.Holds (frame tree.encode checksum) [] ∧ S'.writer.depth = 0)
      (fun e _ => Broken e ∧ 2 ^ 31 ≤ tree.nesting ∧ ¬Harmless (base.address data) data)
      (processElement fuel S) := by
  obtain ⟨bytes, here, rfl⟩ := payload
  have goes := processLoop_matches here start enough
  unfold processElement
  cases run : processLoop fuel 0 S with
  | error e S' =>
      rw [run] at goes
      rw [bind_error run]
      exact ⟨goes.1, goes.2, (processLoop_broken_iff start enough).mp ⟨e, S', goes.1, run⟩⟩
  | ok _ S' =>
      rw [run] at goes
      obtain ⟨S'', finished, there⟩ := processEnd_trailer goes
      rw [bind_ok run, finished]
      exact there

/-- The processing breaks exactly on the way to harmful bytes. -/
theorem processElement_broken (start : Working base file [] [] data 0 S)
    (enough : data.length < fuel) (harmful : ¬Harmless (base.address data) data) :
    ∃ e S', Broken e ∧ processElement fuel S = .error e S' := by
  obtain ⟨e, S', broken, run⟩ := (processLoop_broken_iff start enough).mpr harmful
  exact ⟨e, S', broken, bind_error run⟩

/-- Where it does not break, an element that does not match the grammar is refused. -/
theorem processElement_refused (start : Working base file [] [] data 0 S)
    (enough : data.length < fuel) (harmless : Harmless (base.address data) data)
    (other : ∀ tree checksum, ¬IsPayload tree checksum data) :
    ∃ S', processElement fuel S = .error .failed S' := by
  have forward := @processLoop_forward base file [] data S fuel [] rfl start enough
  rw [List.length_nil, Nat.cast_zero] at forward
  unfold processElement
  cases run : processLoop fuel 0 S with
  | error e S' =>
      rw [run] at forward
      obtain rfl | ⟨-, harmful⟩ := forward
      · exact ⟨S', bind_error run⟩
      · exact absurd harmless harmful
  | ok _ S' =>
      rw [run] at forward
      obtain ⟨tree, bytes, rest, rfl, here, working⟩ := forward
      rw [bind_ok run]
      obtain ⟨checksum, rfl⟩ | failed := processEnd_cases working
      · exact absurd ⟨bytes, here, rfl⟩ (other tree checksum)
      · exact failed

end Element

end HybridDatabase.Storage
