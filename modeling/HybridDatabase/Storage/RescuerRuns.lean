/-
# Files in the rescuer

The rescuer goes through a file element by element.  Where no element on its way does harm,
it writes the root elements up to the first bytes that are none; where one does, it does not
come to an end.
-/

import HybridDatabase.Storage.RescuerElements

namespace HybridDatabase.Storage

open HybridDatabase.Base

variable {base : Bases} {file out data rest : Bytes} {S : Rescue}

/-! ## One turn of the main loop -/

/-- In front of a whole frame its payload is loaded. -/
theorem Between.begun (between : Between base file out S)
    (frame : file = Writer.frameHeader data.length ++ (data ++ rest))
    (small : data.length < 2 ^ 64) (room : base.address data + data.length + 256 ≤ 2 ^ 64) :
    onReader readerBegin S = .ok .success { S with reader := S.reader.opened rest data } ∧
      Working base rest [] [] data 0 { S with reader := S.reader.opened rest data } := by
  refine ⟨onReader_ok (readerBegin_whole small (between.file_eq.trans frame)),
    ?_, between.written, between.depth_eq, room, by decide⟩
  simp only [Reader.opened, place, between.base_eq, List.nil_append, List.length_nil, Nat.add_zero]
  rfl

/-- A root element is processed and written. -/
theorem mainLoop_root (fuel : ℕ) {tree : Tree} {checksum : Bool} (between : Between base file out S)
    (frame : file = Writer.frameHeader data.length ++ (data ++ rest))
    (small : data.length < 2 ^ 64) (room : base.address data + data.length + 256 ≤ 2 ^ 64)
    (enough : data.length < fuel + 1) (payload : IsPayload tree checksum data)
    (sound : Harmless (base.address data) data ∨ tree.nesting < 2 ^ 31) :
    ∃ S', mainLoop (fuel + 1) S = mainLoop fuel S' ∧
      Between base rest (out ++ Storage.frame tree.encode checksum) S' := by
  obtain ⟨begun, working⟩ := between.begun frame small room
  have processed := processElement_payload payload working enough
  have silent := silent_processElement (fuel + 1) out
    { S with reader := S.reader.opened rest data } between.output_eq
  rw [mainLoop, bind_ok begun]
  cases run : processElement (fuel + 1) { S with reader := S.reader.opened rest data } with
  | error e S₁ =>
      rw [run] at processed
      obtain ⟨broken, deep, harmful⟩ := processed
      rcases sound with harmless | shallow
      · exact absurd harmless harmful
      · exact absurd deep (Nat.not_le.mpr shallow)
  | ok _ S₁ =>
      rw [run] at processed silent
      obtain ⟨base_eq, file_eq, holds, depth⟩ := processed
      have answer : answered (processElement (fuel + 1))
          { S with reader := S.reader.opened rest data } = .ok true S₁ := by
        rw [answered, run]
      have written : emit S₁ = .ok () { S₁ with
          output := S₁.output ++ Storage.frame tree.encode checksum
          writer := S₁.writer.discart } := by
        rw [emit, holds.output]
      refine ⟨{ S₁ with
          output := S₁.output ++ Storage.frame tree.encode checksum
          writer := S₁.writer.discart }, ?_, base_eq, file_eq, holds.discart, depth, ?_⟩
      · dsimp only
        rw [bind_ok answer]
        exact bind_ok written
      · rw [show S₁.output = out from silent]

/-- A payload that is no element ends the run. -/
theorem mainLoop_refused (fuel : ℕ) (between : Between base file out S)
    (frame : file = Writer.frameHeader data.length ++ (data ++ rest))
    (small : data.length < 2 ^ 64) (room : base.address data + data.length + 256 ≤ 2 ^ 64)
    (enough : data.length < fuel + 1) (harmless : Harmless (base.address data) data)
    (other : ∀ tree checksum, ¬IsPayload tree checksum data) :
    ∃ S', mainLoop (fuel + 1) S = .ok () S' ∧ S'.output = out := by
  obtain ⟨begun, working⟩ := between.begun frame small room
  obtain ⟨S', failed⟩ := processElement_refused working enough harmless other
  have silent := silent_processElement (fuel + 1) out
    { S with reader := S.reader.opened rest data } between.output_eq
  rw [failed] at silent
  have answer : answered (processElement (fuel + 1))
      { S with reader := S.reader.opened rest data } = .ok false S' := by
    rw [answered, failed]
  refine ⟨S', ?_, silent⟩
  rw [mainLoop, bind_ok begun]
  exact bind_ok answer

/-- Harmful bytes end the run in another way. -/
theorem mainLoop_broken (fuel : ℕ) (between : Between base file out S)
    (frame : file = Writer.frameHeader data.length ++ (data ++ rest))
    (small : data.length < 2 ^ 64) (room : base.address data + data.length + 256 ≤ 2 ^ 64)
    (enough : data.length < fuel + 1) (harmful : ¬Harmless (base.address data) data) :
    ∃ e S', Broken e ∧ mainLoop (fuel + 1) S = .error e S' := by
  obtain ⟨begun, working⟩ := between.begun frame small room
  obtain ⟨e, S', broken, failed⟩ := processElement_broken working enough harmful
  have answer : answered (processElement (fuel + 1))
      { S with reader := S.reader.opened rest data } = .error e S' := by
    rw [answered, failed]
    rcases broken with rfl | rfl <;> rfl
  refine ⟨e, S', broken, ?_⟩
  rw [mainLoop, bind_ok begun]
  exact bind_error answer

/-- Without a frame the run ends. -/
theorem mainLoop_end (fuel : ℕ) (between : Between base file out S) {status : ReadStatus} {R : Reader}
    (other : status ≠ .success) (begun : readerBegin S.reader = .ok status R) :
    ∃ S', mainLoop (fuel + 1) S = .ok () S' ∧ S'.output = out := by
  refine ⟨{ S with reader := R }, ?_, between.output_eq⟩
  rw [mainLoop, bind_ok (onReader_ok begun)]
  cases status with
  | success => exact absurd rfl other
  | fail => rfl
  | endOfFile => rfl

/-! ## Whole runs -/

/-- There is memory for the payload of every frame in the file where `base` puts it. -/
def Allocated (base : Bases) (file : Bytes) : Prop :=
  ∀ front data rest, data.length < 2 ^ 64 →
    file = front ++ (Writer.frameHeader data.length ++ (data ++ rest)) →
    base.address data + data.length + 256 ≤ 2 ^ 64

/-- No payload that stands behind root elements does harm. -/
def HarmlessFile (base : Bases) (file : Bytes) : Prop :=
  ∀ elements front data rest, AreRoots elements front → data.length < 2 ^ 64 →
    file = front ++ (Writer.frameHeader data.length ++ (data ++ rest)) →
      Harmless (base.address data) data

/-- The run ends and has written the root elements at the begin of the file, as many as
there are. -/
def Rescues (base : Bases) (file : Bytes) : Prop :=
  ∃ elements front rest, AreRoots elements front ∧ file = front ++ rest ∧ NoRoot rest ∧
    rescuer base file = .ok (encodeElements elements)

/-- Equal files begin with equal frames. -/
theorem frame_unique {data' rest' : Bytes} (small : data.length < 2 ^ 64)
    (small' : data'.length < 2 ^ 64)
    (same : Writer.frameHeader data.length ++ (data ++ rest) =
      Writer.frameHeader data'.length ++ (data' ++ rest')) : data = data' ∧ rest = rest' := by
  obtain ⟨headers, bodies⟩ := List.append_inj same (by simp)
  have lengths := congrArg readHeader headers
  rw [readHeader_frameHeader small, readHeader_frameHeader small'] at lengths
  exact List.append_inj bodies (Option.some.inj lengths)

theorem Allocated.behind (allocated : Allocated base file) {front : Bytes}
    (split : file = front ++ rest) : Allocated base rest := fun before data after small inside =>
  allocated (front ++ before) data after small (by rw [split, inside, List.append_assoc])

/-- Behind a root element the rest of the file does no harm either. -/
theorem HarmlessFile.behind (harmless : HarmlessFile base file) {tree : Tree} {checksum : Bool}
    {front : Bytes} (isRoot : IsRoot tree checksum front) (split : file = front ++ rest) :
    HarmlessFile base rest := by
  intro elements before data after roots small inside
  refine harmless ((tree, checksum) :: elements) (front ++ before) data after
    ⟨front, before, isRoot, roots, rfl⟩ small ?_
  rw [split, inside, List.append_assoc]

/-- The run through a file without harm. -/
theorem mainLoop_rescues (fuel : ℕ) (between : Between base file out S)
    (allocated : Allocated base file) (harmless : HarmlessFile base file)
    (enough : file.length < fuel) :
    ∃ elements front rest S', AreRoots elements front ∧ file = front ++ rest ∧ NoRoot rest ∧
      mainLoop fuel S = .ok () S' ∧ S'.output = out ++ encodeElements elements := by
  induction fuel generalizing file out S with
  | zero => exact absurd enough (Nat.not_lt_zero _)
  | succ fuel ih =>
      obtain ⟨data, rest, small, frame⟩ | ⟨status, R, other, begun⟩ := readerBegin_cases S.reader
      · rw [between.file_eq] at frame
        have room := allocated [] data rest small frame
        have sound := harmless [] [] data rest rfl small frame
        have lengths := congrArg List.length frame
        simp only [List.length_append, Writer.length_frameHeader] at lengths
        by_cases payload : ∃ tree checksum, IsPayload tree checksum data
        · obtain ⟨tree, checksum, payload⟩ := payload
          obtain ⟨S₁, turn, between₁⟩ := mainLoop_root fuel between frame small room (by omega)
            payload (.inl sound)
          have isRoot : IsRoot tree checksum (Writer.frameHeader data.length ++ data) :=
            ⟨data, payload, small, rfl⟩
          have split : file = (Writer.frameHeader data.length ++ data) ++ rest := by
            rw [frame, List.append_assoc]
          obtain ⟨elements, front, rest', S', roots, behind, none, run, output⟩ :=
            ih between₁ (allocated.behind split) (harmless.behind isRoot split) (by omega)
          refine ⟨(tree, checksum) :: elements, _, rest', S', ⟨_, front, isRoot, roots, rfl⟩,
            ?_, none, turn.trans run, ?_⟩
          · rw [split, behind]
            simp only [List.append_assoc]
          · rw [output, encodeElements_cons, List.append_assoc]
        · obtain ⟨S', run, output⟩ := mainLoop_refused fuel between frame small room (by omega)
            sound fun tree checksum there => payload ⟨tree, checksum, there⟩
          refine ⟨[], [], file, S', rfl, rfl, ?_, run, by rw [output]; exact (List.append_nil out).symm⟩
          rintro tree checksum _ ⟨data', there, small', rfl⟩ ⟨rest', starts⟩
          rw [frame, List.append_assoc] at starts
          obtain ⟨rfl, -⟩ := frame_unique small' small starts
          exact payload ⟨tree, checksum, there⟩
      · obtain ⟨S', run, output⟩ := mainLoop_end fuel between other begun
        refine ⟨[], [], file, S', rfl, rfl, ?_, run, by rw [output]; exact (List.append_nil out).symm⟩
        rintro tree checksum _ ⟨data, there, small, rfl⟩ ⟨rest, starts⟩
        rw [List.append_assoc] at starts
        have whole := readerBegin_whole small (between.file_eq.trans starts.symm)
        rw [begun] at whole
        cases whole
        exact other rfl

/-- The run through a file with harm. -/
theorem mainLoop_breaks (fuel : ℕ) (between : Between base file out S)
    (allocated : Allocated base file) (harmful : ¬HarmlessFile base file)
    (enough : file.length < fuel) : ∃ e S', Broken e ∧ mainLoop fuel S = .error e S' := by
  unfold HarmlessFile at harmful
  push Not at harmful
  obtain ⟨elements, front, data, rest, roots, small, frame, harm⟩ := harmful
  induction elements generalizing file out S front fuel with
  | nil =>
      obtain rfl : front = [] := roots
      obtain ⟨fuel, rfl⟩ : ∃ n, fuel = n + 1 := ⟨fuel - 1, by omega⟩
      have lengths := congrArg List.length frame
      simp only [List.length_append, Writer.length_frameHeader] at lengths
      exact mainLoop_broken fuel between frame small (allocated [] data rest small frame) (by omega)
        harm
  | cons element elements ih =>
      obtain ⟨tree, checksum⟩ := element
      obtain ⟨_, others, ⟨first, payload, small', rfl⟩, roots, rfl⟩ := roots
      obtain ⟨fuel, rfl⟩ : ∃ n, fuel = n + 1 := ⟨fuel - 1, by omega⟩
      have start : file = Writer.frameHeader first.length ++ (first ++
          (others ++ (Writer.frameHeader data.length ++ (data ++ rest)))) := by
        rw [frame]
        simp only [List.append_assoc]
      have lengths := congrArg List.length start
      rw [List.length_append, List.length_append, Writer.length_frameHeader] at lengths
      have room := allocated [] first _ small' start
      by_cases sound : Harmless (base.address first) first
      · obtain ⟨S₁, turn, between₁⟩ := mainLoop_root fuel between start small' room (by omega)
          payload (.inl sound)
        rw [turn]
        exact ih fuel between₁ (allocated.behind (by rw [start, ← List.append_assoc]))
          (by omega) others roots rfl
      · exact mainLoop_broken fuel between start small' room (by omega) sound

theorem between_init : Between base file []
    { reader := Reader.init file base, writer := Writer.init, output := [] } where
  base_eq := rfl
  file_eq := rfl
  written := Writer.init_holds
  depth_eq := rfl
  output_eq := rfl

/-- The rescuer rescues a file exactly when no payload that it comes to does harm. -/
theorem rescuer_rescues_iff (base : Bases) (file : Bytes) (allocated : Allocated base file) :
    Rescues base file ↔ HarmlessFile base file := by
  constructor
  · rintro ⟨elements, -, -, -, -, -, run⟩
    by_contra harmful
    obtain ⟨e, S', -, broken⟩ := mainLoop_breaks (file.length + 1) between_init allocated harmful
      (Nat.lt_succ_self _)
    unfold rescuer at run
    rw [broken] at run
    cases run
  · intro harmless
    obtain ⟨elements, front, rest, S, roots, split, none, run, output⟩ := mainLoop_rescues
      (file.length + 1) between_init allocated harmless (Nat.lt_succ_self _)
    refine ⟨elements, front, rest, roots, split, none, ?_⟩
    unfold rescuer
    rw [run]
    exact congrArg Except.ok output

theorem allocated_of_length (room : base.top + file.length + 256 ≤ 2 ^ 64) :
    Allocated base file := by
  intro front data rest _ split
  have below := base.address_le data
  have lengths := congrArg List.length split
  simp only [List.length_append] at lengths
  omega

/-- A string with a checksum. -/
theorem rescuer_rescues_string : HarmlessFile 4096 (frame [0x11, 7] true) := by
  have payload : IsPayload (.string [7]) true ([0x11, 7] ++ Writer.trailer [0x11, 7] true) :=
    ⟨[0x11, 7], ⟨[0x11], ⟨0x11, [], rfl, by decide, by decide, by decide⟩, rfl⟩, rfl⟩
  have roots : AreRoots [(.string [7], true)] (frame [0x11, 7] true) :=
    ⟨_, [], ⟨_, payload, by decide, rfl⟩, rfl, (List.append_nil _).symm⟩
  have ends : NoRoot [] := by
    rintro tree checksum _ ⟨data, -, -, rfl⟩ ⟨rest, starts⟩
    have lengths := congrArg List.length starts
    simp at lengths
  exact (rescuer_rescues_iff 4096 _ (allocated_of_length (by decide))).mp
    ⟨_, _, [], roots, (List.append_nil _).symm, ends, by decide +kernel⟩

/-- A closing bracket with no array open fails the assertion of `write_array_end`. -/
theorem rescuer_fails_assertion : ¬∀ base file, Allocated base file → Rescues base file := by
  intro claim
  obtain ⟨elements, -, -, -, -, -, run⟩ := claim 4096
    (Writer.frameHeader 2 ++ [stArrayEnd, stDot]) (allocated_of_length (by decide))
  have stopped : rescuer 4096 (Writer.frameHeader 2 ++ [stArrayEnd, stDot]) = .error .abort := by
    decide +kernel
  rw [stopped] at run
  cases run

end HybridDatabase.Storage
