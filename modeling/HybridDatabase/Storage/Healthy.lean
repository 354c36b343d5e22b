/-
# Healthy files in the rescuer

What the rescuer makes of a file that the writer has made.  Numbers are strings to it; the
writer has no other code for them, so that they are written again as they were.
-/

import HybridDatabase.Storage.RescuerRuns

namespace HybridDatabase.Storage

open HybridDatabase.Base

/-! ## Elements as they are written -/

/-- The content of a root element, in terms of the calls on the writer. -/
inductive Written
  | string (contents : Bytes)
  | number (value : UInt64)
  | array (items : List Written)

mutual

/-- What the content is to a reader. -/
def Written.toTree : Written → Tree
  | .string contents => .string contents
  | .number value => .string (numberBytes value.toNat)
  | .array items => .array (Written.toTrees items)

def Written.toTrees : List Written → List Tree
  | [] => []
  | item :: items => item.toTree :: Written.toTrees items

end

mutual

/-- Write with `write_string`, `write_number`, `write_array` and `write_array_end`. -/
def writeContent (W : Writer) : Written → Option Writer
  | .string contents => W.writeString contents
  | .number value => W.writeNumber value.toNat
  | .array items => do
      let W ← W.writeArray
      let W ← writeContents W items
      W.writeArrayEnd

/-- Write the items of an array. -/
def writeContents (W : Writer) : List Written → Option Writer
  | [] => some W
  | item :: items => do
      let W ← writeContent W item
      writeContents W items

end

/-- Write root elements; the flag says whether the element gets a checksum. -/
def writeRoots (W : Writer) : List (Written × Bool) → Option Writer
  | [] => some W
  | (content, checksum) :: elements => do
      let W ← writeContent W content
      let W ← W.finish checksum
      writeRoots W elements

/-- The root elements to a reader. -/
def toTrees (elements : List (Written × Bool)) : List (Tree × Bool) :=
  elements.map fun (content, checksum) => (content.toTree, checksum)

mutual

/-- Writing appends the encoding of the tree. -/
theorem writes_writeContent : ∀ (content : Written), content.toTree.encode.length + 256 ≤ 2 ^ 64 →
    Writes content.toTree.nesting (fun W => writeContent W content) content.toTree.encode
  | .string contents, total => Writes.writeString total 0
  | .number value, _ => by
      have written := Writes.writeNumber value.toNat 0
      rw [encodeNumber_eq] at written
      exact written
  | .array items, total => by
      simp only [Written.toTree, Tree.encode, encodeArray, List.length_cons, List.length_append]
        at total
      exact Writes.array (writes_writeContents items (by omega))

theorem writes_writeContents : ∀ (items : List Written),
    (Tree.encodeItems (Written.toTrees items)).length + 256 ≤ 2 ^ 64 →
    Writes (Tree.nestingItems (Written.toTrees items)) (fun W => writeContents W items)
      (Tree.encodeItems (Written.toTrees items))
  | [], _ => Writes.nothing 0
  | item :: items, total => by
      simp only [Written.toTrees, Tree.encodeItems, List.length_append] at total
      have first := (writes_writeContent item (by omega)).mono
        (le_max_left item.toTree.nesting (Tree.nestingItems (Written.toTrees items)))
      have others := (writes_writeContents items (by omega)).mono
        (le_max_right item.toTree.nesting (Tree.nestingItems (Written.toTrees items)))
      exact first.bind others

end

mutual

/-- What the writer has written it could count. -/
theorem depth_writeContent : ∀ (content : Written) (W W' : Writer), -2 ^ 31 ≤ W.depth →
    W.depth < 2 ^ 31 → writeContent W content = some W' →
    W'.depth = W.depth ∧ (0 ≤ W.depth → W.depth + content.toTree.nesting < 2 ^ 31)
  | .string contents, W, W', lower, upper, written => by
      refine ⟨Writer.depth_writeString (by simpa [writeContent] using written), fun _ => ?_⟩
      simpa [Written.toTree, Tree.nesting] using upper
  | .number value, W, W', lower, upper, written => by
      rw [writeContent, Writer.writeNumber] at written
      have same := Writer.depth_store written
      rw [Writer.ensureSpace_depth] at same
      refine ⟨same, fun _ => ?_⟩
      simpa [Written.toTree, Tree.nesting] using upper
  | .array items, W, W', lower, upper, written => by
      rw [writeContent] at written
      obtain ⟨W₁, opened, others⟩ := Option.bind_eq_some_iff.mp written
      obtain ⟨W₂, inside, closed⟩ := Option.bind_eq_some_iff.mp others
      have depth₁ := Writer.depth_writeArray opened
      obtain ⟨positive, depth₂⟩ := Writer.depth_writeArrayEnd closed
      have range := toInt_succ lower upper
      obtain ⟨same, shallow⟩ := depth_writeContents items W₁ W₂ (by omega) (by omega) inside
      refine ⟨by omega, fun nonneg => ?_⟩
      have shallow := shallow (by omega)
      rw [Written.toTree, Tree.nesting]
      push_cast
      omega

theorem depth_writeContents : ∀ (items : List Written) (W W' : Writer), -2 ^ 31 ≤ W.depth →
    W.depth < 2 ^ 31 → writeContents W items = some W' →
    W'.depth = W.depth ∧
      (0 ≤ W.depth → W.depth + Tree.nestingItems (Written.toTrees items) < 2 ^ 31)
  | [], W, W', lower, upper, written => by
      rw [writeContents] at written
      cases written
      exact ⟨rfl, fun _ => by simpa [Written.toTrees, Tree.nestingItems] using upper⟩
  | item :: items, W, W', lower, upper, written => by
      rw [writeContents] at written
      obtain ⟨W₁, first, others⟩ := Option.bind_eq_some_iff.mp written
      obtain ⟨same₁, shallow₁⟩ := depth_writeContent item W W₁ lower upper first
      obtain ⟨same₂, shallow₂⟩ := depth_writeContents items W₁ W' (by omega) (by omega) others
      refine ⟨by omega, fun nonneg => ?_⟩
      have one := shallow₁ nonneg
      have two := shallow₂ (by omega)
      rw [Written.toTrees, Tree.nestingItems]
      push_cast
      omega

end

/-- What a writer made of root elements: the frames, and no element was too deep. -/
theorem writeRoots_spec (elements : List (Written × Bool)) {W W' : Writer} {out : Bytes}
    (holds : W.Holds out []) (closed : W.depth = 0)
    (total : (encodeElements (toTrees elements)).length + 256 ≤ 2 ^ 64)
    (written : writeRoots W elements = some W') :
    W'.Holds (out ++ encodeElements (toTrees elements)) [] ∧
      ∀ element ∈ toTrees elements, element.1.nesting < 2 ^ 31 := by
  induction elements generalizing W out with
  | nil =>
      rw [writeRoots] at written
      cases written
      exact ⟨by rwa [toTrees, List.map_nil, encodeElements, List.flatMap_nil, List.append_nil],
        fun _ none => (List.not_mem_nil none).elim⟩
  | cons element elements ih =>
      obtain ⟨content, checksum⟩ := element
      have trees : toTrees ((content, checksum) :: elements) =
          (content.toTree, checksum) :: toTrees elements := rfl
      rw [trees, encodeElements_cons, List.length_append] at total
      rw [writeRoots] at written
      obtain ⟨W₁, first, others⟩ := Option.bind_eq_some_iff.mp written
      obtain ⟨W₂, finished, others⟩ := Option.bind_eq_some_iff.mp others
      have short := length_payload_le content.toTree.encode checksum
      obtain ⟨-, shallow⟩ := depth_writeContent content W W₁ (by rw [closed]; decide)
        (by rw [closed]; decide) first
      have shallow := shallow (by rw [closed])
      obtain ⟨W₃, both, holds₃, closed₃⟩ := WritesElements.finish
        (writes_writeContent content (by omega)) (by omega) checksum W out holds closed
      simp only [first, Option.bind_eq_bind, Option.bind_some] at both
      obtain rfl : W₂ = W₃ := Option.some.inj (finished.symm.trans both)
      obtain ⟨holds', shallow'⟩ := ih holds₃ closed₃ (by omega) others
      refine ⟨?_, ?_⟩
      · rwa [trees, encodeElements_cons, ← List.append_assoc]
      · rw [trees]
        rintro element (_ | ⟨_, inside⟩)
        · show content.toTree.nesting < 2 ^ 31
          omega
        · exact shallow' element inside

/-! ## The run -/

/-- Over a part of a healthy file the rescuer writes the elements that are whole. -/
theorem mainLoop_cut {base : Bases} {out file lost : Bytes} {S : Rescue} (fuel : ℕ)
    (elements : List (Tree × Bool)) (between : Between base file out S)
    (split : encodeElements elements = file ++ lost)
    (room : base.top + (encodeElements elements).length + 256 ≤ 2 ^ 64)
    (shallow : ∀ element ∈ elements, element.1.nesting < 2 ^ 31) (enough : file.length < fuel) :
    ∃ n S', n ≤ elements.length ∧ (encodeElements (elements.take n)).length ≤ file.length ∧
      (n = elements.length ∨ file.length < (encodeElements (elements.take (n + 1))).length) ∧
      mainLoop fuel S = .ok () S' ∧ S'.output = out ++ encodeElements (elements.take n) := by
  obtain ⟨fuel, rfl⟩ : ∃ n, fuel = n + 1 := ⟨fuel - 1, by omega⟩
  induction elements generalizing file out S fuel with
  | nil =>
      obtain ⟨rfl, -⟩ := List.append_eq_nil_iff.mp split.symm
      obtain ⟨S', run, output⟩ := mainLoop_end fuel between (by decide)
        (readerBegin_end between.file_eq)
      exact ⟨0, S', le_rfl, le_rfl, .inl rfl, run, by rw [output]; exact (List.append_nil out).symm⟩
  | cons element elements ih =>
      obtain ⟨tree, checksum⟩ := element
      rw [encodeElements_cons] at split room
      rw [List.length_append] at room
      have size := length_frame tree.encode checksum
      have short := length_payload_le tree.encode checksum
      rcases split_append split with ⟨more, nonempty, cut⟩ | ⟨file', rfl, others⟩
      · have positive := List.length_pos_of_ne_nil nonempty
        have parts := congrArg List.length cut
        rw [List.length_append] at parts
        obtain ⟨status, fails, -, begun⟩ := @readerBegin_short S.reader
          (tree.encode ++ Writer.trailer tree.encode checksum) (by omega)
          (by rw [between.file_eq]; exact ⟨more, cut.symm⟩) (by rw [between.file_eq]; omega)
        obtain ⟨S', run, output⟩ := mainLoop_end fuel between fails begun
        refine ⟨0, S', Nat.zero_le _, Nat.zero_le _, .inr ?_, run, ?_⟩
        · rw [List.take_succ_cons, encodeElements_cons, List.length_append]
          omega
        · rw [output]
          exact (List.append_nil out).symm
      · have payload : IsPayload tree checksum
            (tree.encode ++ Writer.trailer tree.encode checksum) :=
          ⟨_, tree.matches_encode (by omega), rfl⟩
        have below := base.address_le (tree.encode ++ Writer.trailer tree.encode checksum)
        rw [List.length_append] at enough
        obtain ⟨S₁, turn, between₁⟩ := mainLoop_root fuel between
          (by rw [frame, List.append_assoc]) (by omega) (by omega) (by omega) payload
          (.inr (shallow _ List.mem_cons_self))
        obtain ⟨fuel, rfl⟩ : ∃ n, fuel = n + 1 := ⟨fuel - 1, by omega⟩
        obtain ⟨n, S', few, within, last, run, output⟩ := ih between₁ others (by omega)
          (fun element inside => shallow element (List.mem_cons_of_mem _ inside)) fuel (by omega)
        refine ⟨n + 1, S', Nat.succ_le_succ few, ?_, ?_, turn.trans run, ?_⟩
        · rw [List.take_succ_cons, encodeElements_cons, List.length_append, List.length_append]
          omega
        · rw [List.take_succ_cons, encodeElements_cons, List.length_append, List.length_append,
            List.length_cons]
          omega
        · rw [output, List.take_succ_cons, encodeElements_cons, List.append_assoc]

theorem length_encodeElements_take (elements : List (Tree × Bool)) (n : ℕ) :
    (encodeElements (elements.take n)).length ≤ (encodeElements elements).length := by
  have parts : encodeElements elements =
      encodeElements (elements.take n) ++ encodeElements (elements.drop n) := by
    rw [encodeElements, encodeElements, encodeElements, ← List.flatMap_append,
      List.take_append_drop]
  rw [parts, List.length_append]
  exact Nat.le_add_right _ _

/-- `n` elements lie completely in the first `cut` bytes of the file, and no more. -/
def WholeWithin (elements : List (Written × Bool)) (cut n : ℕ) : Prop :=
  n ≤ elements.length ∧ (encodeElements (toTrees (elements.take n))).length ≤ cut ∧
    (n = elements.length ∨ cut < (encodeElements (toTrees (elements.take (n + 1)))).length)

/-- The rescuer copies what the writer wrote.  Of a file that was cut it writes the elements
that are whole. -/
theorem rescuer_copies (base : Bases) (elements : List (Written × Bool)) (W : Writer) (file : Bytes)
    (room : base.top + (encodeElements (toTrees elements)).length + 256 ≤ 2 ^ 64)
    (written : writeRoots Writer.init elements = some W) (output : W.output = some file) :
    rescuer base file = .ok file ∧
      ∀ cut, ∃ n, WholeWithin elements cut n ∧
        rescuer base (file.take cut) = .ok (encodeElements (toTrees (elements.take n))) := by
  obtain ⟨holds, shallow⟩ :=
    writeRoots_spec elements Writer.init_holds rfl (by omega) written
  have same : encodeElements (toTrees elements) = file :=
    Option.some.inj (holds.output.symm.trans output)
  have count : (toTrees elements).length = elements.length := List.length_map _
  have front (n : ℕ) : (toTrees elements).take n = toTrees (elements.take n) :=
    List.map_take.symm
  -- behind the end of the file nothing is cut
  have cutRun (cut : ℕ) (inside : cut ≤ file.length) : ∃ n, WholeWithin elements cut n ∧
      rescuer base (file.take cut) = .ok (encodeElements (toTrees (elements.take n))) := by
    have size : (file.take cut).length = cut := List.length_take_of_le inside
    obtain ⟨n, S, few, within, last, run, written⟩ :=
      mainLoop_cut ((file.take cut).length + 1) (toTrees elements) between_init
        (by rw [same, List.take_append_drop]) room shallow (Nat.lt_succ_self _)
    rw [count] at few
    rw [front, size] at within
    rw [front, size, count] at last
    rw [front] at written
    refine ⟨n, ⟨few, within, last⟩, ?_⟩
    unfold rescuer
    rw [run]
    exact congrArg Except.ok written
  have whole : rescuer base file = .ok file := by
    obtain ⟨n, ⟨few, within, last⟩, run⟩ := cutRun file.length le_rfl
    rw [List.take_length] at run
    have all : n = elements.length := by
      have part := length_encodeElements_take (toTrees elements) (n + 1)
      rw [front, same] at part
      omega
    rw [run, all, List.take_length, same]
  refine ⟨whole, fun cut => ?_⟩
  by_cases inside : cut ≤ file.length
  · exact cutRun cut inside
  · refine ⟨elements.length, ⟨le_rfl, ?_, .inl rfl⟩, ?_⟩
    · rw [List.take_length, same]
      omega
    · rw [List.take_length, same, List.take_of_length_le (by omega), whole]

/-- A number between a string and an empty array, and a number without a checksum. -/
theorem rescuer_copies_numbers :
    ∃ W file, writeRoots Writer.init
        [(.array [.string [1, 3], .number 300, .array []], true), (.number 0, false)] = some W ∧
      W.output = some file ∧ rescuer 4096 file = .ok file := by
  obtain ⟨W, written⟩ := Option.isSome_iff_exists.mp (show (writeRoots Writer.init
    [(.array [.string [1, 3], .number 300, .array []], true), (.number 0, false)]).isSome by
      decide +kernel)
  have room : 4096 + (encodeElements (toTrees
      [(.array [.string [1, 3], .number 300, .array []], true), (.number 0, false)])).length +
        256 ≤ 2 ^ 64 := by decide +kernel
  have output := (writeRoots_spec _ Writer.init_holds rfl (by omega) written).1.output
  exact ⟨W, _, written, output, (rescuer_copies 4096 _ W _ room written output).1⟩

end HybridDatabase.Storage
