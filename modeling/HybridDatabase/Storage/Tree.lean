/-
# Element trees and the round trip of the format

An element is a tree of strings and arrays.  `writeTree` and `readTree` are the
recursive use of the writing and reading calls; the reader is led by
`reader_next` alone.  Every list of elements is read back as it was written, as
long as the trees are nested fewer than `2 ^ 31` arrays deep: the depth of a
writer is an `int`.
-/

import HybridDatabase.Storage.Writes

namespace HybridDatabase.Storage

open HybridDatabase.Base

/-- The content of a root element. -/
inductive Tree
  | string (contents : Bytes)
  | array (items : List Tree)

/-! ## Writing and reading trees -/

mutual

/-- The bytes of a tree. -/
def Tree.encode : Tree → Bytes
  | .string contents => encodeString contents
  | .array items => encodeArray (Tree.encodeItems items)

/-- The bytes of the items of an array. -/
def Tree.encodeItems : List Tree → Bytes
  | [] => []
  | tree :: items => tree.encode ++ Tree.encodeItems items

end

mutual

/-- How many arrays of a tree are open at once. -/
def Tree.nesting : Tree → ℕ
  | .string _ => 0
  | .array items => Tree.nestingItems items + 1

/-- How many arrays are open at once in some item. -/
def Tree.nestingItems : List Tree → ℕ
  | [] => 0
  | tree :: items => max tree.nesting (Tree.nestingItems items)

end

mutual

/-- Write a tree with `write_array`, `write_string` and `write_array_end`. -/
def writeTree (W : Writer) : Tree → Option Writer
  | .string contents => W.writeString contents
  | .array items => do
      let W ← W.writeArray
      let W ← writeItems W items
      W.writeArrayEnd

/-- Write the items of an array. -/
def writeItems (W : Writer) : List Tree → Option Writer
  | [] => some W
  | tree :: items => do
      let W ← writeTree W tree
      writeItems W items

end

mutual

/-- Read the tree that `reader_next` announces. -/
def readTree : ℕ → ReaderM Tree
  | 0 => throw .outOfFuel
  | fuel + 1 => do
      match ← readerNext with
      | .string => do
          let contents ← readContents
          return .string contents
      | .arrayBegin => do
          readArray
          let items ← readItems fuel
          readArrayEnd
          return .array items
      | _ => throw .failed

/-- Read items until `reader_next` announces the end of their array. -/
def readItems : ℕ → ReaderM (List Tree)
  | 0 => throw .outOfFuel
  | fuel + 1 => do
      match ← readerNext with
      | .arrayEnd => return []
      | _ => do
          let tree ← readTree fuel
          let items ← readItems fuel
          return tree :: items

end

/-- Write root elements; the flag says whether the element gets a checksum. -/
def writeElements (W : Writer) : List (Tree × Bool) → Option Writer
  | [] => some W
  | (tree, checksum) :: elements => do
      let W ← writeTree W tree
      let W ← W.finish checksum
      writeElements W elements

/-- Read one root element for each flag and find the file at its end. -/
def readElements (fuel : ℕ) : List Bool → ReaderM (List Tree)
  | [] => do
      match ← readerBegin with
      | .endOfFile => return []
      | _ => throw .failed
  | checksum :: flags => do
      match ← readerBegin with
      | .success => do
          let tree ← readTree fuel
          readerFinish checksum
          let trees ← readElements fuel flags
          return tree :: trees
      | _ => throw .failed

/-- The bytes of a list of root elements. -/
def encodeElements (elements : List (Tree × Bool)) : Bytes :=
  elements.flatMap fun (tree, checksum) => frame tree.encode checksum

@[simp]
theorem encodeElements_cons (tree : Tree) (checksum : Bool) (elements : List (Tree × Bool)) :
    encodeElements ((tree, checksum) :: elements) =
      frame tree.encode checksum ++ encodeElements elements := by
  simp only [encodeElements, List.flatMap_cons]

/-! ## What is written -/

theorem length_payload_le (body : Bytes) (checksum : Bool) :
    body.length ≤ (frame body checksum).length := by
  rw [length_frame, List.length_append]
  omega

mutual

/-- Writing a tree appends its encoding. -/
theorem writes_writeTree : ∀ (tree : Tree), tree.encode.length + 256 ≤ 2 ^ 64 →
    Writes tree.nesting (fun W => writeTree W tree) tree.encode
  | .string contents, total => Writes.writeString total 0
  | .array items, total => by
      simp only [Tree.encode, encodeArray, List.length_cons, List.length_append] at total
      exact Writes.array (writes_writeItems items (by omega))

theorem writes_writeItems : ∀ (items : List Tree), (Tree.encodeItems items).length + 256 ≤ 2 ^ 64 →
    Writes (Tree.nestingItems items) (fun W => writeItems W items) (Tree.encodeItems items)
  | [], _ => Writes.nothing 0
  | tree :: items, total => by
      simp only [Tree.encodeItems, List.length_append] at total
      have first := (writes_writeTree tree (by omega)).mono
        (le_max_left tree.nesting (Tree.nestingItems items))
      have others := (writes_writeItems items (by omega)).mono
        (le_max_right tree.nesting (Tree.nestingItems items))
      exact first.bind others

end

/-- Writing elements appends their frames. -/
theorem writesElements_writeElements (elements : List (Tree × Bool))
    (total : (encodeElements elements).length < 2 ^ 63)
    (shallow : ∀ element ∈ elements, element.1.nesting < 2 ^ 31) :
    WritesElements (fun W => writeElements W elements) (encodeElements elements) := by
  induction elements with
  | nil => exact WritesElements.nothing
  | cons element elements ih =>
      obtain ⟨tree, checksum⟩ := element
      rw [encodeElements_cons, List.length_append] at total
      have short := length_payload_le tree.encode checksum
      have first := WritesElements.finish (writes_writeTree tree (by omega))
        (shallow (tree, checksum) List.mem_cons_self) checksum
      have others := ih (by omega) fun element member =>
        shallow element (List.mem_cons_of_mem _ member)
      have both := first.bind others
      simpa only [encodeElements_cons, writeElements, Option.bind_eq_bind, Option.bind_assoc]
        using both

/-! ## What is read -/

/-- What `reader_next` has to announce in front of a tree. -/
def Tree.kind : Tree → Next
  | .string _ => .string
  | .array _ => .arrayBegin

/-- A tree begins with the byte that announces it. -/
theorem Tree.encode_eq_cons (tree : Tree) (total : tree.encode.length + 256 ≤ 2 ^ 64) :
    ∃ byte tail, tree.encode = byte :: tail ∧ nextKind byte = tree.kind := by
  cases tree with
  | string contents =>
      have fits : contents.length + stString < 2 ^ 64 := by
        simp only [Tree.encode, encodeString, List.length_append] at total
        simp only [stString]
        omega
      exact nextKind_encodeString fits
  | array items =>
      refine ⟨stArrayBegin, _, rfl, ?_⟩
      show nextKind stArrayBegin = .arrayBegin
      decide

mutual

/-- The tree is read back, and `reader_next` announced each of its parts. -/
theorem reads_readTree : ∀ (tree : Tree) (fuel : ℕ), tree.encode.length + 256 ≤ 2 ^ 64 →
    tree.encode.length ≤ fuel → Reads tree.nesting (readTree fuel) tree tree.encode
  | .string contents, fuel, total, enough => by
      obtain ⟨byte, tail, code, kind⟩ := Tree.encode_eq_cons (.string contents) total
      obtain ⟨fuel, rfl⟩ : ∃ n, fuel = n + 1 := ⟨fuel - 1, by
        rw [code, List.length_cons] at enough; omega⟩
      have read := (reads_readContents contents 0).answer Tree.string
      unfold readTree
      rw [code]
      apply Reads.next
      rw [kind, ← code]
      exact read
  | .array items, fuel, total, enough => by
      simp only [Tree.encode, encodeArray, List.length_cons, List.length_append,
        List.length_nil] at total enough
      obtain ⟨fuel, rfl⟩ : ∃ n, fuel = n + 1 := ⟨fuel - 1, by omega⟩
      have read := (Reads.array (reads_readItems items fuel (by omega) (by omega))).answer Tree.array
      unfold readTree
      show Reads _ _ _ (stArrayBegin :: _)
      apply Reads.next
      have kind : nextKind stArrayBegin = .arrayBegin := by decide
      rw [kind]
      simp only [bind_assoc, pure_bind] at read
      exact read

theorem reads_readItems : ∀ (items : List Tree) (fuel : ℕ),
    (Tree.encodeItems items).length + 256 ≤ 2 ^ 64 → (Tree.encodeItems items).length < fuel →
    ReadsItems (Tree.nestingItems items) (readItems fuel) items (Tree.encodeItems items)
  | [], fuel, _, enough => by
      obtain ⟨fuel, rfl⟩ : ∃ n, fuel = n + 1 := ⟨fuel - 1, by omega⟩
      unfold readItems
      exact ReadsItems.nextEnd (Reads.pure _ _).items
  | tree :: items, fuel, total, enough => by
      simp only [Tree.encodeItems, List.length_append] at total enough
      obtain ⟨byte, tail, code, kind⟩ := Tree.encode_eq_cons tree (by omega)
      have nonempty : 0 < tree.encode.length := by rw [code]; simp
      obtain ⟨fuel, rfl⟩ : ∃ n, fuel = n + 1 := ⟨fuel - 1, by omega⟩
      have first := (reads_readTree tree fuel (by omega) (by omega)).mono
        (le_max_left tree.nesting (Tree.nestingItems items))
      have others : ReadsItems (max tree.nesting (Tree.nestingItems items)) (readItems fuel) items
          (Tree.encodeItems items) := fun R rest at_ lower upper =>
        reads_readItems items fuel (by omega) (by omega) R rest at_ lower (by omega)
      have both := ReadsItems.bind (f := fun tree => do
        let items ← readItems fuel
        pure (tree :: items)) first (others.answer (tree :: ·))
      unfold readItems
      simp only [Tree.encodeItems, Tree.nestingItems]
      rw [code, List.cons_append]
      apply ReadsItems.next
      rw [← List.cons_append, ← code]
      cases tree with
      | string contents => rw [kind]; exact both
      | array items => rw [kind]; exact both

end

mutual

/-- The calls that `reader_skip` makes for a tree. -/
def Tree.tokens : Tree → ℕ
  | .string _ => 1
  | .array items => Tree.tokensItems items + 2

def Tree.tokensItems : List Tree → ℕ
  | [] => 0
  | tree :: items => tree.tokens + Tree.tokensItems items

end

mutual

theorem Tree.tokens_le : ∀ (tree : Tree), tree.encode.length + 256 ≤ 2 ^ 64 →
    tree.tokens ≤ tree.encode.length
  | .string contents, total => by
      obtain ⟨byte, tail, code, -⟩ := Tree.encode_eq_cons (.string contents) total
      rw [code, List.length_cons, Tree.tokens]
      omega
  | .array items, total => by
      simp only [Tree.encode, encodeArray, List.length_cons, List.length_append, List.length_nil]
        at total ⊢
      have := Tree.tokensItems_le items (by omega)
      rw [Tree.tokens]
      omega

theorem Tree.tokensItems_le : ∀ (items : List Tree), (Tree.encodeItems items).length + 256 ≤ 2 ^ 64 →
    Tree.tokensItems items ≤ (Tree.encodeItems items).length
  | [], _ => Nat.zero_le _
  | tree :: items, total => by
      simp only [Tree.encodeItems, List.length_append] at total ⊢
      have first := Tree.tokens_le tree (by omega)
      have others := Tree.tokensItems_le items (by omega)
      rw [Tree.tokensItems]
      omega

end

mutual

/-- The loop of `reader_skip` runs over a tree and goes on behind it. -/
theorem readerSkipLoop_tree : ∀ (tree : Tree) (fuel : ℕ) (depth : ℤ) (R : Reader) (rest : Bytes),
    R.At (tree.encode ++ rest) → tree.encode.length + 256 ≤ 2 ^ 64 → 0 ≤ R.depth →
    R.depth + tree.nesting < 2 ^ 31 → 0 ≤ depth → depth + tree.nesting < 2 ^ 31 →
    readerSkipLoop (fuel + tree.tokens) depth R =
      readerSkipLoop fuel depth (R.skip tree.encode.length)
  | .string contents, fuel, depth, R, rest, at_, total, lower, upper, _, _ => by
      obtain ⟨byte, tail, code, kind⟩ := Tree.encode_eq_cons (.string contents) total
      have announced : readerNext R = .ok .string R := by
        rw [show (Next.string) = nextKind byte from kind.symm]
        exact readerNext_at (show R.At (byte :: (tail ++ rest)) by rwa [code] at at_)
      simp only [Tree.nesting, Nat.cast_zero, add_zero] at upper
      obtain ⟨address, read, -⟩ := readString_at at_ lower upper
      rw [Tree.tokens, readerSkipLoop, bind_ok announced]
      exact bind_ok read
  | .array items, fuel, depth, R, rest, at_, total, lower, upper, low, high => by
      simp only [Tree.nesting, Nat.cast_add, Nat.cast_one] at upper high
      have start : R.At (stArrayBegin :: (Tree.encodeItems items ++ stArrayEnd :: rest)) := by
        simpa [Tree.encode, encodeArray] using at_
      have short : (Tree.encodeItems items).length + 2 = (Tree.array items).encode.length := by
        simp [Tree.encode, encodeArray]
      have announced : readerNext R = .ok .arrayBegin R := readerNext_at start
      have opened := readArray_at start lower (by omega)
      set inner : Reader := { R.skip 1 with depth := R.depth + 1 } with hinner
      have inside : inner.At (Tree.encodeItems items ++ stArrayEnd :: rest) :=
        (Reader.At.skip (show R.At ([stArrayBegin] ++ _) from start)).withDepth _
      have skipped := readerSkipLoop_items items (fuel + 1) (depth + 1) inner _ inside (by omega)
        (by show 0 ≤ R.depth + 1; omega)
        (by show R.depth + 1 + _ < 2 ^ 31; omega) (by omega) (by omega)
      have after := inside.skip
      have announced' : readerNext (inner.skip (Tree.encodeItems items).length) =
          .ok .arrayEnd (inner.skip (Tree.encodeItems items).length) := readerNext_at after
      have closed := readArrayEnd_at after (by show 0 < R.depth + 1; omega)
      have same : { (inner.skip (Tree.encodeItems items).length).skip 1 with
          depth := (inner.skip (Tree.encodeItems items).length).depth - 1 } =
          R.skip (Tree.array items).encode.length := by
        simp only [← short, hinner, Reader.skip, Reader.mk.injEq, true_and]
        constructor <;> omega
      have inArray : ¬ depth + 1 = 0 := by omega
      have tokens : fuel + (Tree.array items).tokens =
          (fuel + 1 + Tree.tokensItems items) + 1 := by
        rw [Tree.tokens]; omega
      rw [tokens, readerSkipLoop, bind_ok announced]
      simp only
      rw [bind_ok opened, toInt_of_lt (by omega) (by omega), skipped, readerSkipLoop,
        bind_ok announced']
      simp only [inArray, if_false]
      rw [bind_ok closed, same, add_sub_cancel_right, toInt_of_lt low (by omega)]

theorem readerSkipLoop_items : ∀ (items : List Tree) (fuel : ℕ) (depth : ℤ) (R : Reader)
    (rest : Bytes), R.At (Tree.encodeItems items ++ rest) →
    (Tree.encodeItems items).length + 256 ≤ 2 ^ 64 → 0 ≤ R.depth →
    R.depth + Tree.nestingItems items < 2 ^ 31 → 0 ≤ depth →
    depth + Tree.nestingItems items < 2 ^ 31 →
    readerSkipLoop (fuel + Tree.tokensItems items) depth R =
      readerSkipLoop fuel depth (R.skip (Tree.encodeItems items).length)
  | [], _, _, _, _, _, _, _, _, _, _ => rfl
  | tree :: items, fuel, depth, R, rest, at_, total, lower, upper, low, high => by
      simp only [Tree.encodeItems, List.length_append, List.append_assoc] at at_ total ⊢
      simp only [Tree.nestingItems, Nat.cast_max] at upper high
      have tokens : fuel + Tree.tokensItems (tree :: items) =
          (fuel + Tree.tokensItems items) + tree.tokens := by
        rw [Tree.tokensItems]; omega
      have first := readerSkipLoop_tree tree (fuel + Tree.tokensItems items) depth R _ at_
        (by omega) lower (by omega) low (by omega)
      have others := readerSkipLoop_items items fuel depth (R.skip tree.encode.length) rest at_.skip
        (by omega) lower (by show R.depth + _ < 2 ^ 31; omega) low (by omega)
      rw [tokens, first, others, Reader.skip_skip]

end

/-- `reader_skip` skips the items of an array, however deep. -/
theorem readsItems_readerSkip (items : List Tree) {fuel : ℕ}
    (total : (Tree.encodeItems items).length + 256 ≤ 2 ^ 64)
    (shallow : Tree.nestingItems items < 2 ^ 31)
    (enough : (Tree.encodeItems items).length < fuel) :
    ReadsItems (Tree.nestingItems items) (readerSkip fuel) () (Tree.encodeItems items) := by
  intro R rest at_ lower upper
  have tokens := Tree.tokensItems_le items total
  obtain ⟨spare, rfl⟩ : ∃ n, fuel = n + 1 + Tree.tokensItems items :=
    ⟨fuel - Tree.tokensItems items - 1, by omega⟩
  have skipped := readerSkipLoop_items items (spare + 1) 0 R _ at_ total lower (by omega) le_rfl
    (by omega)
  have announced : readerNext (R.skip (Tree.encodeItems items).length) =
      .ok .arrayEnd (R.skip (Tree.encodeItems items).length) := readerNext_at at_.skip
  rw [readerSkip, skipped, readerSkipLoop, bind_ok announced]
  rfl

/-- In front of its frame an element is read back and finished. -/
theorem readElement_at {α : Type} {R : Reader} {body rest : Bytes} {checksum required : Bool}
    {d : ℕ} {m : ReaderM α} {a : α} (read : Reads d m a body) (shallow : d < 2 ^ 31)
    (fits : R.base.top + (body ++ Writer.trailer body checksum).length + 256 ≤ 2 ^ 64)
    (file : R.file = frame body checksum ++ rest) (enough : required = true → checksum = true) :
    ∃ R', R'.file = rest ∧ R'.base = R.base ∧
      readerBegin R = .ok .success (R.opened rest (body ++ Writer.trailer body checksum)) ∧
      m (R.opened rest (body ++ Writer.trailer body checksum)) =
        .ok a ((R.opened rest (body ++ Writer.trailer body checksum)).skip body.length) ∧
      readerFinish required
        ((R.opened rest (body ++ Writer.trailer body checksum)).skip body.length) = .ok () R' := by
  set data := body ++ Writer.trailer body checksum with hdata
  have begun : readerBegin R = .ok .success (R.opened rest data) :=
    readerBegin_whole (by omega) (by rw [file, frame, List.append_assoc])
  have at_ : (R.opened rest data).At data := Reader.opened_at fits rest
  have done := read (R.opened rest data) _ (by rw [← hdata]; exact at_) le_rfl
    (by show (0 : ℤ) + d < 2 ^ 31; omega)
  have finished := readerFinish_trailer (R := (R.opened rest data).skip body.length) at_.fits hdata
    rfl rfl enough
  refine ⟨_, ?_, ?_, begun, done, finished⟩ <;> rfl

/-- A file of whole elements is read back, and its end is found behind the last one. -/
theorem readElements_encodeElements (fuel : ℕ) (elements : List (Tree × Bool)) {R : Reader}
    (total : (encodeElements elements).length < 2 ^ 63)
    (enough : (encodeElements elements).length ≤ fuel)
    (fits : R.base.top + (encodeElements elements).length + 256 ≤ 2 ^ 64)
    (shallow : ∀ element ∈ elements, element.1.nesting < 2 ^ 31)
    (file : R.file = encodeElements elements) :
    ∃ R', readElements fuel (elements.map (·.2)) R = .ok (elements.map (·.1)) R' := by
  induction elements generalizing R with
  | nil =>
      refine ⟨{ R with file := [] }, ?_⟩
      simp only [List.map_nil, readElements]
      rw [bind_ok (readerBegin_end file)]
      rfl
  | cons element elements ih =>
      obtain ⟨tree, checksum⟩ := element
      simp only [encodeElements_cons, List.length_append] at total enough fits
      rw [encodeElements_cons] at file
      have size := length_frame tree.encode checksum
      have short := length_payload_le tree.encode checksum
      obtain ⟨R', rest, base, begun, done, finished⟩ := readElement_at (R := R)
        (reads_readTree tree fuel (by omega) (by omega))
        (shallow (tree, checksum) List.mem_cons_self) (by omega) file id
      obtain ⟨R'', others⟩ := ih (R := R') (by omega) (by omega) (by rw [base]; omega)
        (fun element member => shallow element (List.mem_cons_of_mem _ member)) rest
      refine ⟨R'', ?_⟩
      simp only [List.map_cons, readElements]
      rw [bind_ok begun]
      simp only
      rw [bind_ok done, bind_ok finished, bind_ok others]
      rfl

/-! ## The round trip -/

/-- The elements are written without a failed assertion, and reading the output back
with the calls gives the same trees and then the end of the file. -/
def RoundTrips (base : Bases) (elements : List (Tree × Bool)) : Prop :=
  ∃ W file R, writeElements Writer.init elements = some W ∧ W.output = some file ∧
    readElements file.length (elements.map (·.2)) (Reader.init file base) =
      .ok (elements.map (·.1)) R

/-- A number written at any place of an element is read back from there. -/
def NumberRoundTrips (number : ℕ) : Prop :=
  ∀ (W : Writer) (out body : Bytes), W.Holds out body →
    ∃ W' enc, W.writeNumber number = some W' ∧ W'.Holds out (body ++ enc) ∧
      Reads 0 readNumber number enc

/-- Elements and numbers are read back as they were written. -/
theorem storage_round_trip :
    (∀ (base : Bases) (elements : List (Tree × Bool)),
      (encodeElements elements).length < 2 ^ 63 →
      base.top + (encodeElements elements).length + 256 ≤ 2 ^ 64 →
      (∀ element ∈ elements, element.1.nesting < 2 ^ 31) → RoundTrips base elements) ∧
    ∀ number < 2 ^ 64, NumberRoundTrips number := by
  constructor
  · intro base elements total fits shallow
    obtain ⟨W, written, output⟩ := (writesElements_writeElements elements total shallow).output
    obtain ⟨R, read⟩ := readElements_encodeElements (encodeElements elements).length elements
      (R := Reader.init (encodeElements elements) base) total le_rfl fits shallow rfl
    exact ⟨W, _, R, written, output, read⟩
  · intro number fits W out body holds
    obtain ⟨W', written, holds', -⟩ := holds.writeNumber number
    exact ⟨W', _, written, holds', reads_readNumber fits 0⟩

/-- The round trip of an element with a nested empty array, of an empty string
without a checksum, and of a number of two digits. -/
theorem storage_round_trip_small :
    RoundTrips 4096 [(.array [.string [1, 2], .array []], true), (.string [], false)] ∧
      NumberRoundTrips 300 :=
  ⟨storage_round_trip.1 4096 _ (by decide) (by decide) (by decide),
    storage_round_trip.2 300 (by decide)⟩

/-! ## Trees that are too deep -/

/-- `n` arrays around an empty string. -/
def Tree.nest : ℕ → Tree
  | 0 => .string []
  | n + 1 => .array [Tree.nest n]

theorem Tree.length_encode_nest (n : ℕ) : (Tree.nest n).encode.length = 2 * n + 1 := by
  induction n with
  | zero => decide
  | succ n ih =>
      simp only [Tree.nest, Tree.encode, Tree.encodeItems, encodeArray, List.append_nil,
        List.length_cons, List.length_append, List.length_nil, ih]
      omega

/-- The array that takes the depth to `2 ^ 31` wraps it, and the assertion of the
matching `write_array_end` fails. -/
theorem writeTree_nest {W : Writer} {out body : Bytes} (h : W.Holds out body) (n : ℕ)
    (lower : 0 ≤ W.depth) (deep : W.depth + (n + 1) = 2 ^ 31) :
    writeTree W (Tree.nest (n + 1)) = none := by
  induction n generalizing W body with
  | zero =>
      obtain ⟨W₁, stored, holds, depth⟩ :=
        h.ensureStore (show [stArrayBegin].length ≤ 1 from le_rfl)
      have wrapped : toInt (W₁.depth + 1) = -2 ^ 31 := by
        rw [depth, show W.depth + 1 = 2 ^ 31 by simpa using deep]
        decide
      obtain ⟨W₂, written, -, depth₂⟩ :=
        (holds.withDepth (-2 ^ 31)).writeString (show ([] : Bytes).length + stString < 2 ^ 64 by decide)
      have negative : ¬ 0 < W₂.depth := by
        rw [depth₂]
        show ¬ (0 : ℤ) < -2 ^ 31
        decide
      simp only [writeTree, writeItems, Tree.nest, Writer.writeArray, stored, Option.bind_eq_bind,
        Option.bind_some, wrapped, Option.pure_def, written, Writer.writeArrayEnd,
        Writer.ensureSpace_depth, negative, guard_false]
      rfl
  | succ n ih =>
      push_cast at deep
      obtain ⟨W₁, opened, holds, depth⟩ := h.writeArray lower (by omega)
      have inner := ih holds (by omega) (by omega)
      simp only [writeTree, writeItems, Tree.nest, opened, Option.bind_eq_bind, Option.bind_some]
        at inner ⊢
      simp only [inner, Option.bind_none]

/-- An element of `2 ^ 31` nested arrays takes some four gigabytes and cannot be written. -/
theorem nested_arrays_not_written :
    ¬ ∀ (base : Bases) (elements : List (Tree × Bool)),
      (encodeElements elements).length < 2 ^ 63 →
      base.top + (encodeElements elements).length + 256 ≤ 2 ^ 64 → RoundTrips base elements := by
  intro claim
  have size : (encodeElements [(Tree.nest (2 ^ 31 - 1 + 1), false)]).length < 2 ^ 33 := by
    rw [encodeElements_cons, List.length_append, length_frame, List.length_append,
      Tree.length_encode_nest]
    simp [encodeElements, Writer.trailer]
  have bottom : (0 : Bases).top = 0 := rfl
  obtain ⟨W, file, R, written, -, -⟩ := claim 0 [(Tree.nest (2 ^ 31 - 1 + 1), false)]
    (by omega) (by omega)
  have refused := writeTree_nest Writer.init_holds (2 ^ 31 - 1) le_rfl (by norm_num [Writer.init])
  simp only [writeElements, refused, Option.bind_eq_bind, Option.bind_none] at written
  cases written

end HybridDatabase.Storage
