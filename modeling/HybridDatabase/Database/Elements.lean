/-
# Elements of a data file

The elements that the service thread writes: transactions, nodes of a dump, and the
two marks of a dump.  For each of them this file gives its bytes, when `load_file`
accepts it, and what it then does to the memory; a data file of accepted elements is
loaded by applying them in their order.
-/

import HybridDatabase.Database.Effects

namespace HybridDatabase.Database

open HybridDatabase.Base HybridDatabase.Storage

/-! ## Text -/

theorem reads_rCheckString (text : Bytes) (d : ℕ) :
    Reads d (rCheckString text) () (encodeString text) := by
  intro R rest at_ lower upper
  obtain ⟨address, read, copy⟩ := readString_at at_ lower (by omega)
  have length : check (text.length = text.length) (R.skip (encodeString text).length) =
      .ok () (R.skip (encodeString text).length) := by simp [check]
  have same : check (text = text) (R.skip (encodeString text).length) =
      .ok () (R.skip (encodeString text).length) := by simp [check]
  unfold rCheckString
  rw [bind_ok read]
  exact (bind_ok length).trans ((bind_ok copy).trans same)

/-- Another text is refused; only the pointer has moved. -/
theorem rCheckString_other {R : Reader} {contents text rest : Bytes}
    (at_ : R.At (encodeString contents ++ rest)) (lower : 0 ≤ R.depth) (upper : R.depth < 2 ^ 31)
    (other : contents ≠ text) : ∃ n, rCheckString text R = .error .failed (R.skip n) := by
  obtain ⟨address, read, copy⟩ := readString_at at_ lower upper
  refine ⟨(encodeString contents).length, ?_⟩
  unfold rCheckString
  rw [bind_ok read]
  by_cases length : contents.length = text.length
  · have passed : check (contents.length = text.length) (R.skip (encodeString contents).length) =
        .ok () (R.skip (encodeString contents).length) := by simp [check, length]
    have refused : check (contents = text) (R.skip (encodeString contents).length) =
        .error .failed (R.skip (encodeString contents).length) := by simp [check, other]
    exact (bind_ok passed).trans ((bind_ok copy).trans refused)
  · have refused : check (contents.length = text.length) (R.skip (encodeString contents).length) =
        .error .failed (R.skip (encodeString contents).length) := by simp [check, length]
    exact bind_error refused

theorem reads_rCheckNumber {number : ℕ} (fits : number < 2 ^ 64) (d : ℕ) :
    Reads d (rCheckNumber number) () (encodeNumber number) := by
  have both := (reads_readNumber fits d).bind (f := fun got => check (got = number))
    (Reads.check (by simp) d)
  rwa [List.append_nil] at both

/-! ## Transactions -/

/-- The loader knows a transaction by the array of its first record. -/
theorem loadItems_records {T : DatabaseType} {firstFile : Bool} {items rest : Bytes} {R : Reader}
    {M : Memory} (at_ : R.At (encodeArray items ++ rest)) :
    loadItems T firstFile ⟨R, M⟩ = readRecords T (R.data.length + 1) ⟨R, M⟩ := by
  have looked : loopFuel ⟨R, M⟩ = .ok (R.data.length + 1) ⟨R, M⟩ := rfl
  have announced : onReader readerNext ⟨R, M⟩ = .ok .arrayBegin ⟨R, M⟩ :=
    onReader_ok (readerNext_at (show R.At (stArrayBegin :: (items ++ [stArrayEnd] ++ rest)) from at_)) M
  rw [loadItems, bind_ok looked, bind_ok announced]

/-- The items of a transaction with at least one record. -/
theorem loads_transactionItems {T : DatabaseType} {records : List Record} {M M' : Memory}
    {enc : Bytes} (nonempty : records ≠ []) (small : ∀ record ∈ records, record.Small T)
    (read : recordsRead T M records = some M') (stored : recordsBytes records = some enc)
    (total : enc.length < 2 ^ 63) (firstFile : Bool) :
    Loads arrayEnd 1 (loadItems T firstFile) M () M' enc := by
  obtain ⟨record, others, rfl⟩ := List.exists_cons_of_ne_nil nonempty
  obtain ⟨first, rest, hfirst, -, split⟩ := recordsBytes_cons.mp stored
  obtain ⟨items, -, rfl⟩ := Option.map_eq_some_iff.mp hfirst
  intro R behind follow at_ lower upper
  have enough : enc.length < R.data.length + 1 := by
    obtain ⟨done, data, -⟩ := at_.split
    rw [data, List.length_append, List.length_append]
    omega
  have here : R.At (encodeArray items ++ (rest ++ behind)) := by
    rwa [split, List.append_assoc] at at_
  rw [loadItems_records here]
  exact loads_readRecords small read stored total enough R behind follow at_ lower upper

/-! ## Nodes of a dump -/

/-- The values are ones that attributes of these types can hold. -/
def ValuesHold (attrs : List NodeAttribute) (values : List Value) : Prop :=
  List.Forall₂ (fun attr value => attr.type.kind.Holds value) attrs values

/-- The node is one of its type. -/
def NodeFits (T : DatabaseType) (node : Node) : Prop :=
  ∃ type, T.nodeTypes[node.type]? = some type ∧ ValuesHold type.attributes node.values

/-- The attributes of a type. -/
def attributesOf (T : DatabaseType) (type : ℕ) : List NodeAttribute :=
  (T.nodeTypes[type]?).elim [] NodeType.attributes

/-- The memory after a node of a dump is loaded. -/
def Memory.load (id : ℕ) (node : Node) (M : Memory) : Memory :=
  Memory.call .insert
    { ((M.call (.alloc node.type)).call (.setId id)).setNode id
        (some { node with values := node.values.map Value.stored }) with
      counter := max M.counter id }

theorem loads_loadAttributes {id type : ℕ} {attrs : List NodeAttribute} {values : List Value}
    (holds : ValuesHold attrs values) {enc : Bytes} (stored : valuesBytes attrs values = some enc)
    {M : Memory} {done inits : List Value}
    (present : M.nodes id = some ⟨type, done ++ inits⟩) (length : inits.length = attrs.length)
    (d : ℕ) :
    Loads arrayEnd d (loadAttributes id done.length attrs) M ()
      (M.setNode id (some ⟨type, done ++ values.map Value.stored⟩)) enc := by
  induction holds generalizing M done inits enc with
  | nil =>
      cases stored
      obtain rfl := List.eq_nil_of_length_eq_zero length
      have same : M.setNode id (some ⟨type, done ++ []⟩) = M := by
        rw [Memory.setNode, ← present, Function.update_eq_self]
      simp only [List.map_nil, same]
      exact Loads.pure ()
  | cons head tail ih =>
      rename_i attr value attrs values
      simp only [valuesBytes, Option.bind_eq_bind, Option.bind_eq_some_iff, Option.pure_def,
        Option.some.injEq] at stored
      obtain ⟨first, hfirst, others, hothers, rfl⟩ := stored
      obtain ⟨init, inits, rfl⟩ : ∃ init rest, inits = init :: rest := by
        cases inits with
        | nil => cases length
        | cons init inits => exact ⟨init, inits, rfl⟩
      have set : (M.setValue id done.length value.stored).nodes id =
          some ⟨type, (done ++ [value.stored]) ++ inits⟩ := by
        simp [Memory.setValue, Memory.setNode, present]
      have last := ih hothers set (by simpa using length)
      have overwritten :
          (M.setValue id done.length value.stored).setNode id
            (some ⟨type, (done ++ [value.stored]) ++ values.map Value.stored⟩) =
          M.setNode id (some ⟨type, done ++ (value :: values).map Value.stored⟩) := by
        simp [Memory.setValue, Memory.setNode]
      rw [overwritten, List.length_append, List.length_singleton] at last
      exact Loads.bind (Loads.read (reads_attributeLoad head hfirst d))
        (Loads.bind (Loads.update _) last)

theorem loads_readNodeLoad {T : DatabaseType} {M : Memory} {id : ℕ} {node : Node} {enc : Bytes}
    (fits : NodeFits T node) (idFits : id < 2 ^ 64) (absent : M.nodes id = none)
    (stored : valuesBytes (attributesOf T node.type) node.values = some enc) (d : ℕ) :
    Loads arrayEnd d (readNodeLoad T) M () (M.load id node)
      (encodeNumber node.type ++ (encodeNumber id ++ enc)) := by
  obtain ⟨type, found, holds⟩ := fits
  obtain ⟨known, same⟩ := List.getElem?_eq_some_iff.mp found
  have prepared : Loads anything d (readNodePrepare T) M _ _ _ :=
    loads_readNodePrepare known idFits d
  simp only [absent, Option.isSome_none, Bool.false_eq_true, if_false, same] at prepared
  have attrs : attributesOf T node.type = type.attributes := by
    simp only [attributesOf, found, Option.elim_some]
  rw [attrs] at stored
  have created : (M.create T node.type id).nodes id =
      some ⟨node.type, [] ++ type.attributes.map fun attr => attributeInit attr.type⟩ := by
    simp [Memory.nodes_create, absent, found]
  have loaded := loads_loadAttributes holds stored created (by simp) d
  have result : (M.create T node.type id).setNode id
      (some ⟨node.type, [] ++ node.values.map Value.stored⟩) = M.load id node := by
    simp [Memory.create, Memory.load, Memory.setNode, Memory.call, absent]
  rw [result] at loaded
  rw [← List.append_assoc]
  exact Loads.bind prepared loaded

theorem nextKind_encodeNumber (number : ℕ) :
    ∃ byte tail, encodeNumber number = byte :: tail ∧ nextKind byte = .string := by
  have short := length_numberBytes number
  rw [encodeNumber_eq]
  exact nextKind_encodeString (by simp only [stString]; omega)

/-- The items of the element of a node in a dump, where a dump is on. -/
theorem loads_dumpItems {T : DatabaseType} {M : Memory} {items : Bytes} {firstFile : Bool}
    {M' : Memory} {d : ℕ} (dumping : M.dumpOn = true)
    (others : ∀ fuel, items.length < fuel →
      Loads arrayEnd d (if firstFile then readDump T fuel else rSkip) M () M' items) :
    Loads arrayEnd d (loadItems T firstFile) M () M' (encodeNumber 0 ++ items) := by
  obtain ⟨byte, tail, code, kind⟩ := nextKind_encodeNumber 0
  refine Loads.fuel fun fuel enough => ?_
  rw [List.length_append] at enough
  have checked : Loads anything d (onReader (rCheckNumber 0)) M () M (encodeNumber 0) :=
    Loads.read (reads_rCheckNumber (by decide) d)
  have guarded : Loads arrayEnd d
      (do let dumpOn ← getDumpOn
          ensure dumpOn
          if firstFile then readDump T fuel else rSkip) M () M' items := by
    apply Loads.lookDumpOn
    have passed : Loads anything d (ensure M.dumpOn) M () M [] := Loads.ensure dumping
    exact Loads.bind passed (others fuel (by omega))
  have all := Loads.bind (f := fun _ => do
    let dumpOn ← getDumpOn
    ensure dumpOn
    if firstFile then readDump T fuel else rSkip) checked guarded
  rw [code, List.cons_append] at all ⊢
  apply Loads.next
  rw [kind]
  exact all

/-- In the first file the node is loaded. -/
theorem loads_dumpItems_first {T : DatabaseType} {M : Memory} {id : ℕ} {node : Node} {enc : Bytes}
    (dumping : M.dumpOn = true) (fits : NodeFits T node) (idFits : id < 2 ^ 64)
    (absent : M.nodes id = none) (stored : nodeBytes (attributesOf T node.type) id node = some enc) :
    Loads arrayEnd 1 (loadItems T true) M () (M.load id node) (encodeNumber 0 ++ enc) := by
  obtain ⟨values, hvalues, rfl⟩ := Option.map_eq_some_iff.mp stored
  refine loads_dumpItems dumping fun fuel enough => ?_
  have load := loads_readNodeLoad fits idFits absent hvalues 0
  rw [length_encodeArray] at enough
  obtain ⟨fuel, rfl⟩ : ∃ n, fuel = n + 2 := ⟨fuel - 2, by omega⟩
  have last : Loads arrayEnd 1 (readDump T (fuel + 1)) (M.load id node) () (M.load id node) [] := by
    unfold readDump
    exact Loads.nextEnd (Loads.pure ())
  have all := Loads.array load last
  rw [List.append_nil] at all
  simp only [if_true]
  unfold readDump
  apply Loads.next
  have kind : nextKind stArrayBegin = .arrayBegin := by decide
  rw [kind]
  exact all

theorem valuesBytes_tree {attrs : List NodeAttribute} {values : List Value} {enc : Bytes}
    (stored : valuesBytes attrs values = some enc) :
    ∃ items, enc = Tree.encodeItems items ∧ Tree.nestingItems items = 0 := by
  induction attrs generalizing values enc with
  | nil =>
      cases stored
      exact ⟨[], rfl, rfl⟩
  | cons attr attrs ih =>
      cases values with
      | nil =>
          cases stored
          exact ⟨[], rfl, rfl⟩
      | cons value values =>
          simp only [valuesBytes, Option.bind_eq_bind, Option.bind_eq_some_iff, Option.pure_def,
            Option.some.injEq] at stored
          obtain ⟨first, hfirst, others, hothers, rfl⟩ := stored
          obtain ⟨contents, -, rfl⟩ := attributeBytes_eq hfirst
          obtain ⟨items, rfl, flat⟩ := ih hothers
          exact ⟨.string contents :: items, rfl, by simp [Tree.nestingItems, Tree.nesting, flat]⟩

/-- In a later file the node is skipped. -/
theorem loads_dumpItems_later {T : DatabaseType} {M : Memory} {id : ℕ} {node : Node} {enc : Bytes}
    (dumping : M.dumpOn = true) (total : enc.length < 2 ^ 63)
    (stored : nodeBytes (attributesOf T node.type) id node = some enc) :
    Loads arrayEnd 1 (loadItems T false) M () M (encodeNumber 0 ++ enc) := by
  obtain ⟨values, hvalues, rfl⟩ := Option.map_eq_some_iff.mp stored
  obtain ⟨items, rfl, flat⟩ := valuesBytes_tree hvalues
  refine loads_dumpItems dumping fun fuel enough => ?_
  set tree : Tree := .array (.string (numberBytes node.type) :: .string (numberBytes id) :: items)
    with htree
  have nesting : Tree.nestingItems [tree] = 1 := by
    simp [htree, Tree.nestingItems, Tree.nesting, flat]
  have same : encodeArray (encodeNumber node.type ++ (encodeNumber id ++ Tree.encodeItems items)) =
      Tree.encodeItems [tree] := by
    simp [htree, Tree.encodeItems, Tree.encode, encodeNumber_eq]
  rw [same] at total ⊢
  exact loads_rSkip _ total nesting.le (by decide)

/-! ## Whole elements -/

/-- An element that the loop takes as it stands in its buffer. -/
theorem effect_of_taken {T : DatabaseType} {firstFile : Bool} {base : Bases} {n : ℕ} {M M' : Memory}
    {element : RootElement} (taken : loadElement T firstFile ⟨element.inBuffer base, M⟩ =
      .ok false ⟨(element.inBuffer base).skip n, M'⟩) :
    element.effect T firstFile base M = some M' := by
  rw [RootElement.effect, taken]

/-- An element that is an array with a checksum. -/
theorem effect_array {T : DatabaseType} {firstFile : Bool} {base : Bases} {M M' : Memory}
    {enc : Bytes} (items : Loads arrayEnd 1 (loadItems T firstFile) M () M' enc)
    (fits : base.top + (frame (encodeArray enc) true).length + 256 ≤ 2 ^ 64) :
    (RootElement.ofBody (encodeArray enc) true).effect T firstFile base M = some M' := by
  rw [length_frame] at fits
  set data := encodeArray enc ++ Writer.trailer (encodeArray enc) true with hdata
  set R₀ := (RootElement.ofBody (encodeArray enc) true).inBuffer base with hR₀
  have at_ : R₀.At data :=
    RootElement.inBuffer_at (by show base.top + data.length + 256 ≤ 2 ^ 64; omega)
  have announced : onReader readerNext ⟨R₀, M⟩ = .ok .arrayBegin ⟨R₀, M⟩ :=
    onPart_ok (readerNext_at (show R₀.At (stArrayBegin :: _) from at_))
  have array : Loads anything 2
      (do onReader readArray; loadItems T firstFile; onReader readArrayEnd) M () M'
      (encodeArray enc) := by
    have last : Loads anything 2 (pure ()) M' () M' [] := Loads.pure ()
    have all := Loads.array items last
    simpa only [List.append_nil, bind_pure_unit] using all
  have closed := array R₀ (Writer.trailer (encodeArray enc) true) trivial at_ le_rfl
    (by show (0 : ℤ) + 2 < 2 ^ 31; decide)
  have finished : onReader (readerFinish true) ⟨R₀.skip (encodeArray enc).length, M'⟩ =
      .ok () ⟨(R₀.skip (encodeArray enc).length).skip
        (Writer.trailer (encodeArray enc) true).length, M'⟩ :=
    onPart_ok (readerFinish_trailer at_.fits hdata rfl rfl id)
  have whole : loadArray T firstFile ⟨R₀, M⟩ = .ok () ⟨(R₀.skip (encodeArray enc).length).skip
      (Writer.trailer (encodeArray enc) true).length, M'⟩ := by
    have parts : loadArray T firstFile = (do
        (do onReader readArray; loadItems T firstFile; onReader readArrayEnd)
        onReader (readerFinish true)) := by
      simp only [loadArray, bind_assoc]
    rw [parts, bind_ok closed, finished]
  refine effect_of_taken
    (n := (encodeArray enc).length + (Writer.trailer (encodeArray enc) true).length) ?_
  rw [loadElement, bind_ok announced, ← Reader.skip_skip]
  simp only
  rw [bind_ok whole]
  rfl

/-! ## Marks -/

theorem attempt_ok {m : LoadM Unit} {s t : Loading} (h : m s = .ok () t) :
    attempt m s = .ok true t := by
  simp only [attempt, h]

theorem attempt_failed {m : LoadM Unit} {s t : Loading} (h : m s = .error .failed t) :
    attempt m s = .ok false t := by
  simp only [attempt, h]

/-- Reading the mark that is there, to the end of its element. -/
theorem readMark_at {R : Reader} {text : Bytes} {M : Memory}
    (fits : R.begin + R.data.length + 256 ≤ 2 ^ 64)
    (data : R.data = encodeString text ++ Writer.trailer (encodeString text) false)
    (ptr : R.ptr = R.begin) (closed : R.depth = 0) :
    onReader (do rCheckString text; readerFinish false) ⟨R, M⟩ =
      .ok () ⟨R.skip R.data.length, M⟩ := by
  have at_ : R.At (encodeString text ++ Writer.trailer (encodeString text) false) :=
    ⟨fits, [], data, by rw [ptr]; rfl⟩
  have read := reads_rCheckString text 0 R _ at_ (by omega) (by omega)
  have finished := readerFinish_trailer (R := R.skip (encodeString text).length) fits data
    (by show R.ptr + _ = R.begin + _; rw [ptr]) closed (fun h => h)
  apply onPart_ok
  rw [bind_ok read, finished, Reader.skip_skip, data, List.length_append]

/-- Reading a mark where another text is. -/
theorem readMark_other {R : Reader} {contents text rest : Bytes} {M : Memory}
    (at_ : R.At (encodeString contents ++ rest)) (closed : R.depth = 0) (other : contents ≠ text) :
    ∃ n, onReader (do rCheckString text; readerFinish false) ⟨R, M⟩ =
      .error .failed ⟨R.skip n, M⟩ := by
  obtain ⟨n, refused⟩ := rCheckString_other at_ (by omega) (by omega) other
  exact ⟨n, onPart_error (bind_error refused)⟩

/-- An element that is a string. -/
theorem loadElement_mark {T : DatabaseType} {firstFile : Bool} {R : Reader} {contents rest : Bytes}
    {M : Memory} (fits : contents.length + stString < 2 ^ 64)
    (at_ : R.At (encodeString contents ++ rest)) :
    loadElement T firstFile ⟨R, M⟩ = loadMark ⟨R, M⟩ := by
  obtain ⟨byte, tail, code, kind⟩ := nextKind_encodeString fits
  have announced : onReader readerNext ⟨R, M⟩ = .ok .string ⟨R, M⟩ := by
    rw [← kind]
    exact onPart_ok (readerNext_at (show R.At (byte :: (tail ++ rest)) by rwa [code] at at_))
  rw [loadElement, bind_ok announced]

/-- Going back to the begin of the element. -/
theorem rewind_skip {R : Reader} {M : Memory} (ptr : R.ptr = R.begin) (n : ℕ) :
    rewind ⟨R.skip n, M⟩ = .ok () ⟨R, M⟩ := by
  obtain ⟨file, base, data, ptr', depth⟩ := R
  have there : ptr' = base.address data := ptr
  subst there
  rfl

section Marks

variable {T : DatabaseType} {firstFile : Bool} {base : Bases} {M : Memory}

/-- The mark in front of a dump. -/
theorem effect_dumpBegin (off : M.dumpOn = false) (fits : base.top + 1024 ≤ 2 ^ 64) :
    (RootElement.ofBody (encodeString (ascii "DUMP BEGIN")) false).effect T firstFile base M =
      some { M with dumpOn := true } := by
  set text := ascii "DUMP BEGIN" with htext
  set data := encodeString text ++ Writer.trailer (encodeString text) false with hdata
  set R₀ := (RootElement.ofBody (encodeString text) false).inBuffer base with hR₀
  have room : data.length ≤ 32 := by rw [hdata, htext]; decide
  have start : R₀.At data :=
    RootElement.inBuffer_at (by show base.top + data.length + 256 ≤ _; omega)
  have read : onReader readDumpBegin ⟨R₀, M⟩ = .ok () ⟨R₀.skip data.length, M⟩ :=
    readMark_at start.fits hdata rfl rfl
  apply effect_of_taken (n := data.length)
  rw [loadElement_mark (by decide) (show R₀.At (encodeString text ++ _) from start), loadMark,
    bind_ok (attempt_ok read)]
  simp only [if_true]
  have looked (s : Loading) : getDumpOn s = .ok s.memory.dumpOn s := rfl
  rw [bind_ok (looked _)]
  simp only [off, ensure, Bool.not_false, if_true]
  rw [bind_ok (pure_run _ _)]
  rfl

/-- The mark behind a dump: it is not the mark in front of one, and the reader goes back
to try it again. -/
theorem effect_dumpEnd (on : M.dumpOn = true) (fits : base.top + 1024 ≤ 2 ^ 64) :
    (RootElement.ofBody (encodeString (ascii "DUMP END")) false).effect T firstFile base M =
      some { M with dumpOn := false } := by
  set text := ascii "DUMP END" with htext
  set data := encodeString text ++ Writer.trailer (encodeString text) false with hdata
  set R₀ := (RootElement.ofBody (encodeString text) false).inBuffer base with hR₀
  have room : data.length ≤ 32 := by rw [hdata, htext]; decide
  have start : R₀.At data :=
    RootElement.inBuffer_at (by show base.top + data.length + 256 ≤ _; omega)
  obtain ⟨n, refused⟩ : ∃ n, onReader readDumpBegin ⟨R₀, M⟩ = .error .failed ⟨R₀.skip n, M⟩ :=
    readMark_other (show R₀.At (encodeString text ++ _) from start) rfl (by decide)
  have back := rewind_skip (R := R₀) (M := M) rfl n
  have read : onReader readDumpEnd ⟨R₀, M⟩ = .ok () ⟨R₀.skip data.length, M⟩ :=
    readMark_at start.fits hdata rfl rfl
  apply effect_of_taken (n := data.length)
  rw [loadElement_mark (by decide) (show R₀.At (encodeString text ++ _) from start), loadMark,
    bind_ok (attempt_failed refused)]
  simp only [Bool.false_eq_true, if_false]
  rw [bind_ok back, bind_ok (attempt_ok read)]
  simp only [if_true]
  have looked (s : Loading) : getDumpOn s = .ok s.memory.dumpOn s := rfl
  rw [bind_ok (looked _)]
  simp only [on, ensure, if_true]
  rw [bind_ok (pure_run _ _)]
  rfl

end Marks

end HybridDatabase.Database
