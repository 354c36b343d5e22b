/-
# The schema check

The schema of a database lists its node types with their attributes.  `read_schema` is led
by the schema that it expects and not by the file.  Still it accepts no other schema: where
two lists differ, one of its calls meets a string, a number or a bracket that is not the
one it checks for.
-/

import HybridDatabase.Database.Elements
import HybridDatabase.Database.Open
import Mathlib.Algebra.Order.BigOperators.Group.List

namespace HybridDatabase.Database

open HybridDatabase.Base HybridDatabase.Storage

/-! ## Schemas -/

/-- `name` and `type` of a `struct NodeAttribute`; the type is a `short` that is not
negative. -/
structure SchemaAttribute where
  name : Bytes
  type : Fin (2 ^ 15)
  deriving DecidableEq

/-- `name` and `attributes` of a `NodeType`. -/
structure SchemaType where
  name : Bytes
  attributes : List SchemaAttribute
  deriving DecidableEq

/-- What a `DatabaseType` says about its database.  Names and versions are the characters
of C strings. -/
structure Schema where
  name : Bytes
  version : Bytes
  nodeTypes : List SchemaType
  deriving DecidableEq

/-- Write items one after another. -/
def writeEach {α : Type} (item : α → Writer → Option Writer) : List α → Writer → Option Writer
  | [], W => some W
  | a :: others, W => do
      let W ← item a W
      writeEach item others W

/-- Read items one after another. -/
def readEach {α : Type} (item : α → ReaderM Unit) : List α → ReaderM Unit
  | [] => pure ()
  | a :: others => do
      item a
      readEach item others

namespace SchemaAttribute

def write (attr : SchemaAttribute) (W : Writer) : Option Writer :=
  wArray W fun W => do
    let W ← W.writeString attr.name
    W.writeNumber attr.type

def read (attr : SchemaAttribute) : ReaderM Unit := do
  readArray
  rCheckString attr.name
  rCheckNumber attr.type
  readArrayEnd

def encode (attr : SchemaAttribute) : Bytes :=
  encodeArray (encodeString attr.name ++ encodeNumber attr.type)

end SchemaAttribute

namespace SchemaType

def write (type : SchemaType) (W : Writer) : Option Writer :=
  wArray W fun W => do
    let W ← W.writeString type.name
    writeEach SchemaAttribute.write type.attributes W

def read (type : SchemaType) : ReaderM Unit := do
  readArray
  rCheckString type.name
  readEach SchemaAttribute.read type.attributes
  readArrayEnd

def encode (type : SchemaType) : Bytes :=
  encodeArray (encodeString type.name ++ type.attributes.flatMap SchemaAttribute.encode)

end SchemaType

namespace Schema

/-- `write_schema`. -/
def write (S : Schema) (W : Writer) : Option Writer := do
  let W ← wArray W fun W => do
    let W ← W.writeString (ascii "HybridDatabase Database Schema")
    let W ← W.writeString S.name
    let W ← W.writeString S.version
    writeEach SchemaType.write S.nodeTypes W
  W.finish true

/-- The array that `read_schema` reads. -/
def readBody (S : Schema) : ReaderM Unit := do
  readArray
  rCheckString (ascii "HybridDatabase Database Schema")
  rCheckString S.name
  rCheckString S.version
  readEach SchemaType.read S.nodeTypes
  readArrayEnd

/-- `read_schema`. -/
def read (S : Schema) : ReaderM Unit := do
  let status ← readerBegin
  check (status = .success)
  S.readBody
  readerFinish true

def encode (S : Schema) : Bytes :=
  encodeArray (encodeString (ascii "HybridDatabase Database Schema") ++
    (encodeString S.name ++ (encodeString S.version ++ S.nodeTypes.flatMap SchemaType.encode)))

/-- The bytes of the schema file. -/
def file (S : Schema) : Bytes := frame S.encode true

end Schema

/-! ## The schema of a database type -/

def NodeAttribute.schema (attr : NodeAttribute) : SchemaAttribute :=
  ⟨attr.name, ⟨attr.type.number, by cases attr.type <;> decide⟩⟩

def NodeType.schema (type : NodeType) : SchemaType :=
  ⟨type.name, type.attributes.map NodeAttribute.schema⟩

def DatabaseType.schema (T : DatabaseType) : Schema :=
  ⟨T.name, T.version, T.nodeTypes.map NodeType.schema⟩

theorem writeSchemaAttributes_eq (attrs : List NodeAttribute) (W : Writer) :
    writeSchemaAttributes W attrs =
      writeEach SchemaAttribute.write (attrs.map NodeAttribute.schema) W := by
  induction attrs generalizing W with
  | nil => rfl
  | cons attr attrs ih =>
      simp only [writeSchemaAttributes, List.map_cons, writeEach, ih]
      rfl

theorem writeSchemaTypes_eq (types : List NodeType) (W : Writer) :
    writeSchemaTypes W types = writeEach SchemaType.write (types.map NodeType.schema) W := by
  induction types generalizing W with
  | nil => rfl
  | cons type types ih =>
      simp only [writeSchemaTypes, List.map_cons, writeEach, ih, writeSchemaAttributes_eq]
      rfl

/-- `write_schema` of a database type writes its schema. -/
theorem writeSchema_eq (T : DatabaseType) (W : Writer) : writeSchema T W = T.schema.write W := by
  simp only [writeSchema, writeSchemaTypes_eq]
  rfl

theorem readSchemaAttributes_eq (attrs : List NodeAttribute) :
    readSchemaAttributes attrs =
      readEach SchemaAttribute.read (attrs.map NodeAttribute.schema) := by
  induction attrs with
  | nil => rfl
  | cons attr attrs ih =>
      simp only [readSchemaAttributes, List.map_cons, readEach, ih, SchemaAttribute.read,
        bind_assoc]
      rfl

theorem readSchemaTypes_eq (types : List NodeType) :
    readSchemaTypes types = readEach SchemaType.read (types.map NodeType.schema) := by
  induction types with
  | nil => rfl
  | cons type types ih =>
      simp only [readSchemaTypes, List.map_cons, readEach, ih, SchemaType.read, bind_assoc,
        readSchemaAttributes_eq]
      rfl

/-- `read_schema` of a database type reads its schema. -/
theorem readSchema_eq (T : DatabaseType) : readSchema T = T.schema.read := by
  simp only [readSchema, Schema.read, Schema.readBody, readSchemaTypes_eq, bind_assoc]
  rfl

/-! ## Reading and writing the same schema -/

/-- Items written in a row. -/
theorem Writes.each {α : Type} {d : ℕ} {item : α → Writer → Option Writer} {enc : α → Bytes}
    {items : List α} (one : ∀ a ∈ items, Writes d (item a) (enc a)) :
    Writes d (writeEach item items) (items.flatMap enc) := by
  induction items with
  | nil => exact Writes.nothing d
  | cons a others ih =>
      have first := one a List.mem_cons_self
      have rest := ih fun b among => one b (List.mem_cons_of_mem a among)
      exact first.bind rest

/-- Items read in a row. -/
theorem Reads.each {α : Type} {d : ℕ} {item : α → ReaderM Unit} {enc : α → Bytes}
    (one : ∀ a, Reads d (item a) () (enc a)) (items : List α) :
    Reads d (readEach item items) () (items.flatMap enc) := by
  induction items with
  | nil => exact Reads.pure d ()
  | cons a others ih => exact (one a).seq ih

theorem SchemaAttribute.reads (attr : SchemaAttribute) : Reads 1 attr.read () attr.encode := by
  have small : (attr.type : ℕ) < 2 ^ 64 := lt_trans attr.type.isLt (by decide)
  have items := (reads_rCheckString attr.name 0).seq (reads_rCheckNumber small 0)
  have all := Reads.array items.items
  simp only [bind_assoc, bind_pure_unit] at all
  exact all

theorem SchemaType.reads (type : SchemaType) : Reads 2 type.read () type.encode := by
  have items := (reads_rCheckString type.name 1).seq
    (Reads.each SchemaAttribute.reads type.attributes)
  have all := Reads.array items.items
  simp only [bind_assoc, bind_pure_unit] at all
  exact all

theorem Schema.reads (S : Schema) : Reads 3 S.readBody () S.encode := by
  have items := (reads_rCheckString (ascii "HybridDatabase Database Schema") 2).seq
    ((reads_rCheckString S.name 2).seq ((reads_rCheckString S.version 2).seq
      (Reads.each SchemaType.reads S.nodeTypes)))
  have all := Reads.array items.items
  simp only [bind_assoc, bind_pure_unit] at all
  exact all

/-! ## Reading another schema -/

/-- Where `m` succeeds in front of `enc`, it takes `enc` and the condition holds. -/
def Forces (d : ℕ) (m : ReaderM Unit) (enc : Bytes) (holds : Prop) : Prop :=
  ∀ (R R' : Reader) (rest : Bytes), R.At (enc ++ rest) → 0 ≤ R.depth →
    R.depth + d < 2 ^ 31 → m R = .ok () R' → holds ∧ R' = R.skip enc.length

/-- The same of the last items of an array and the bracket behind them. -/
def ForcesEnd (d : ℕ) (m : ReaderM Unit) (enc : Bytes) (holds : Prop) : Prop :=
  ∀ (R R' : Reader) (rest : Bytes), R.At (enc ++ stArrayEnd :: rest) → 0 < R.depth →
    R.depth + d < 2 ^ 31 → (do m; readArrayEnd) R = .ok () R' →
    holds ∧ R' = { R.skip (enc.length + 1) with depth := R.depth - 1 }

theorem readArray_other {R : Reader} {byte : UInt8} {rest : Bytes} (at_ : R.At (byte :: rest))
    (other : byte ≠ stArrayBegin) : ∀ R', readArray R ≠ .ok () R' := by
  intro R' opened
  have room : ensureSpace 1 R = .ok () R :=
    ensureSpace_at (show R.At ([byte] ++ rest) from at_)
  unfold readArray at opened
  rw [bind_ok room, bind_ok (modify_run _ _), bind_ok (takeByte_at (at_.withDepth _))] at opened
  simp [check, other] at opened

theorem readArrayEnd_other {R : Reader} {byte : UInt8} {rest : Bytes}
    (at_ : R.At (byte :: rest)) (lower : 0 < R.depth) (other : byte ≠ stArrayEnd) :
    ∀ R', readArrayEnd R ≠ .ok () R' := by
  intro R' closed
  have room : ensureSpace 1 R = .ok () R :=
    ensureSpace_at (show R.At ([byte] ++ rest) from at_)
  have positive : assertion (0 < R.depth) R = .ok () R := by
    simp only [assertion, lower, decide_true, if_true, pure_run]
  unfold readArrayEnd at closed
  rw [bind_ok room, bind_ok (get_run R), bind_ok positive, bind_ok (modify_run _ _),
    bind_ok (takeByte_at (at_.withDepth _))] at closed
  simp [check, other] at closed

namespace Forces

variable {d : ℕ} {m m' : ReaderM Unit} {enc enc' : Bytes} {p q : Prop}

theorem seq (first : Forces d m enc p) (second : Forces d m' enc' q) :
    Forces d (do m; m') (enc ++ enc') (p ∧ q) := by
  intro R R' rest at_ lower upper run
  obtain ⟨⟨⟩, R₁, run₁, run₂⟩ := bind_eq_ok.mp run
  rw [List.append_assoc] at at_
  obtain ⟨holds, rfl⟩ := first R R₁ _ at_ lower upper run₁
  obtain ⟨holds', rfl⟩ := second _ R' rest at_.skip lower upper run₂
  exact ⟨⟨holds, holds'⟩, by rw [Reader.skip_skip, List.length_append]⟩

theorem seqEnd (first : Forces d m enc p) (second : ForcesEnd d m' enc' q) :
    ForcesEnd d (do m; m') (enc ++ enc') (p ∧ q) := by
  intro R R' rest at_ lower upper run
  rw [bind_assoc] at run
  obtain ⟨⟨⟩, R₁, run₁, run₂⟩ := bind_eq_ok.mp run
  rw [List.append_assoc] at at_
  obtain ⟨holds, rfl⟩ := first R R₁ _ at_ (le_of_lt lower) upper run₁
  obtain ⟨holds', rfl⟩ := second _ R' rest at_.skip lower upper run₂
  refine ⟨⟨holds, holds'⟩, ?_⟩
  simp only [Reader.skip, List.length_append, Reader.mk.injEq, true_and, and_true]
  omega

theorem atEnd (h : Forces d m enc p) : ForcesEnd d m enc p := by
  intro R R' rest at_ lower upper run
  obtain ⟨⟨⟩, R₁, run₁, run₂⟩ := bind_eq_ok.mp run
  obtain ⟨holds, rfl⟩ := h R R₁ _ at_ (le_of_lt lower) upper run₁
  have closed := readArrayEnd_at at_.skip (show 0 < (R.skip enc.length).depth from lower)
  rw [closed] at run₂
  cases run₂
  exact ⟨holds, by rw [Reader.skip_skip]; rfl⟩

/-- The brackets around items. -/
theorem array (h : ForcesEnd d m enc p) :
    Forces (d + 1) (do readArray; m; readArrayEnd) (encodeArray enc) p := by
  intro R R' rest at_ lower upper run
  push_cast at upper
  have start : R.At (stArrayBegin :: (enc ++ stArrayEnd :: rest)) := by
    simpa [encodeArray] using at_
  rw [bind_ok (readArray_at start lower (by omega))] at run
  have inside : ({ R.skip 1 with depth := R.depth + 1 } : Reader).At (enc ++ stArrayEnd :: rest) :=
    (Reader.At.skip (show R.At ([stArrayBegin] ++ _) from start)).withDepth _
  obtain ⟨holds, rfl⟩ := h _ R' rest inside (by show 0 < R.depth + 1; omega)
    (by show R.depth + 1 + d < 2 ^ 31; omega) run
  refine ⟨holds, ?_⟩
  simp only [Reader.skip, encodeArray, List.length_cons, List.length_append, List.length_nil,
    Reader.mk.injEq, true_and]
  constructor <;> omega

theorem rCheckString (text contents : Bytes) (d : ℕ) :
    Forces d (rCheckString text) (encodeString contents) (contents = text) := by
  intro R R' rest at_ lower upper run
  by_cases same : contents = text
  · subst same
    rw [reads_rCheckString contents d R rest at_ lower upper] at run
    cases run
    exact ⟨rfl, rfl⟩
  · obtain ⟨n, refused⟩ := rCheckString_other at_ lower (by omega) same
    rw [refused] at run
    cases run

theorem rCheckNumber {number : ℕ} (expected : ℕ) (fits : number < 2 ^ 64) (d : ℕ) :
    Forces d (rCheckNumber expected) (encodeNumber number) (number = expected) := by
  intro R R' rest at_ lower upper run
  unfold Database.rCheckNumber at run
  rw [bind_ok (reads_readNumber fits d R rest at_ lower upper)] at run
  by_cases same : number = expected
  · simp only [check, same, decide_true, if_true, pure_run] at run
    cases run
    exact ⟨same, same ▸ rfl⟩
  · simp [check, same] at run

end Forces

/-- Items that are arrays: where all of them are read and the bracket behind them, the
items are the ones that are expected. -/
theorem ForcesEnd.each {α : Type} {d : ℕ} {item : α → ReaderM Unit} {enc : α → Bytes}
    (one : ∀ expected got, Forces d (item expected) (enc got) (got = expected))
    (begins : ∀ got, ∃ rest, enc got = stArrayBegin :: rest)
    (opens : ∀ expected R R', item expected R = .ok () R' → ∃ R₁, readArray R = .ok () R₁)
    (expected got : List α) :
    ForcesEnd d (readEach item expected) (got.flatMap enc) (got = expected) := by
  induction expected generalizing got with
  | nil =>
      cases got with
      | nil =>
          intro R R' rest at_ lower upper run
          have closed : readArrayEnd R = .ok () R' := run
          rw [readArrayEnd_at at_ lower] at closed
          cases closed
          exact ⟨rfl, rfl⟩
      | cons a others =>
          intro R R' rest at_ lower upper run
          have closed : readArrayEnd R = .ok () R' := run
          obtain ⟨inner, begun⟩ := begins a
          rw [List.flatMap_cons, begun] at at_
          exact absurd closed (readArrayEnd_other at_ lower (by decide) R')
  | cons b expected ih =>
      cases got with
      | nil =>
          intro R R' rest at_ lower upper run
          simp only [readEach, bind_assoc] at run
          obtain ⟨⟨⟩, R₁, first, -⟩ := bind_eq_ok.mp run
          obtain ⟨R₂, opened⟩ := opens b R R₁ first
          exact absurd opened (readArray_other at_ (by decide) R₂)
      | cons a others =>
          have both := (one b a).seqEnd (ih others)
          intro R R' rest at_ lower upper run
          obtain ⟨⟨first, rest⟩, left⟩ := both R R' rest at_ lower upper run
          exact ⟨congrArg₂ List.cons first rest, left⟩

theorem SchemaAttribute.forces (expected got : SchemaAttribute) :
    Forces 1 expected.read got.encode (got = expected) := by
  have small : (got.type : ℕ) < 2 ^ 64 := lt_trans got.type.isLt (by decide)
  have items := (Forces.rCheckString expected.name got.name 0).seq
    (Forces.rCheckNumber expected.type small 0)
  have all := Forces.array items.atEnd
  simp only [bind_assoc] at all
  intro R R' rest at_ lower upper run
  obtain ⟨⟨name, type⟩, left⟩ := all R R' rest at_ lower upper run
  refine ⟨?_, left⟩
  cases got
  cases expected
  rw [SchemaAttribute.mk.injEq]
  exact ⟨name, Fin.ext type⟩

theorem opens_of_readArray {m : Unit → ReaderM Unit} {R R' : Reader}
    (run : (readArray >>= m) R = .ok () R') : ∃ R₁, readArray R = .ok () R₁ := by
  obtain ⟨⟨⟩, R₁, opened, -⟩ := bind_eq_ok.mp run
  exact ⟨R₁, opened⟩

theorem SchemaType.forces (expected got : SchemaType) :
    Forces 2 expected.read got.encode (got = expected) := by
  have attributes := ForcesEnd.each SchemaAttribute.forces (fun _ => ⟨_, rfl⟩)
    (fun _ _ _ run => opens_of_readArray run) expected.attributes got.attributes
  have all := Forces.array ((Forces.rCheckString expected.name got.name 1).seqEnd attributes)
  simp only [bind_assoc] at all
  intro R R' rest at_ lower upper run
  obtain ⟨⟨name, attributes⟩, left⟩ := all R R' rest at_ lower upper run
  refine ⟨?_, left⟩
  cases got
  cases expected
  rw [SchemaType.mk.injEq]
  exact ⟨name, attributes⟩

theorem Schema.forces (expected got : Schema) :
    Forces 3 expected.readBody got.encode (got = expected) := by
  have types := ForcesEnd.each SchemaType.forces (fun _ => ⟨_, rfl⟩)
    (fun _ _ _ run => opens_of_readArray run) expected.nodeTypes got.nodeTypes
  have all := Forces.array ((Forces.rCheckString (ascii "HybridDatabase Database Schema")
    (ascii "HybridDatabase Database Schema") 2).seqEnd
    ((Forces.rCheckString expected.name got.name 2).seqEnd
      ((Forces.rCheckString expected.version got.version 2).seqEnd types)))
  simp only [bind_assoc] at all
  intro R R' rest at_ lower upper run
  obtain ⟨⟨-, name, version, types⟩, left⟩ := all R R' rest at_ lower upper run
  refine ⟨?_, left⟩
  cases got
  cases expected
  rw [Schema.mk.injEq]
  exact ⟨name, version, types⟩

/-! ## What is written -/

theorem length_le_flatMap {α : Type} (enc : α → Bytes) {a : α} {items : List α}
    (among : a ∈ items) : (enc a).length ≤ (items.flatMap enc).length := by
  rw [List.length_flatMap]
  exact List.single_le_sum (fun _ _ => Nat.zero_le _) _ (List.mem_map_of_mem among)

theorem SchemaAttribute.writes (attr : SchemaAttribute)
    (total : attr.encode.length + 256 ≤ 2 ^ 64) : Writes 1 attr.write attr.encode := by
  rw [encode, length_encodeArray, List.length_append] at total
  exact Writes.array ((Writes.writeString (by omega) 0).bind (Writes.writeNumber attr.type 0))

theorem SchemaType.writes (type : SchemaType) (total : type.encode.length + 256 ≤ 2 ^ 64) :
    Writes 2 type.write type.encode := by
  rw [encode, length_encodeArray, List.length_append] at total
  have attributes : Writes 1 (writeEach SchemaAttribute.write type.attributes)
      (type.attributes.flatMap SchemaAttribute.encode) := Writes.each fun attr among => by
    have short := length_le_flatMap SchemaAttribute.encode among
    exact attr.writes (by omega)
  exact Writes.array ((Writes.writeString (by omega) 1).bind attributes)

theorem Schema.writes (S : Schema) (total : S.encode.length + 256 ≤ 2 ^ 64) :
    WritesElements S.write S.file := by
  rw [encode, length_encodeArray] at total
  simp only [List.length_append] at total
  have types : Writes 2 (writeEach SchemaType.write S.nodeTypes)
      (S.nodeTypes.flatMap SchemaType.encode) := Writes.each fun type among => by
    have short := length_le_flatMap SchemaType.encode among
    exact type.writes (by omega)
  have head : Writes 2 (fun W => W.writeString (ascii "HybridDatabase Database Schema"))
      (encodeString (ascii "HybridDatabase Database Schema")) := Writes.writeString (by omega) 2
  have name : Writes 2 (fun W => W.writeString S.name) (encodeString S.name) :=
    Writes.writeString (by omega) 2
  have version : Writes 2 (fun W => W.writeString S.version) (encodeString S.version) :=
    Writes.writeString (by omega) 2
  have items := head.bind (name.bind (version.bind types))
  exact WritesElements.finish (Writes.array items) (by decide) true

/-! ## The check -/

/-- `read_schema` accepts what was written just when it is led by the schema that
`write_schema` has written. -/
theorem Schema.read_iff (A B : Schema) (base : Bases)
    (fits : base.top + A.file.length + 256 ≤ 2 ^ 64) :
    ∃ bytes, (A.write Writer.init).bind Writer.output = some bytes ∧
      ((∃ R, B.read (Reader.init bytes base) = .ok () R) ↔ A = B) := by
  have length := length_frame A.encode true
  have payload := length_payload_le A.encode true
  have inside : base.top + (A.encode ++ Writer.trailer A.encode true).length + 256 ≤ 2 ^ 64 := by
    rw [file] at fits
    omega
  obtain ⟨W, written, output⟩ := (A.writes (by rw [file] at fits; omega)).output
  refine ⟨A.file, by rw [written]; exact output, ?_⟩
  have passed (R : Reader) : check (ReadStatus.success = .success) R = .ok () R := rfl
  constructor
  · rintro ⟨R, run⟩
    set data := A.encode ++ Writer.trailer A.encode true with hdata
    have begun : readerBegin (Reader.init A.file base) =
        .ok .success ((Reader.init A.file base).opened [] data) :=
      readerBegin_whole (by omega) (by rw [List.append_nil]; rfl)
    rw [read, bind_ok begun, bind_ok (passed _)] at run
    obtain ⟨⟨⟩, R₁, body, -⟩ := bind_eq_ok.mp run
    have at_ : ((Reader.init A.file base).opened [] data).At data := Reader.opened_at inside []
    rw [hdata] at at_
    exact (Schema.forces B A _ R₁ _ at_ le_rfl (by show (0 : ℤ) + 3 < 2 ^ 31; omega) body).1
  · rintro rfl
    obtain ⟨R', -, -, begun, body, finished⟩ := readElement_at
      (R := Reader.init A.file base) A.reads (by decide) inside
      (show A.file = frame A.encode true ++ [] from (List.append_nil _).symm)
      (show true = true → true = true from id)
    exact ⟨R', by rw [read, bind_ok begun, bind_ok (passed _), bind_ok body, finished]⟩

/-- A schema of one type is accepted by itself and not by one with a longer name. -/
theorem Schema.read_iff_oneType :
    ∃ bytes, ((⟨[65], [49], [⟨[78], [⟨[97], 3⟩]⟩]⟩ : Schema).write Writer.init).bind
        Writer.output = some bytes ∧
      ((∃ R, (⟨[65], [49], [⟨[78], [⟨[97, 97], 3⟩]⟩]⟩ : Schema).read
          (Reader.init bytes 4096) = .ok () R) ↔
        (⟨[65], [49], [⟨[78], [⟨[97], 3⟩]⟩]⟩ : Schema) =
          ⟨[65], [49], [⟨[78], [⟨[97, 97], 3⟩]⟩]⟩) :=
  Schema.read_iff _ _ 4096 (by decide)

end HybridDatabase.Database
