/-
# Attributes

The types of attributes, their values in memory, and how a value is stored and
loaded.  A `Pointer` is represented by the id of its target; zero is the null
pointer.  Storing a null `RawString` dereferences the null pointer, which the model
answers with `none`.
-/

import Mathlib.Data.List.TakeWhile
import HybridDatabase.Storage.Tree

namespace HybridDatabase.Database

open HybridDatabase.Base HybridDatabase.Storage

/-- The attribute types, numbered in this order. -/
inductive AttrType
  | int8 | int16 | int32 | int64
  | uint8 | uint16 | uint32 | uint64
  | float | double | ldouble
  | string | rawString | pointer
  deriving DecidableEq, Repr

/-- The number of a type in the generated enumeration. -/
def AttrType.number (type : AttrType) : ℕ := type.ctorIdx

/-- What an attribute holds. -/
inductive Value
  /-- The memory of an integer or a floating number. -/
  | raw (bytes : Bytes)
  | number (value : ℕ)
  /-- A null pointer or the characters before the terminating zero. -/
  | string (chars : Option Bytes)
  | rawString (data : Option Bytes)
  | pointer (id : ℕ)
  deriving DecidableEq, Repr

/-- How the types are stored and loaded: four generic ways and the pointer. -/
inductive AttrKind
  /-- `ATTRIBUTE_GENERIC_STORE` of so many bytes. -/
  | raw (size : ℕ)
  /-- `wNumber` of a variable of so many bits. -/
  | number (bits : ℕ)
  | string
  | rawString
  | pointer
  deriving DecidableEq, Repr

def AttrType.kind : AttrType → AttrKind
  | .int8 => .raw 1
  | .int16 => .raw 2
  | .int32 => .raw 4
  | .int64 => .raw 8
  | .uint8 => .number 8
  | .uint16 => .number 16
  | .uint32 => .number 32
  | .uint64 => .number 64
  | .float => .raw 4
  | .double => .raw 8
  | .ldouble => .raw 16
  | .string => .string
  | .rawString => .rawString
  | .pointer => .pointer

/-- The value is one that a variable of the kind can hold. -/
def AttrKind.Holds : AttrKind → Value → Prop
  | .raw size, .raw bytes => bytes.length = size
  | .number bits, .number n => n < 2 ^ bits
  | .string, .string chars => ∀ c ∈ chars.getD [], c ≠ 0
  | .rawString, .rawString _ => True
  | .pointer, .pointer id => id < 2 ^ 64
  | _, _ => False

instance (kind : AttrKind) (value : Value) : Decidable (kind.Holds value) := by
  cases kind <;> cases value <;> unfold AttrKind.Holds <;>
    first | exact List.decidableBAll _ _ | infer_instance

/-- `attribute_init`. -/
def attributeInit (type : AttrType) : Value :=
  match type.kind with
  | .raw size => .raw (List.replicate size 0)
  | .number _ => .number 0
  | .string => .string none
  | .rawString => .rawString none
  | .pointer => .pointer 0

/-- A fresh attribute holds a value of its type. -/
theorem attributeInit_holds (type : AttrType) : type.kind.Holds (attributeInit type) := by
  unfold attributeInit
  cases type.kind with
  | raw size => exact List.length_replicate
  | number bits => exact Nat.two_pow_pos bits
  | string => exact fun _ member => absurd member List.not_mem_nil
  | rawString => trivial
  | pointer => exact Nat.two_pow_pos 64

/-- The characters that `strlen` counts. -/
def cString (chars : Option Bytes) : Bytes := (chars.getD []).takeWhile (· ≠ 0)

/-- `attribute_store`. -/
def attributeStore (W : Writer) (type : AttrType) (value : Value) : Option Writer :=
  match type.kind, value with
  | .raw _, .raw bytes => W.writeString bytes
  | .number _, .number n => W.writeNumber n
  | .string, .string chars => W.writeString (cString chars)
  | .rawString, .rawString (some data) =>
      if data.length ≠ 0 then W.writeString data else W.writeNumber 0
  | .pointer, .pointer id => W.writeNumber id
  | _, _ => none

/-- `rRawString`. -/
def rawString (size : ℕ) : ReaderM Bytes := do
  let (address, length) ← readString
  check (length = size)
  fetchMany address length

/-- `attribute_load`. -/
def attributeLoad (type : AttrType) : ReaderM Value :=
  match type.kind with
  | .raw size => do
      let bytes ← rawString size
      return .raw bytes
  | .number bits => do
      let n ← readNumber
      return .number (n % 2 ^ bits)
  | .string => do
      let chars ← readContents
      return .string (if chars.length = 0 then none else some chars)
  | .rawString => do
      let data ← readContents
      return .rawString (if data.length = 0 then none else some data)
  | .pointer => do
      let id ← readNumber
      return .pointer id

/-! ## Storing and loading again -/

/-- What loading gives back for a value that was stored: the null string and the empty
string are stored alike, and loaded as null. -/
def Value.stored : Value → Value
  | .string (some []) => .string none
  | .rawString (some []) => .rawString none
  | value => value

/-- The bytes of a stored value, where storing does not dereference a null pointer. -/
def attributeBytes (type : AttrType) (value : Value) : Option Bytes :=
  match type.kind, value with
  | .raw _, .raw bytes => some (encodeString bytes)
  | .number _, .number n => some (encodeNumber n)
  | .string, .string chars => some (encodeString (cString chars))
  | .rawString, .rawString (some data) => some (encodeString data)
  | .pointer, .pointer id => some (encodeNumber id)
  | _, _ => none

theorem cString_eq {chars : Option Bytes} (h : ∀ c ∈ chars.getD [], c ≠ 0) :
    cString chars = chars.getD [] := by
  rw [cString, List.takeWhile_eq_self_iff]
  intro c member
  simpa using h c member

/-- The five ways to store a value. -/
inductive AttrKind.Stores : AttrKind → Value → Bytes → Prop
  | raw (size : ℕ) (bytes : Bytes) : Stores (.raw size) (.raw bytes) (encodeString bytes)
  | number (bits n : ℕ) : Stores (.number bits) (.number n) (encodeNumber n)
  | string (chars : Option Bytes) :
      Stores .string (.string chars) (encodeString (cString chars))
  | rawString (data : Bytes) : Stores .rawString (.rawString (some data)) (encodeString data)
  | pointer (id : ℕ) : Stores .pointer (.pointer id) (encodeNumber id)

theorem stores_of_attributeBytes {type : AttrType} {value : Value} {enc : Bytes}
    (h : attributeBytes type value = some enc) : type.kind.Stores value enc := by
  unfold attributeBytes at h
  generalize type.kind = kind at h ⊢
  split at h <;> cases h <;> constructor

/-- The contents of the string that `attribute_store` writes; a number is the string of its
digits. -/
def attributeContents (type : AttrType) (value : Value) : Option Bytes :=
  match type.kind, value with
  | .raw _, .raw bytes => some bytes
  | .number _, .number n => some (numberBytes n)
  | .string, .string chars => some (cString chars)
  | .rawString, .rawString (some data) => some data
  | .pointer, .pointer id => some (numberBytes id)
  | _, _ => none

/-- Only a null `RawString` has no contents. -/
theorem attributeContents_isSome_iff {type : AttrType} {value : Value}
    (holds : type.kind.Holds value) :
    (attributeContents type value).isSome ↔ value ≠ .rawString none := by
  unfold attributeContents
  generalize type.kind = kind at holds ⊢
  cases kind <;> cases value <;> first | exact holds.elim | skip
  case rawString.rawString data => cases data <;> simp
  all_goals simp

/-- A stored value is one string of the format. -/
theorem attributeBytes_eq_map (type : AttrType) (value : Value) :
    attributeBytes type value = (attributeContents type value).map encodeString := by
  unfold attributeBytes attributeContents
  generalize type.kind = kind
  split <;> first | rfl | exact congrArg some (encodeNumber_eq _)

theorem attributeBytes_eq {type : AttrType} {value : Value} {enc : Bytes}
    (h : attributeBytes type value = some enc) :
    ∃ contents, attributeContents type value = some contents ∧ enc = encodeString contents := by
  rw [attributeBytes_eq_map] at h
  obtain ⟨contents, stored, rfl⟩ := Option.map_eq_some_iff.mp h
  exact ⟨contents, stored, rfl⟩

/-- What `attribute_load` makes of a string, where it takes it. -/
def AttrType.ofContents (type : AttrType) (contents : Bytes) : Option Value :=
  match type.kind with
  | .raw size => if contents.length = size then some (.raw contents) else none
  | .number bits =>
      if contents.length ≤ 8 then some (.number (shiftIn 0 contents % 2 ^ bits)) else none
  | .string => some (.string (if contents.length = 0 then none else some contents))
  | .rawString => some (.rawString (if contents.length = 0 then none else some contents))
  | .pointer => if contents.length ≤ 8 then some (.pointer (shiftIn 0 contents)) else none

/-- The lengths of the strings that `attribute_load` takes. -/
def AttrKind.Takes : AttrKind → ℕ → Prop
  | .raw size, length => length = size
  | .number _, length => length ≤ 8
  | .pointer, length => length ≤ 8
  | _, _ => True

instance (kind : AttrKind) (length : ℕ) : Decidable (kind.Takes length) := by
  cases kind <;> unfold AttrKind.Takes <;> infer_instance

theorem ofContents_isSome_iff {type : AttrType} {contents : Bytes} :
    (type.ofContents contents).isSome ↔ type.kind.Takes contents.length := by
  unfold AttrType.ofContents
  generalize type.kind = kind
  cases kind <;> simp [AttrKind.Takes]

theorem length_le_encodeString (contents : Bytes) :
    contents.length ≤ (encodeString contents).length := by
  rw [encodeString, List.length_append]
  omega

/-- `attribute_store` appends the bytes of the value. -/
theorem holds_attributeStore {W : Writer} {out body enc : Bytes} (h : W.Holds out body)
    {type : AttrType} {value : Value} (stored : attributeBytes type value = some enc)
    (total : enc.length + 256 ≤ 2 ^ 64) :
    ∃ W', attributeStore W type value = some W' ∧ W'.Holds out (body ++ enc) ∧
      W'.depth = W.depth := by
  have string (contents : Bytes) (short : (encodeString contents).length + 256 ≤ 2 ^ 64) :
      ∃ W', W.writeString contents = some W' ∧
        W'.Holds out (body ++ encodeString contents) ∧ W'.depth = W.depth := by
    have := length_le_encodeString contents
    exact h.writeString (by simp only [stString]; omega)
  unfold attributeStore
  have way := stores_of_attributeBytes stored
  generalize type.kind = kind at way ⊢
  cases way with
  | raw size bytes => exact string bytes total
  | number bits n => exact h.writeNumber n
  | string chars => exact string _ total
  | pointer id => exact h.writeNumber id
  | rawString data =>
      by_cases empty : data.length = 0
      · obtain rfl := List.eq_nil_of_length_eq_zero empty
        exact h.writeNumber 0
      · simp only [ne_eq, empty, not_false_eq_true, if_true]
        exact string data total

/-- Where `attribute_store` does not come to an end, there are no bytes to store. -/
theorem attributeBytes_of_attributeStore {W W' : Writer} {type : AttrType} {value : Value}
    (h : attributeStore W type value = some W') : ∃ enc, attributeBytes type value = some enc := by
  unfold attributeStore at h
  unfold attributeBytes
  generalize type.kind = kind at h ⊢
  split at h
  case h_6 => cases h
  all_goals exact ⟨_, rfl⟩

/-- A string of the expected length is read whole. -/
theorem reads_rawString (contents : Bytes) (d : ℕ) :
    Reads d (rawString contents.length) contents (encodeString contents) := by
  intro R rest at_ lower upper
  obtain ⟨address, read, copy⟩ := readString_at at_ lower (by omega)
  have same : check (contents.length = contents.length) (R.skip (encodeString contents).length) =
      .ok () (R.skip (encodeString contents).length) := by simp [check]
  unfold rawString
  rw [bind_ok read]
  exact (bind_ok same).trans copy

theorem AttrType.kind_bits {type : AttrType} {bits : ℕ} (h : type.kind = .number bits) :
    bits ≤ 64 := by
  cases type <;> simp only [AttrType.kind, AttrKind.number.injEq, reduceCtorEq] at h <;> omega

theorem reads_ofContents {type : AttrType} {contents : Bytes} {value : Value}
    (taken : type.ofContents contents = some value) (d : ℕ) :
    Reads d (attributeLoad type) value (encodeString contents) := by
  unfold AttrType.ofContents at taken
  unfold attributeLoad
  generalize type.kind = kind at taken ⊢
  cases kind with
  | raw size =>
      obtain ⟨length, same⟩ := Option.ite_none_right_eq_some.mp taken
      cases same
      rw [← length]
      exact (reads_rawString contents d).answer Value.raw
  | number bits =>
      obtain ⟨short, same⟩ := Option.ite_none_right_eq_some.mp taken
      cases same
      exact (reads_digits short d).answer fun n => Value.number (n % 2 ^ bits)
  | string =>
      cases taken
      exact (reads_readContents contents d).answer
        fun chars => Value.string (if chars.length = 0 then none else some chars)
  | rawString =>
      cases taken
      exact (reads_readContents contents d).answer
        fun data => Value.rawString (if data.length = 0 then none else some data)
  | pointer =>
      obtain ⟨short, same⟩ := Option.ite_none_right_eq_some.mp taken
      cases same
      exact (reads_digits short d).answer Value.pointer

/-- Every other string is refused. -/
theorem attributeLoad_refused {type : AttrType} {R : Reader} {contents rest : Bytes}
    (refused : type.ofContents contents = none) (at_ : R.At (encodeString contents ++ rest))
    (lower : 0 ≤ R.depth) (upper : R.depth < 2 ^ 31) :
    ∃ R', attributeLoad type R = .error .failed R' := by
  unfold AttrType.ofContents at refused
  unfold attributeLoad
  generalize type.kind = kind at refused ⊢
  cases kind with
  | raw size =>
      have other : ¬ contents.length = size := fun same => by simp [same] at refused
      obtain ⟨address, read, -⟩ := readString_at at_ lower upper
      have failed : check (contents.length = size) (R.skip (encodeString contents).length) =
          .error .failed (R.skip (encodeString contents).length) := by simp [check, other]
      refine ⟨R.skip (encodeString contents).length, bind_error ?_⟩
      unfold rawString
      rw [bind_ok read]
      exact bind_error failed
  | number bits =>
      have long : ¬ contents.length ≤ 8 := fun short => by simp [short] at refused
      exact ⟨_, bind_error (readNumber_long at_ (Nat.not_le.mp long))⟩
  | string => cases refused
  | rawString => cases refused
  | pointer =>
      have long : ¬ contents.length ≤ 8 := fun short => by simp [short] at refused
      exact ⟨_, bind_error (readNumber_long at_ (Nat.not_le.mp long))⟩

/-- An attribute takes what was stored from one of its type. -/
theorem ofContents_stored {type : AttrType} {value : Value} {contents : Bytes}
    (holds : type.kind.Holds value) (stored : attributeContents type value = some contents) :
    type.ofContents contents = some value.stored := by
  have wide := @AttrType.kind_bits type
  unfold attributeContents at stored
  unfold AttrType.ofContents
  generalize type.kind = kind at holds stored wide ⊢
  cases kind <;> cases value <;> first | exact holds.elim | skip
  case raw.raw size bytes =>
    cases stored
    exact if_pos holds
  case number.number bits n =>
    cases stored
    have small : n < 2 ^ bits := holds
    have fits : n < 256 ^ 8 := small.trans_le (Nat.pow_le_pow_right (by decide) (wide rfl))
    have digits : shiftIn 0 (numberBytes n) = n := shiftIn_numberDigits fits
    simp only [length_numberBytes, if_true, digits, Nat.mod_eq_of_lt small]
    rfl
  case string.string chars =>
    cases stored
    rw [cString_eq holds]
    rcases chars with _ | _ | ⟨c, chars⟩ <;> rfl
  case rawString.rawString data =>
    rcases data with _ | _ | ⟨c, data⟩
    · cases stored
    · cases stored
      rfl
    · cases stored
      rfl
  case pointer.pointer id =>
    cases stored
    have fits : id < 256 ^ 8 := holds
    have digits : shiftIn 0 (numberBytes id) = id := shiftIn_numberDigits fits
    simp only [length_numberBytes, if_true, digits]
    rfl

/-- A value that was stored is loaded again. -/
theorem reads_attributeLoad {type : AttrType} {value : Value} {enc : Bytes}
    (holds : type.kind.Holds value) (stored : attributeBytes type value = some enc) (d : ℕ) :
    Reads d (attributeLoad type) value.stored enc := by
  obtain ⟨contents, same, rfl⟩ := attributeBytes_eq stored
  exact reads_ofContents (ofContents_stored holds same) d

/-! ## Surviving the disk -/

/-- How many bytes a value occupies behind its pointer, or in the attribute itself. -/
def Value.length : Value → ℕ
  | .raw bytes => bytes.length
  | .string chars => (chars.getD []).length
  | .rawString data => (data.getD []).length
  | .number _ | .pointer _ => 8

/-- Storing the value does not fail, and loading what was stored takes all of it and gives
the value back; null and empty strings count as the same. -/
def SurvivesDisk (type : AttrType) (value : Value) : Prop :=
  ∀ (W : Writer) (out body : Bytes), W.Holds out body →
    ∃ W' enc, attributeStore W type value = some W' ∧ W'.Holds out (body ++ enc) ∧
      Reads 0 (attributeLoad type) value.stored enc

theorem length_encodeString_le {contents : Bytes} (fits : contents.length + stString < 2 ^ 64) :
    (encodeString contents).length ≤ contents.length + 9 := by
  obtain ⟨first, tail, code, -, short, -, -⟩ := writeNumberCode_spec _ fits
  rw [encodeString, code, List.length_append, List.length_cons]
  omega

/-- The code of a value adds at most nine bytes. -/
theorem length_attributeBytes_le {type : AttrType} {value : Value} {enc : Bytes}
    (stored : attributeBytes type value = some enc) (memory : value.length < 2 ^ 63) :
    enc.length ≤ value.length + 9 := by
  have way := stores_of_attributeBytes stored
  have string (contents : Bytes) (short : contents.length < 2 ^ 63) :
      (encodeString contents).length ≤ contents.length + 9 :=
    length_encodeString_le (by simp only [stString]; omega)
  have number (n : ℕ) : (encodeNumber n).length ≤ 8 + 9 := by
    have digits := length_numberBytes n
    rw [encodeNumber_eq]
    exact (string _ (by omega)).trans (by omega)
  generalize type.kind = kind at way
  cases way with
  | raw size bytes => exact string bytes memory
  | number bits n => exact number n
  | string chars =>
      have shorter : (cString chars).length ≤ (chars.getD []).length :=
        (List.takeWhile_sublist _).length_le
      have memory : (chars.getD []).length < 2 ^ 63 := memory
      exact (string _ (by omega)).trans (Nat.add_le_add_right shorter 9)
  | rawString data => exact string data memory
  | pointer id => exact number id

/-- A value has bytes to store unless it is the null `RawString`. -/
theorem attributeBytes_isSome {type : AttrType} {value : Value} (holds : type.kind.Holds value)
    (present : value ≠ .rawString none) : ∃ enc, attributeBytes type value = some enc := by
  unfold attributeBytes
  generalize type.kind = kind at holds ⊢
  cases kind <;> cases value <;> first | exact holds.elim | skip
  case rawString.rawString data =>
    cases data with
    | none => exact absurd rfl present
    | some data => exact ⟨_, rfl⟩
  all_goals exact ⟨_, rfl⟩

/-- Every value survives except the null `RawString`, which is dereferenced. -/
theorem survives_iff {type : AttrType} {value : Value} (holds : type.kind.Holds value)
    (memory : value.length < 2 ^ 63) : SurvivesDisk type value ↔ value ≠ .rawString none := by
  constructor
  · rintro survives rfl
    obtain ⟨W, enc, stored, -⟩ := survives _ _ _ Writer.init_holds
    unfold attributeStore at stored
    generalize type.kind = kind at stored
    cases kind <;> cases stored
  · intro present W out body before
    obtain ⟨enc, stored⟩ := attributeBytes_isSome holds present
    have short := length_attributeBytes_le stored memory
    obtain ⟨W', written, after, -⟩ := holds_attributeStore before stored (by omega)
    exact ⟨W', enc, written, after, reads_attributeLoad holds stored 0⟩

/-- A `RawString` of three bytes. -/
theorem survives_rawString : SurvivesDisk .rawString (.rawString (some [0, 1, 255])) :=
  (survives_iff (by decide) (by decide)).mpr (by decide)

/-- The value that `attribute_init` leaves in a `RawString` does not survive. -/
theorem attributeInit_not_survives :
    ¬ ∀ (type : AttrType) (value : Value), type.kind.Holds value → value.length < 2 ^ 63 →
      SurvivesDisk type value := by
  intro claim
  obtain ⟨W, enc, stored, -⟩ :=
    claim .rawString (attributeInit .rawString) (attributeInit_holds _) (by decide) _ _ _
      Writer.init_holds
  cases stored

end HybridDatabase.Database
