/-
# Written attributes

What stands in an attribute after `attribute_write` has returned true.  Numbers and pointers
are copied, and the types that point to memory of their own get a block with a copy of the
content.  `RawString` copies from the wrong place: from the pointer it is given instead of the
data behind it.
-/

import HybridDatabase.Rollback.Handle
import Mathlib.Algebra.Order.BigOperators.Group.List

namespace HybridDatabase.Rollback

open HybridDatabase.Storage HybridDatabase.Database HybridDatabase.Utils

/-! ## Reading what was written -/

namespace Contents

variable {m m' : Contents} {address size other : ℕ} {bytes : Bytes}

theorem getElem_read {i : ℕ} (inside : i < size) :
    (m.read address size)[i]? = some (m (address + i)) := by
  rw [read, List.getElem?_map, List.getElem?_range inside]
  rfl

theorem read_succ (m : Contents) (address size : ℕ) :
    m.read address (size + 1) = m address :: m.read (address + 1) size := by
  rw [read, read, List.range_succ_eq_map, List.map_cons, List.map_map]
  refine congrArg _ (List.map_congr_left fun i _ => ?_)
  rw [Nat.add_right_comm]
  rfl

/-- Equal bytes, address by address. -/
theorem read_eq_iff : m.read address size = m'.read other size ↔
    ∀ i < size, m (address + i) = m' (other + i) := by
  constructor
  · intro same i inside
    have at_ := congrArg (·[i]?) same
    simp only [getElem_read inside] at at_
    exact Option.some.inj at_
  · exact fun same => List.map_congr_left fun i inside => same i (List.mem_range.mp inside)

theorem write_inside {i : ℕ} (inside : i < bytes.length) :
    m.write address bytes (address + i) = bytes[i] := by
  rw [write, if_pos ⟨Nat.le_add_right _ _, Nat.add_lt_add_left inside _⟩, Nat.add_sub_cancel_left,
    List.getD_eq_getElem _ _ inside]

theorem read_write_self : (m.write address bytes).read address bytes.length = bytes := by
  refine List.ext_getElem (length_read _ _ _) fun i _ inside => ?_
  have at_ : ((m.write address bytes).read address bytes.length)[i]? = _ := getElem_read inside
  rw [write_inside inside] at at_
  exact (List.getElem?_eq_some_iff.mp at_).2

theorem read_write_apart (apart : address + size ≤ other ∨ other + bytes.length ≤ address) :
    (m.write other bytes).read address size = m.read address size :=
  read_eq_iff.mpr fun i inside => write_outside (by omega)

end Contents

/-! ## Strings of C -/

/-- A string that ends with a zero. -/
structure CString (m : Contents) (address : ℕ) (chars : Bytes) : Prop where
  text : m.read address chars.length = chars
  nonzero : ∀ c ∈ chars, c ≠ 0
  stop : m (address + chars.length) = 0

theorem CString.tail {m : Contents} {address : ℕ} {c : UInt8} {chars : Bytes}
    (string : CString m address (c :: chars)) : m address ≠ 0 ∧ CString m (address + 1) chars := by
  have text := string.text
  rw [List.length_cons, Contents.read_succ] at text
  obtain ⟨first, rest⟩ := List.cons.inj text
  refine ⟨first ▸ string.nonzero c List.mem_cons_self, rest, fun c' inside =>
    string.nonzero c' (List.mem_cons_of_mem c inside), ?_⟩
  have stop := string.stop
  rwa [List.length_cons, Nat.add_comm chars.length 1, ← Nat.add_assoc] at stop

theorem strlen_of_string {m : Contents} {address space : ℕ} {chars : Bytes}
    (string : CString m address chars) (room : chars.length < space) :
    State.strlen m space address = chars.length := by
  induction chars generalizing address space with
  | nil =>
      obtain ⟨space, rfl⟩ := Nat.exists_eq_add_one.mpr (Nat.lt_of_le_of_lt (Nat.zero_le _) room)
      exact if_pos string.stop
  | cons c chars ih =>
      obtain ⟨space, rfl⟩ := Nat.exists_eq_add_one.mpr (Nat.lt_of_le_of_lt (Nat.zero_le _) room)
      obtain ⟨nonzero, rest⟩ := string.tail
      rw [State.strlen, if_neg nonzero, ih rest (Nat.lt_of_succ_lt_succ room)]
      rfl

/-- A copy with the terminating zero. -/
theorem CString.copy {m m' : Contents} {address other : ℕ} {chars : Bytes}
    (string : CString m address chars)
    (same : m'.read other (chars.length + 1) = m.read address (chars.length + 1)) :
    CString m' other chars := by
  have bytes := Contents.read_eq_iff.mp same
  refine ⟨?_, string.nonzero, (bytes _ (Nat.lt_succ_self _)).trans string.stop⟩
  exact (Contents.read_eq_iff.mpr fun i inside => bytes i (Nat.lt_succ_of_lt inside)).trans
    string.text

/-! ## Calls of `attribute_write` -/

/-- The addresses of an object all have a property. -/
def Within (P : ℕ → Prop) (address size : ℕ) : Prop :=
  ∀ x, address ≤ x → x < address + size → P x

namespace State

variable {source : PageAlloc} {s t : State} {type : AttrType} {attr value p : ℕ}

/-- The bytes that the content of a string takes. -/
def contentLength (s : State) (type : AttrType) (value : ℕ) : ℕ :=
  match type.kind with
  | .string => strlen s.memory.contents (2 ^ 64) (s.loadWord value) + 1
  | .rawString => 8 + s.loadWord (s.loadWord value)
  | _ => 0

/-- The type points to memory of its own. -/
def OwnsMemory (type : AttrType) : Prop := type.kind = .string ∨ type.kind = .rawString

/-- A call of `attribute_write`.  `taken` is the memory in use, by the database or anybody
else: the attribute, the argument and the string it points to.  `malloc` returns other memory.
A string is one of C, or lies in the address space with its length; a `Pointer` gets a node,
and its argument does not lie in the `ref_count` of one. -/
structure Called (s : State) (taken : ℕ → Prop) (type : AttrType) (attr value p : ℕ) : Prop where
  target : Within taken attr (attributeSize type)
  argument : Within taken value (attributeSize type)
  string : type.kind = .string → s.loadWord value ≠ 0 → ∃ chars,
    CString s.memory.contents (s.loadWord value) chars ∧
      s.loadWord value + (chars.length + 1) ≤ 2 ^ 64
  content : OwnsMemory type → s.loadWord value ≠ 0 →
    Within taken (s.loadWord value) (s.contentLength type value)
  block : OwnsMemory type → 0 < p ∧ p + max (s.contentLength type value) 16 ≤ 2 ^ 64 ∧
    Within (fun x => ¬ taken x) p (max (s.contentLength type value) 16)
  counts : type.kind = .pointer → ∀ node ∈ [s.loadWord attr, s.loadWord value],
    node + 8 ≤ value ∨ value + 8 ≤ node

/-- The attribute holds what the argument held. -/
def SameContent (s t : State) (type : AttrType) (attr value : ℕ) : Prop :=
  match type.kind with
  | .string =>
      (s.loadWord value = 0 ∧ t.loadWord attr = 0) ∨
      (s.loadWord value ≠ 0 ∧ t.loadWord attr ≠ 0 ∧ ∃ chars,
        CString s.memory.contents (s.loadWord value) chars ∧
        CString t.memory.contents (t.loadWord attr) chars)
  | .rawString =>
      (s.loadWord value = 0 ∧ t.loadWord attr = 0) ∨
      (s.loadWord value ≠ 0 ∧ t.loadWord attr ≠ 0 ∧
        t.loadWord (t.loadWord attr) = s.loadWord (s.loadWord value) ∧
        t.load (t.loadWord attr + 8) (s.loadWord (s.loadWord value)) =
          s.load (s.loadWord value + 8) (s.loadWord (s.loadWord value)))
  | _ => t.load attr (attributeSize type) = s.load value (attributeSize type)

/-- The content lies in a block that is long enough, apart from the argument and what it
points to. -/
structure OwnCopy (s t : State) (type : AttrType) (attr value : ℕ) : Prop where
  long : ∃ size, t.memory.blocks (t.loadWord attr) = some size ∧
    s.contentLength type value ≤ size
  apart : Within (fun x => ¬ (value ≤ x ∧ x < value + 8) ∧
      ¬ (s.loadWord value ≤ x ∧ x < s.loadWord value + s.contentLength type value))
    (t.loadWord attr) (s.contentLength type value)

/-- A written attribute reads back.  Nothing is copied when an attribute is written to
itself. -/
structure ReadsBack (s t : State) (type : AttrType) (attr value : ℕ) : Prop where
  content : SameContent s t type attr value
  own : OwnsMemory type → attr ≠ value → s.loadWord value ≠ 0 → OwnCopy s t type attr value

/-- For a `RawString`: nothing is copied, or what is copied happens to be the same. -/
def Copied (s : State) (type : AttrType) (attr value : ℕ) : Prop :=
  type.kind = .rawString → attr = value ∨ s.loadWord value = 0 ∨
    s.load value (8 + s.loadWord (s.loadWord value)) =
      s.load (s.loadWord value) (8 + s.loadWord (s.loadWord value))

/-! ## What is written -/

theorem andThen_eq_true {first second : Op} :
    first.andThen second s = some (true, t) ↔
      ∃ u, first s = some (true, u) ∧ second u = some (true, t) := by
  constructor
  · intro returned
    obtain ⟨⟨ok, u⟩, one, two⟩ := Option.bind_eq_some_iff.mp returned
    cases ok with
    | true => exact ⟨u, one, two⟩
    | false => cases two
  · rintro ⟨u, one, two⟩
    exact Option.bind_eq_some_iff.mpr ⟨(true, u), one, two⟩

/-- A word that has been stored. -/
theorem loadWord_store {n : ℕ} (small : n < 2 ^ 64) :
    (s.store attr (wordBytes n)).loadWord attr = n := by
  have same : (s.memory.contents.write attr (wordBytes n)).read attr (wordBytes n).length = _ :=
    Contents.read_write_self
  rw [length_wordBytes] at same
  show ofWord ((s.memory.contents.write attr (wordBytes n)).read attr 8) = n
  rw [same, ofWord_wordBytes small]

/-- A block with a copy of some bytes. -/
theorem attributeWriteBlock_copy {length address : State → ℕ} (other : attr ≠ value)
    (real : s.loadWord value ≠ 0)
    (same : length (s.trMemoryFree source (s.loadWord attr)) = length s ∧
      address (s.trMemoryFree source (s.loadWord attr)) = address s)
    (small : p < 2 ^ 64)
    (apart : ∀ x, p ≤ x → x < p + length s → x < attr ∨ attr + 8 ≤ x) :
    let t := s.attributeWriteBlock source attr value p length address
    t.loadWord attr = p ∧ t.load p (length s) = s.load (address s) (length s) ∧
      t.memory.blocks p = some (max (length s) 16) := by
  intro t
  have written : t = (((s.trMemoryFree source (s.loadWord attr)).trMemoryAlloc source p
      (length s)).store p (s.load (address s) (length s))).store attr (wordBytes p) := by
    have real' : (s.trMemoryFree source (s.loadWord attr)).loadWord value ≠ 0 := real
    simp only [t, attributeWriteBlock, if_neg other, if_neg real', same.1, same.2]
    rfl
  rw [written]
  refine ⟨loadWord_store small, ?_, Function.update_self ..⟩
  have size := Contents.length_read s.memory.contents (address s) (length s)
  have copied : (s.memory.contents.write p (s.memory.contents.read (address s) (length s))).read p
      (s.memory.contents.read (address s) (length s)).length = _ := Contents.read_write_self
  rw [size] at copied
  refine Eq.trans (Contents.read_eq_iff.mpr fun i inside => ?_) copied
  have place := apart (p + i) (Nat.le_add_right p i) (Nat.add_lt_add_left inside p)
  exact Contents.write_outside (by rw [length_wordBytes]; omega)

/-- Null is written. -/
theorem attributeWriteBlock_null {length address : State → ℕ} (other : attr ≠ value)
    (null : s.loadWord value = 0) :
    (s.attributeWriteBlock source attr value p length address).loadWord attr = 0 := by
  have null' : (s.trMemoryFree source (s.loadWord attr)).loadWord value = 0 := null
  simp only [attributeWriteBlock, if_neg other, if_pos null']
  exact loadWord_store (by decide)

/-- `attr->value = *value`. -/
theorem load_assign : (s.assign type attr value).load attr (attributeSize type) =
    s.load value (attributeSize type) := by
  have same : (s.memory.contents.write attr (s.load value (attributeSize type))).read attr
    (s.load value (attributeSize type)).length = _ := Contents.read_write_self
  rwa [State.load, Contents.length_read] at same

/-- `util_lock` leaves memory alone. -/
theorem memory_utilLock {object : ℕ} {ok : Bool} (returned : utilLock object s = some (ok, t)) :
    t.memory = s.memory := by
  simp only [utilLock] at returned
  split at returned
  · split at returned
    · rw [← (Prod.mk.inj (Option.some.inj returned)).2]
    · rw [← (Prod.mk.inj (Option.some.inj returned)).2]
  · rw [← (Prod.mk.inj (Option.some.inj returned)).2]

/-- A change of a `ref_count` leaves what lies apart from it. -/
theorem load_setRefCount {node refCount size : ℕ}
    (apart : node + 8 ≤ value ∨ value + size ≤ node)
    (returned : setRefCount source node refCount s = some (true, t)) :
    t.load value size = s.load value size := by
  rw [← (Prod.mk.inj (Option.some.inj returned)).2]
  apply Contents.read_write_apart
  rw [length_wordBytes]
  omega

theorem load_nodeRefCountIncrease {node size : ℕ} (apart : node + 8 ≤ value ∨ value + size ≤ node)
    (returned : nodeRefCountIncrease source node s = some (true, t)) :
    t.load value size = s.load value size := by
  unfold nodeRefCountIncrease at returned
  split at returned
  · cases returned
  · obtain ⟨u, locked, changed⟩ := andThen_eq_true.mp returned
    rw [load_setRefCount apart changed, load, memory_utilLock locked, load]

theorem load_nodeRefCountDecrease {node size : ℕ} (apart : node + 8 ≤ value ∨ value + size ≤ node)
    (returned : nodeRefCountDecrease source node s = some (true, t)) :
    t.load value size = s.load value size := by
  unfold nodeRefCountDecrease at returned
  split at returned
  · cases returned
  · obtain ⟨u, locked, changed⟩ := andThen_eq_true.mp returned
    split at changed
    · rw [load_setRefCount apart changed, load, memory_utilLock locked, load]
    · cases changed

/-- A pointer is copied. -/
theorem load_attributeWritePointer
    (counts : ∀ node ∈ [s.loadWord attr, s.loadWord value],
      node + 8 ≤ value ∨ value + 8 ≤ node)
    (returned : attributeWritePointer source attr value s = some (true, t)) :
    t.load attr 8 = s.load value 8 := by
  unfold attributeWritePointer at returned
  obtain ⟨u, dropped, rest⟩ := andThen_eq_true.mp returned
  obtain ⟨w, taken, assigned⟩ := andThen_eq_true.mp rest
  have first : u.load value 8 = s.load value 8 := by
    split at dropped
    · rw [← (Prod.mk.inj (Option.some.inj dropped)).2]
    · exact load_nodeRefCountDecrease (counts _ (by simp)) dropped
  have target : u.loadWord value = s.loadWord value := congrArg ofWord first
  have second : w.load value 8 = u.load value 8 :=
    load_nodeRefCountIncrease (counts _ (by rw [target]; simp)) taken
  rw [← (Prod.mk.inj (Option.some.inj assigned)).2]
  have copied : (w.assign .pointer attr value).load attr 8 = w.load value 8 := load_assign
  exact copied.trans (second.trans first)

/-! ## What reads back -/

/-- Two words of memory are the same exactly when their bytes are. -/
theorem loadWord_eq_iff : t.loadWord attr = s.loadWord value ↔ t.load attr 8 = s.load value 8 := by
  refine ⟨fun same => ?_, congrArg ofWord⟩
  have bytes := congrArg wordBytes same
  rwa [loadWord, loadWord, load, load, wordBytes_ofWord (Contents.length_read _ _ _),
    wordBytes_ofWord (Contents.length_read _ _ _)] at bytes

/-- A `RawString` is the same exactly when all its bytes are. -/
theorem rawString_eq_iff {a b : ℕ} :
    (t.loadWord a = s.loadWord b ∧
        t.load (a + 8) (s.loadWord b) = s.load (b + 8) (s.loadWord b)) ↔
      t.load a (8 + s.loadWord b) = s.load b (8 + s.loadWord b) := by
  rw [loadWord_eq_iff]
  simp only [load, Contents.read_eq_iff]
  constructor
  · rintro ⟨length, data⟩ i inside
    by_cases head : i < 8
    · exact length i head
    · have at_ := data (i - 8) (by omega)
      rwa [Nat.add_assoc, Nat.add_assoc, Nat.add_sub_cancel' (by omega)] at at_
  · intro same
    refine ⟨fun i inside => same i (by omega), fun i inside => ?_⟩
    rw [Nat.add_assoc, Nat.add_assoc]
    exact same (8 + i) (by omega)

/-- A block that is allocated lies apart from the attribute. -/
theorem Called.apart {taken : ℕ → Prop} (called : Called s taken type attr value p)
    (owns : OwnsMemory type) (x : ℕ) (low : p ≤ x) (high : x < p + s.contentLength type value) :
    x < attr ∨ attr + 8 ≤ x := by
  have size : attributeSize type = 8 := by
    rcases owns with kind | kind <;> rw [attributeSize, kind]
  by_contra inside
  refine (called.block owns).2.2 x low (by omega) (called.target x (by omega) ?_)
  rw [size]
  omega

/-- The block of a content that has been copied. -/
theorem Called.ownCopy {taken : ℕ → Prop} (called : Called s taken type attr value p)
    (owns : OwnsMemory type) (real : s.loadWord value ≠ 0) (at_ : t.loadWord attr = p)
    (block : t.memory.blocks p = some (max (s.contentLength type value) 16)) :
    OwnCopy s t type attr value := by
  have size : attributeSize type = 8 := by
    rcases owns with kind | kind <;> rw [attributeSize, kind]
  constructor
  · exact ⟨_, at_.symm ▸ block, Nat.le_max_left _ _⟩
  · intro x low high
    rw [at_] at low high
    have free := (called.block owns).2.2 x low (by omega)
    refine ⟨fun inside => free (called.argument x inside.1 ?_), fun inside => free ?_⟩
    · rw [size]
      exact inside.2
    · exact called.content owns real x inside.1 inside.2

/-- A type without memory of its own. -/
theorem readsBack_plain (plain : ¬ OwnsMemory type)
    (content : t.load attr (attributeSize type) = s.load value (attributeSize type)) :
    ReadsBack s t type attr value ↔ Copied s type attr value := by
  refine ⟨fun _ kind => absurd (Or.inr kind) plain, fun _ => ⟨?_, fun owns => absurd owns plain⟩⟩
  unfold SameContent
  cases kind : type.kind with
  | string => exact absurd (Or.inl kind) plain
  | rawString => exact absurd (Or.inr kind) plain
  | raw size | number bits | pointer => exact content

/-- What `attribute_write_String` leaves. -/
theorem readsBack_string {taken : ℕ → Prop} (called : Called s taken type attr value p)
    (kind : type.kind = .string) :
    ReadsBack s (s.attributeWriteString source attr value p) type attr value := by
  by_cases other : attr = value
  · have same : s.attributeWriteString source attr value p = s := if_pos other
    rw [same, ← other]
    refine ⟨?_, fun _ different => absurd rfl different⟩
    simp only [SameContent, kind]
    by_cases null : s.loadWord attr = 0
    · exact .inl ⟨null, null⟩
    · obtain ⟨chars, string, -⟩ := called.string kind (other ▸ null)
      exact .inr ⟨null, null, chars, other ▸ string, other ▸ string⟩
  by_cases null : s.loadWord value = 0
  · refine ⟨?_, fun _ _ real => absurd null real⟩
    simp only [SameContent, kind]
    exact .inl ⟨null, attributeWriteBlock_null other null⟩
  · have owns : OwnsMemory type := .inl kind
    have length : s.contentLength type value =
        strlen s.memory.contents (2 ^ 64) (s.loadWord value) + 1 := by rw [contentLength, kind]
    obtain ⟨positive, fits, -⟩ := called.block owns
    set t := s.attributeWriteString source attr value p with written
    have copy : t.loadWord attr = p ∧
        t.load p (strlen s.memory.contents (2 ^ 64) (s.loadWord value) + 1) =
          s.load (s.loadWord value) (strlen s.memory.contents (2 ^ 64) (s.loadWord value) + 1) ∧
        t.memory.blocks p =
          some (max (strlen s.memory.contents (2 ^ 64) (s.loadWord value) + 1) 16) :=
      attributeWriteBlock_copy other null ⟨rfl, rfl⟩ (by omega) (length ▸ called.apart owns)
    obtain ⟨at_, bytes, block⟩ := copy
    refine ⟨?_, fun _ _ _ => called.ownCopy owns null at_ (length ▸ block)⟩
    obtain ⟨chars, string, room⟩ := called.string kind null
    rw [strlen_of_string string (by omega)] at bytes
    simp only [SameContent, kind]
    have copied := string.copy bytes
    rw [at_]
    exact .inr ⟨null, positive.ne', chars, string, copied⟩

/-- What `attribute_write_RawString` leaves. -/
theorem readsBack_rawString_iff {taken : ℕ → Prop} (called : Called s taken type attr value p)
    (kind : type.kind = .rawString) :
    ReadsBack s (s.attributeWriteRawString source attr value p) type attr value ↔
      Copied s type attr value := by
  by_cases other : attr = value
  · have same : s.attributeWriteRawString source attr value p = s := if_pos other
    rw [same, ← other]
    refine iff_of_true ⟨?_, fun _ different => absurd rfl different⟩ fun _ => .inl rfl
    simp only [SameContent, kind]
    by_cases null : s.loadWord attr = 0
    · exact .inl ⟨null, null⟩
    · exact .inr ⟨null, null, trivial, trivial⟩
  by_cases null : s.loadWord value = 0
  · refine iff_of_true ⟨?_, fun _ _ real => absurd null real⟩ fun _ => .inr (.inl null)
    simp only [SameContent, kind]
    exact .inl ⟨null, attributeWriteBlock_null other null⟩
  · have owns : OwnsMemory type := .inr kind
    have length : s.contentLength type value = 8 + s.loadWord (s.loadWord value) := by
      rw [contentLength, kind]
    obtain ⟨positive, fits, -⟩ := called.block owns
    set t := s.attributeWriteRawString source attr value p with written
    have copy : t.loadWord attr = p ∧
        t.load p (8 + s.loadWord (s.loadWord value)) =
          s.load value (8 + s.loadWord (s.loadWord value)) ∧
        t.memory.blocks p = some (max (8 + s.loadWord (s.loadWord value)) 16) :=
      attributeWriteBlock_copy other null ⟨rfl, rfl⟩ (by omega) (length ▸ called.apart owns)
    obtain ⟨at_, bytes, block⟩ := copy
    have content : SameContent s t type attr value ↔
        s.load value (8 + s.loadWord (s.loadWord value)) =
          s.load (s.loadWord value) (8 + s.loadWord (s.loadWord value)) := by
      simp only [SameContent, kind, rawString_eq_iff]
      rw [at_, bytes]
      exact ⟨fun same => same.elim (fun zero => absurd zero.1 null) fun same => same.2.2,
        fun same => .inr ⟨null, positive.ne', same⟩⟩
    constructor
    · exact fun back _ => .inr (.inr (content.mp back.content))
    · intro copied
      have same := ((copied kind).resolve_left other).resolve_left null
      exact ⟨content.mpr same, fun _ _ _ => called.ownCopy owns null at_ (length ▸ block)⟩

/-- A written attribute reads back exactly when its type is not `RawString`, or nothing is
copied, or the bytes at the argument are those of its content. -/
theorem readsBack_iff {taken : ℕ → Prop} (called : Called s taken type attr value p)
    (returned : attributeWrite source type attr value p s = some (true, t)) :
    ReadsBack s t type attr value ↔ Copied s type attr value := by
  unfold attributeWrite at returned
  cases kind : type.kind with
  | raw size =>
      rw [kind] at returned
      apply readsBack_plain (by simp [OwnsMemory, kind])
      rw [← (Prod.mk.inj (Option.some.inj returned)).2]
      exact load_assign
  | number bits =>
      rw [kind] at returned
      apply readsBack_plain (by simp [OwnsMemory, kind])
      rw [← (Prod.mk.inj (Option.some.inj returned)).2]
      exact load_assign
  | string =>
      rw [kind] at returned
      rw [← (Prod.mk.inj (Option.some.inj returned)).2]
      exact iff_of_true (readsBack_string called kind) fun raw => nomatch kind.symm.trans raw
  | rawString =>
      rw [kind] at returned
      rw [← (Prod.mk.inj (Option.some.inj returned)).2]
      exact readsBack_rawString_iff called kind
  | pointer =>
      rw [kind] at returned
      apply readsBack_plain (by simp [OwnsMemory, kind])
      rw [attributeSize, kind]
      exact load_attributeWritePointer (called.counts kind) returned

/-! ## One call -/

/-- Nothing in memory. -/
def blank : State where
  memory := ⟨fun _ => 0, fun _ => none, fun _ => none⟩
  locks _ := 1
  handle := {
    address := 0
    startTime := 1
    readSet := []
    transactions := .init transactionsBlockSize
    log := .init logBlockSize
    commitType := .async
    acquiredLocks := [] }

/-- Pages that are not used. -/
def nextPage : PageAlloc where
  page pages := pages.sum + 1
  fresh _ inside := Nat.not_succ_le_self _ (List.le_sum_of_mem inside)

/-- A pointer at 1000 leads to some bytes at 2000. -/
def pointing (bytes : Bytes) : State := (blank.store 2000 bytes).store 1000 (wordBytes 2000)

theorem loadWord_pointing (bytes : Bytes) : (pointing bytes).loadWord 1000 = 2000 :=
  loadWord_store (by decide)

theorem load_pointing (bytes : Bytes) : (pointing bytes).load 2000 bytes.length = bytes := by
  have kept : (pointing bytes).load 2000 bytes.length =
      (blank.store 2000 bytes).load 2000 bytes.length :=
    Contents.read_write_apart (by rw [length_wordBytes]; omega)
  exact kept.trans Contents.read_write_self

/-- A string of three characters. -/
def text : Bytes := [97, 98, 99]

theorem cString_pointing : CString (pointing (text ++ [0])).memory.contents 2000 text := by
  have bytes := load_pointing (text ++ [0])
  refine ⟨?_, by simp [text], ?_⟩
  · exact congrArg (List.take 3) bytes
  · have last := congrArg (·[3]?) bytes
    exact Option.some.inj last

/-- The call that writes it to an attribute at 3000. -/
theorem called_string :
    Called (pointing (text ++ [0])) (· < 4096) .string 3000 1000 8192 := by
  have length : (pointing (text ++ [0])).contentLength .string 1000 = 4 := by
    have strlen := strlen_of_string cString_pointing (by decide : text.length < 2 ^ 64)
    rw [← loadWord_pointing (text ++ [0])] at strlen
    exact congrArg (· + 1) strlen
  constructor
  · exact fun x _ high => Nat.lt_trans high (by decide)
  · exact fun x _ high => Nat.lt_trans high (by decide)
  · rintro - -
    rw [loadWord_pointing]
    exact ⟨text, cString_pointing, by decide⟩
  · rintro - -
    rw [loadWord_pointing, length]
    exact fun x _ high => Nat.lt_trans high (by decide)
  · rintro -
    rw [length]
    refine ⟨by decide, by decide, fun x low _ high => ?_⟩
    exact absurd (Nat.lt_of_le_of_lt low high) (by decide)
  · rintro ⟨⟩

/-- The string reads back. -/
theorem readsBack_text : ReadsBack (pointing (text ++ [0]))
    ((pointing (text ++ [0])).attributeWriteString nextPage 3000 1000 8192) .string 3000 1000 :=
  (readsBack_iff called_string rfl).mpr fun raw => nomatch raw

/-- A `RawString` of one byte. -/
def rawText : Bytes := wordBytes 1 ++ [7]

theorem loadWord_rawText : (pointing rawText).loadWord 2000 = 1 :=
  congrArg (fun bytes : Bytes => ofWord (bytes.take 8)) (load_pointing rawText)

/-- The call that writes it to an attribute at 3000. -/
theorem called_rawString : Called (pointing rawText) (· < 4096) .rawString 3000 1000 8192 := by
  have length : (pointing rawText).contentLength .rawString 1000 = 9 := by
    show 8 + (pointing rawText).loadWord ((pointing rawText).loadWord 1000) = 9
    rw [loadWord_pointing, loadWord_rawText]
  constructor
  · exact fun x _ high => Nat.lt_trans high (by decide)
  · exact fun x _ high => Nat.lt_trans high (by decide)
  · rintro ⟨⟩
  · rintro - -
    rw [loadWord_pointing, length]
    exact fun x _ high => Nat.lt_trans high (by decide)
  · rintro -
    rw [length]
    refine ⟨by decide, by decide, fun x low _ high => ?_⟩
    exact absurd (Nat.lt_of_le_of_lt low high) (by decide)
  · rintro ⟨⟩

/-- The pointer is copied where the `RawString` should be. -/
theorem not_readsBack_rawText : ¬ ∀ (source : PageAlloc) (s t : State) (taken : ℕ → Prop)
    (type : AttrType) (attr value p : ℕ), Called s taken type attr value p →
    attributeWrite source type attr value p s = some (true, t) →
    ReadsBack s t type attr value := by
  intro always
  have back := always nextPage _ _ _ .rawString 3000 1000 8192 called_rawString rfl
  have copied := (readsBack_rawString_iff called_rawString rfl).mp back rfl
  rw [loadWord_pointing] at copied
  have same := (copied.resolve_left (by decide)).resolve_left (by decide)
  rw [loadWord_rawText] at same
  have words := congrArg (fun bytes : Bytes => ofWord (bytes.take 8)) same
  have pointer : (pointing rawText).loadWord 1000 = (pointing rawText).loadWord 2000 := words
  rw [loadWord_pointing, loadWord_rawText] at pointer
  exact absurd pointer (by decide)

end State

end HybridDatabase.Rollback
