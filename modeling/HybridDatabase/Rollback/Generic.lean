/-
# The generic attribute interface

`tr_node_read` and `tr_node_write` do at run time what the macros `trRead_` and `trWrite_` do
with the types that the compiler knows.  Behind their assertions they agree with the macros;
but the assertions hold for the indexes that no attribute has, and fail for the others.
-/

import HybridDatabase.Rollback.ReadBack

namespace HybridDatabase.Rollback

open HybridDatabase.Storage HybridDatabase.Database HybridDatabase.Utils

namespace State

variable {T : DatabaseType} (L : NodeLayout T) (source : PageAlloc)

/-! ## The macros -/

/-- `attributeIsPrimitive`: the type has no `Write` block. -/
def attributeIsPrimitive (type : AttrType) : Bool :=
  match type.kind with
  | .raw _ | .number _ => true
  | .string | .rawString | .pointer => false

/-- `trInternalWrite_` to an attribute of a node; `value` is the address of `__value`. -/
def trInternalWrite (node type index : ℕ) (a : NodeAttribute) (value p : ℕ) : Op := fun s =>
  let place := node + L.offset type index
  let item := LogItem.ofAttribute s.memory.contents node index (L.offset type index) a.type
  if attributeIsPrimitive a.type then
    let new := s.load value (attributeSize a.type)
    some (true, (s.store place new).push source (item.copyNew new))
  else
    (attributeWrite source a.type place value p s).map fun (ok, s) =>
      (ok, s.push source (item.copyNew (s.load place (attributeSize a.type))))

/-- `trWrite_`; false is `trFail`. -/
def trWrite (node type index : ℕ) (a : NodeAttribute) (value p : ℕ) : Op :=
  (utilLock node).andThen (trInternalWrite L source node type index a value p)

/-- `trRead_`; without a value it is `trFail`. -/
def trRead (s : State) (node type index : ℕ) (a : NodeAttribute) : Option Bytes × State :=
  let s := s.readSetAddNode node
  let value := s.load (node + L.offset type index) (attributeSize a.type)
  (if s.lCheck node then some value else none, s)

/-! ## The functions -/

/-- What `tr_node_read` does behind its assertion. -/
def trNodeReadAttribute (node type index : ℕ) (a : NodeAttribute) (buffer : ℕ) : Op := fun s =>
  let s := s.readSetAddNode node
  let s := s.store buffer (s.load (node + L.offset type index) (attributeSize a.type))
  some (s.lCheck node, s)

/-- What `tr_node_write` does behind its assertion. -/
def trNodeWriteAttribute (node type index : ℕ) (a : NodeAttribute) (value p : ℕ) : Op := fun s =>
  let place := node + L.offset type index
  let item := LogItem.ofAttribute s.memory.contents node index (L.offset type index) a.type
  ((utilLock node).andThen
    ((attributeWrite source a.type place value p).andThen
      (Op.change fun s =>
        s.push source (item.copyNew (s.load place (attributeSize a.type)))))) s

/-- `attributes_count`. -/
def attributesCount (T : DatabaseType) (type : ℕ) : ℤ :=
  (T.nodeTypes[type]?).elim 0 fun nodeType => nodeType.attributes.length

/-- The assertion of both functions, and their look into the table of attributes, which has
nothing in front of its begin and behind its end. -/
def withAttribute (node : ℕ) (attr : ℤ) (body : ℕ → ℕ → NodeAttribute → Op) : Op := fun s =>
  (s.memory.nodes node).bind fun type =>
    if attributesCount T type ≤ attr ∨ attr < 0 then
      (if attr < 0 then none else attributeAt T type attr.toNat).bind fun a =>
        body type attr.toNat a s
    else none

/-- `tr_node_read`. -/
def trNodeRead (node : ℕ) (attr : ℤ) (buffer : ℕ) : Op :=
  withAttribute (T := T) node attr fun type index a => trNodeReadAttribute L node type index a buffer

/-- `tr_node_write`. -/
def trNodeWrite (node : ℕ) (attr : ℤ) (value p : ℕ) : Op :=
  withAttribute (T := T) node attr fun type index a =>
    trNodeWriteAttribute L source node type index a value p

/-! ## Agreement -/

/-- Two items are undone in the same way, and lead to the same record. -/
structure SameEffect (item item' : LogItem) : Prop where
  ptr : item.ptr = item'.ptr
  type : item.type = item'.type
  undo : ∀ m, LogItem.undoWrite m item = LogItem.undoWrite m item'
  index : item.index = item'.index
  attrType : item.attrType = item'.attrType
  dataNew : item.dataNew = item'.dataNew

/-- A way to write and a way to read an attribute agree with the macros: they return, succeed
exactly when the macros do, and then have done the same. -/
structure AgreesWithMacros (s : State) (node type index : ℕ) (a : NodeAttribute)
    (value p buffer : ℕ) (write read : Op) : Prop where
  written : (write s).map Prod.fst = (trWrite L source node type index a value p s).map Prod.fst
  effect : ∀ t t', write s = some (true, t) →
    trWrite L source node type index a value p s = some (true, t') →
    t.memory = t'.memory ∧ t.locks = t'.locks ∧
      t.handle.acquiredLocks = t'.handle.acquiredLocks ∧
      ∀ items items', t.handle.log.Holds logBlockSize items →
        t'.handle.log.Holds logBlockSize items' → List.Forall₂ SameEffect items items'
  checked : (read s).map Prod.fst = some (s.trRead L node type index a).1.isSome
  filled : ∀ t bytes, read s = some (true, t) → (s.trRead L node type index a).1 = some bytes →
    t.load buffer (attributeSize a.type) = bytes

/-! ## Behind the assertions -/

variable {L source} {s t : State} {node type index value p buffer : ℕ} {a : NodeAttribute}

theorem forall₂_sameEffect (items : List LogItem) : List.Forall₂ SameEffect items items :=
  List.forall₂_same.mpr fun _ _ => ⟨rfl, rfl, fun _ => rfl, rfl, rfl, rfl⟩

theorem attributeWrite_primitive {type : AttrType} (primitive : attributeIsPrimitive type = true)
    {place : ℕ} :
    attributeWrite source type place value p s = some (true, s.assign type place value) := by
  unfold attributeIsPrimitive at primitive
  unfold attributeWrite
  cases kind : type.kind with
  | raw size | number bits => rfl
  | string | rawString | pointer => rw [kind] at primitive; cases primitive

/-- A write behind the assertion does what the macro does, except that the macro has pushed an
item when it fails. -/
theorem trNodeWriteAttribute_cases :
    trNodeWriteAttribute L source node type index a value p s =
        trWrite L source node type index a value p s ∨
      ∃ u v, trNodeWriteAttribute L source node type index a value p s = some (false, u) ∧
        trWrite L source node type index a value p s = some (false, v) := by
  unfold trNodeWriteAttribute trWrite Op.andThen
  rcases locked : utilLock node s with - | ⟨ok, u⟩
  · exact .inl rfl
  cases ok with
  | false => exact .inl rfl
  | true =>
      simp only [Option.bind_some, if_true, trInternalWrite, memory_utilLock locked]
      split
      next primitive =>
          left
          rw [attributeWrite_primitive primitive]
          have copied : (u.assign a.type (node + L.offset type index) value).load
              (node + L.offset type index) (attributeSize a.type) = _ := load_assign
          simp only [Option.bind_some, if_true, Op.change, copied]
          rfl
      next pointing =>
          rcases attributeWrite source a.type (node + L.offset type index) value p u
            with - | ⟨ok, v⟩
          · exact .inl rfl
          cases ok with
          | true => exact .inl rfl
          | false => exact .inr ⟨_, _, rfl, rfl⟩

theorem trRead_fst (s : State) : (s.trRead L node type index a).1 =
    if s.lCheck node then some (s.load (node + L.offset type index) (attributeSize a.type))
    else none := rfl

/-- Behind their assertions the functions agree with the macros. -/
theorem agreesWithMacros_attribute (L : NodeLayout T) (source : PageAlloc) (s : State)
    (node type index : ℕ) (a : NodeAttribute) (value p buffer : ℕ) :
    AgreesWithMacros L source s node type index a value p buffer
      (trNodeWriteAttribute L source node type index a value p)
      (trNodeReadAttribute L node type index a buffer) := by
  constructor
  · rcases trNodeWriteAttribute_cases with same | ⟨u, v, one, two⟩
    · rw [same]
    · rw [one, two]
      rfl
  · intro t t' one two
    rcases trNodeWriteAttribute_cases with same | ⟨u, v, failed, -⟩
    · rw [same] at one
      obtain rfl : t = t' := congrArg Prod.snd (Option.some.inj (one.symm.trans two))
      exact ⟨rfl, rfl, rfl, fun items items' holds holds' =>
        holds.unique holds' ▸ forall₂_sameEffect items⟩
    · cases failed.symm.trans one
  · show some (s.lCheck node) = some _
    rw [trRead_fst]
    split
    next checked => exact congrArg some checked
    next failed => exact congrArg some (eq_false_of_ne_true failed)
  · intro t bytes returned read
    have stored : (s.readSetAddNode node).store buffer
        (s.load (node + L.offset type index) (attributeSize a.type)) = t :=
      congrArg Prod.snd (Option.some.inj returned)
    rw [trRead_fst] at read
    split at read
    · rw [← stored, ← Option.some.inj read]
      have same := @Contents.read_write_self s.memory.contents buffer
        (s.load (node + L.offset type index) (attributeSize a.type))
      rwa [load, Contents.length_read] at same
    · cases read

/-! ## The assertions -/

/-- The index of an attribute fails the assertion. -/
theorem withAttribute_valid {attr : ℤ} {body : ℕ → ℕ → NodeAttribute → Op}
    (used : s.memory.nodes node = some type) (low : 0 ≤ attr)
    (high : attr < attributesCount T type) : withAttribute (T := T) node attr body s = none := by
  rw [withAttribute, used]
  exact if_neg (by omega)

/-- For the index of an attribute the functions never agree with the macros: both fail their
assertion.  What they would do behind it agrees. -/
theorem not_agreesWithMacros {attr : ℤ} (used : s.memory.nodes node = some type) (low : 0 ≤ attr)
    (high : attr < attributesCount T type) (a : NodeAttribute) :
    trNodeWrite L source node attr value p s = none ∧ trNodeRead L node attr buffer s = none ∧
      ¬ AgreesWithMacros L source s node type attr.toNat a value p buffer
        (trNodeWrite L source node attr value p) (trNodeRead L node attr buffer) ∧
      AgreesWithMacros L source s node type attr.toNat a value p buffer
        (trNodeWriteAttribute L source node type attr.toNat a value p)
        (trNodeReadAttribute L node type attr.toNat a buffer) := by
  have failed : trNodeRead L node attr buffer s = none := withAttribute_valid used low high
  refine ⟨withAttribute_valid used low high, failed, fun agrees => ?_,
    agreesWithMacros_attribute L source s node type attr.toNat a value p buffer⟩
  have checked := agrees.checked
  rw [failed] at checked
  cases checked

/-- A node of the wide type. -/
def withNode : State :=
  { blank with memory := { blank.memory with nodes := Function.update (fun _ => none) 4096 (some 0) } }

theorem nodes_withNode : withNode.memory.nodes 4096 = some 0 := rfl

theorem attributesCount_wideType : attributesCount wideType 0 = 257 :=
  congrArg Int.ofNat List.length_replicate

theorem first_lt : (0 : ℤ) < attributesCount wideType 0 := by
  rw [attributesCount_wideType]
  decide

/-- Its first attribute can neither be read nor written. -/
theorem not_agreesWithMacros_first :
    trNodeWrite wideLayout nextPage 4096 0 1000 8192 withNode = none ∧
      trNodeRead wideLayout 4096 0 2000 withNode = none ∧
      ¬ AgreesWithMacros wideLayout nextPage withNode 4096 0 0 ⟨[], .uint8⟩ 1000 8192 2000
        (trNodeWrite wideLayout nextPage 4096 0 1000 8192) (trNodeRead wideLayout 4096 0 2000) ∧
      AgreesWithMacros wideLayout nextPage withNode 4096 0 0 ⟨[], .uint8⟩ 1000 8192 2000
        (trNodeWriteAttribute wideLayout nextPage 4096 0 0 ⟨[], .uint8⟩ 1000 8192)
        (trNodeReadAttribute wideLayout 4096 0 0 ⟨[], .uint8⟩ 2000) :=
  not_agreesWithMacros nodes_withNode (Int.le_refl 0) first_lt ⟨[], .uint8⟩

/-- The functions do not always agree with the macros. -/
theorem not_always_agreesWithMacros : ¬ ∀ (T : DatabaseType) (L : NodeLayout T)
    (source : PageAlloc) (s : State) (node type : ℕ) (attr : ℤ) (a : NodeAttribute)
    (value p buffer : ℕ), s.memory.nodes node = some type → 0 ≤ attr →
    attr < attributesCount T type → attributeAt T type attr.toNat = some a →
    AgreesWithMacros L source s node type attr.toNat a value p buffer
      (trNodeWrite L source node attr value p) (trNodeRead L node attr buffer) := by
  intro always
  have agrees := always wideType wideLayout nextPage withNode 4096 0 0 ⟨[], .uint8⟩ 1000 8192 2000
    nodes_withNode (Int.le_refl 0) first_lt (valid_wideWrite (by decide)).1
  have checked := agrees.checked
  rw [trNodeRead, withAttribute_valid nodes_withNode (Int.le_refl 0) first_lt] at checked
  cases checked

end State

end HybridDatabase.Rollback
