/-
# Loads that stay in their element

Reading one element and applying it does not look at the file behind it, except at a
footer, which is followed by another element.
-/

import HybridDatabase.Database.Load
import HybridDatabase.Storage.Local

namespace HybridDatabase.Database

open HybridDatabase.Base HybridDatabase.Storage

/-! ## Calls of a load -/

/-- The load with another file behind the element. -/
def Loading.withFile (file : Bytes) (s : Loading) : Loading :=
  { s with reader := s.reader.withFile file }

/-- The address of the buffer. -/
def Loading.base (s : Loading) : Bases := s.reader.base

/-- The load does not look at the file, and the buffer stays where it is. -/
abbrev LocalLoad {α : Type} (m : LoadM α) : Prop := Blind Loading.withFile Loading.base m

variable {T : DatabaseType}

theorem local_onReader {α : Type} {m : ReaderM α} (h : Local m) : LocalLoad (onReader m) :=
  h.onPart (fun _ _ => rfl) (fun _ _ _ => rfl) fun _ _ same => same

theorem local_onMemory (f : Memory → Memory) : LocalLoad (onMemory f) :=
  Blind.modify (fun _ _ => rfl) fun _ => rfl

theorem local_ensure (cond : Bool) : LocalLoad (ensure cond) := Blind.ite (Blind.pure _) (Blind.throw _)

theorem local_loopFuel : LocalLoad loopFuel := ⟨fun _ _ => rfl, fun _ => rfl⟩

theorem local_getDumpOn : LocalLoad getDumpOn := ⟨fun _ _ => rfl, fun _ => rfl⟩

theorem local_rewind : LocalLoad rewind :=
  local_onReader (Blind.modify (fun _ _ => rfl) fun _ => rfl)

theorem local_attempt {m : LoadM Unit} (h : LocalLoad m) : LocalLoad (attempt m) := by
  constructor
  · intro file s
    have inner := h.commutes file s
    unfold attempt
    rw [inner]
    cases m s with
    | ok a t => rfl
    | error e t => cases e <;> rfl
  · intro s
    have inner := h.keeps s
    unfold attempt
    cases run : m s with
    | ok a t =>
        rw [run] at inner
        exact inner
    | error e t =>
        rw [run] at inner
        cases e <;> exact inner

theorem local_rSkip : LocalLoad rSkip :=
  local_loopFuel.bind fun fuel => local_onReader (local_readerSkipLoop fuel 0)

theorem local_rCheckString (text : Bytes) : Local (rCheckString text) :=
  local_readString.bind fun _ => (local_check _).bind fun _ =>
    (local_fetchMany _ _).bind fun _ => local_check _

theorem local_rCheckNumber (number : ℕ) : Local (rCheckNumber number) :=
  local_readNumber.bind fun _ => local_check _

theorem local_rawString (size : ℕ) : Local (rawString size) :=
  local_readString.bind fun _ => (local_check _).bind fun _ => local_fetchMany _ _

theorem local_attributeLoad (attrType : AttrType) : Local (attributeLoad attrType) := by
  unfold attributeLoad
  cases attrType.kind with
  | raw size => exact (local_rawString size).bind fun _ => Blind.pure _
  | number bits => exact local_readNumber.bind fun _ => Blind.pure _
  | string => exact local_readContents.bind fun _ => Blind.pure _
  | rawString => exact local_readContents.bind fun _ => Blind.pure _
  | pointer => exact local_readNumber.bind fun _ => Blind.pure _

theorem local_readNodePrepare : LocalLoad (readNodePrepare T) := by
  refine (local_onReader local_readNumber).bind fun typeNr => ?_
  cases T.nodeTypes[typeNr]? with
  | none => exact Blind.throw _
  | some type =>
      refine (local_onMemory _).bind fun _ => (local_onReader local_readNumber).bind fun id =>
        (local_onMemory _).bind fun _ => Blind.get (fun _ _ => rfl) fun s => ?_
      exact Blind.ite (Blind.pure _) ((local_onMemory _).bind fun _ =>
        (local_onMemory _).bind fun _ => Blind.pure _)

theorem local_loadAttributes (id : ℕ) (attrs : List NodeAttribute) (index : ℕ) :
    LocalLoad (loadAttributes id index attrs) := by
  induction attrs generalizing index with
  | nil => exact Blind.pure _
  | cons attr attrs ih =>
      exact (local_onReader (local_attributeLoad _)).bind fun _ =>
        (local_onMemory _).bind fun _ => ih _

theorem local_readNodeLoad : LocalLoad (readNodeLoad T) := by
  refine local_readNodePrepare.bind fun prepared => ?_
  cases prepared with
  | none => exact Blind.throw _
  | some prepared => exact local_loadAttributes _ _ _

theorem local_readNodeCreate : LocalLoad (readNodeCreate T) :=
  local_readNodePrepare.bind fun _ => Blind.pure _

theorem local_readNodeDelete : LocalLoad readNodeDelete :=
  (local_onReader local_readNumber).bind fun _ => local_onMemory _

theorem local_readNodeModify : LocalLoad (readNodeModify T) := by
  refine (local_onReader local_readNumber).bind fun id =>
    (local_onReader local_readNumber).bind fun number => Blind.get (fun _ _ => rfl) fun s => ?_
  cases s.memory.nodes id with
  | none => exact local_rSkip
  | some node =>
      apply Blind.ite (Blind.throw _)
      cases attributeAt T node.type (toInt number).toNat with
      | none => exact Blind.throw _
      | some attr =>
          exact (local_onReader (local_attributeLoad _)).bind fun _ => local_onMemory _

theorem local_readEvent (event : ℕ) : LocalLoad (readEvent T event) :=
  Blind.ite local_readNodeModify <| Blind.ite local_readNodeCreate <|
    Blind.ite local_readNodeDelete (Blind.throw _)

theorem local_readRecords (fuel : ℕ) : LocalLoad (readRecords T fuel) := by
  induction fuel with
  | zero => exact Blind.throw _
  | succ fuel ih =>
      refine (local_onReader local_readerNext).bind fun kind => ?_
      have record : LocalLoad (do
          onReader readArray
          let event ← onReader readNumber
          readEvent T event
          onReader readArrayEnd
          readRecords T fuel) :=
        (local_onReader local_readArray).bind fun _ => (local_onReader local_readNumber).bind
          fun event => (local_readEvent event).bind fun _ =>
            (local_onReader local_readArrayEnd).bind fun _ => ih
      cases kind with
      | arrayEnd => exact Blind.pure _
      | arrayBegin => exact record
      | crc => exact record
      | dot => exact record
      | string => exact record
      | error => exact record

theorem local_readDump (fuel : ℕ) : LocalLoad (readDump T fuel) := by
  induction fuel with
  | zero => exact Blind.throw _
  | succ fuel ih =>
      refine (local_onReader local_readerNext).bind fun kind => ?_
      have node : LocalLoad (do
          onReader readArray
          readNodeLoad T
          onReader readArrayEnd
          readDump T fuel) :=
        (local_onReader local_readArray).bind fun _ => local_readNodeLoad.bind fun _ =>
            (local_onReader local_readArrayEnd).bind fun _ => ih
      cases kind with
      | arrayEnd => exact Blind.pure _
      | arrayBegin => exact node
      | crc => exact node
      | dot => exact node
      | string => exact node
      | error => exact node

theorem local_loadItems (firstFile : Bool) : LocalLoad (loadItems T firstFile) := by
  refine local_loopFuel.bind fun fuel => (local_onReader local_readerNext).bind fun kind => ?_
  cases kind with
  | arrayBegin => exact local_readRecords fuel
  | string =>
      refine (local_onReader (local_rCheckNumber 0)).bind fun _ => local_getDumpOn.bind fun _ =>
        (local_ensure _).bind fun _ => Blind.ite (local_readDump fuel) local_rSkip
  | arrayEnd => exact Blind.throw _
  | crc => exact Blind.throw _
  | dot => exact Blind.throw _
  | error => exact Blind.throw _

theorem local_loadArray (firstFile : Bool) : LocalLoad (loadArray T firstFile) :=
  (local_onReader local_readArray).bind fun _ => (local_loadItems firstFile).bind fun _ =>
    (local_onReader local_readArrayEnd).bind fun _ => local_onReader (local_readerFinish true)

theorem local_readDumpBegin : Local readDumpBegin :=
  (local_rCheckString _).bind fun _ => local_readerFinish false

theorem local_readDumpEnd : Local readDumpEnd :=
  (local_rCheckString _).bind fun _ => local_readerFinish false

/-! ## Elements other than footers -/

/-- A run that answers `false` did not look at the file. -/
def LocalUnlessTrue (m : LoadM Bool) : Prop :=
  ∀ s t, m s = .ok false t →
    Loading.base t = Loading.base s ∧
      ∀ file, m (Loading.withFile file s) = .ok false (Loading.withFile file t)

theorem LocalUnlessTrue.of_local {m : LoadM Bool} (h : LocalLoad m) : LocalUnlessTrue m := by
  intro s t run
  have kept := h.keeps s
  rw [run] at kept
  refine ⟨kept, fun file => ?_⟩
  rw [h.commutes file s, run]
  rfl

theorem LocalUnlessTrue.bind {α : Type} {m : LoadM α} {f : α → LoadM Bool} (hm : LocalLoad m)
    (hf : ∀ a, LocalUnlessTrue (f a)) : LocalUnlessTrue (m >>= f) := by
  intro s t run
  obtain ⟨a, u, first, second⟩ := bind_eq_ok.mp run
  have kept := hm.keeps s
  rw [first] at kept
  obtain ⟨base, others⟩ := hf a u t second
  refine ⟨base.trans kept, fun file => ?_⟩
  have moved : m (Loading.withFile file s) = .ok a (Loading.withFile file u) := by
    rw [hm.commutes file s, first]
    rfl
  rw [bind_ok moved]
  exact others file

/-- Only the footer is followed by another element. -/
theorem localUnlessTrue_loadMark : LocalUnlessTrue loadMark := by
  refine .bind (local_attempt (local_onReader local_readDumpBegin)) fun begun => ?_
  cases begun with
  | true =>
      exact .of_local <| local_getDumpOn.bind fun _ => (local_ensure _).bind fun _ =>
        (local_onMemory _).bind fun _ => Blind.pure _
  | false =>
      refine .bind local_rewind fun _ =>
        .bind (local_attempt (local_onReader local_readDumpEnd)) fun ended => ?_
      cases ended with
      | true =>
          exact .of_local <| local_getDumpOn.bind fun _ => (local_ensure _).bind fun _ =>
            (local_onMemory _).bind fun _ => Blind.pure _
      | false =>
          refine .bind local_rewind fun _ => ?_
          intro s t run
          obtain ⟨footer, u, -, rest⟩ := bind_eq_ok.mp run
          obtain ⟨_, v, -, last⟩ := bind_eq_ok.mp rest
          cases last

theorem localUnlessTrue_loadElement (firstFile : Bool) :
    LocalUnlessTrue (loadElement T firstFile) := by
  refine .bind (local_onReader local_readerNext) fun kind => ?_
  cases kind with
  | arrayBegin => exact .of_local <| (local_loadArray firstFile).bind fun _ => Blind.pure _
  | string => exact localUnlessTrue_loadMark
  | arrayEnd => exact .of_local (Blind.throw _)
  | crc => exact .of_local (Blind.throw _)
  | dot => exact .of_local (Blind.throw _)
  | error => exact .of_local (Blind.throw _)

end HybridDatabase.Database
