/-
# Loading what was written

`Loads` is `Reads` for loads: it says which bytes a load takes and what it does to
the memory.  On top of it every record and every kind of element gets one rule, so
that later proofs speak of records and elements only.
-/

import HybridDatabase.Database.Load

namespace HybridDatabase.Database

open HybridDatabase.Base HybridDatabase.Storage

theorem onReader_ok {α : Type} {m : ReaderM α} {R R' : Reader} {a : α} (h : m R = .ok a R')
    (M : Memory) : onReader m ⟨R, M⟩ = .ok a ⟨R', M⟩ := onPart_ok h

theorem onReader_error {α : Type} {m : ReaderM α} {R R' : Reader} {e : ReadError}
    (h : m R = .error e R') (M : Memory) : onReader m ⟨R, M⟩ = .error e ⟨R', M⟩ := onPart_error h

/-! ## The rules -/

/-- Any bytes may follow. -/
def anything : Bytes → Prop := fun _ => True

/-- The end of the surrounding array follows. -/
def arrayEnd : Bytes → Prop := fun rest => ∃ others, rest = stArrayEnd :: others

/-- In front of `enc`, where `follow` holds of what comes behind it, `m` takes `enc`,
answers `a` and turns the memory `M` into `M'`; it opens at most `d` levels of arrays. -/
def Loads {α : Type} (follow : Bytes → Prop) (d : ℕ) (m : LoadM α) (M : Memory) (a : α)
    (M' : Memory) (enc : Bytes) : Prop :=
  ∀ (R : Reader) (rest : Bytes), follow rest → R.At (enc ++ rest) → 0 ≤ R.depth →
    R.depth + d < 2 ^ 31 → m ⟨R, M⟩ = .ok a ⟨R.skip enc.length, M'⟩

namespace Loads

variable {α β : Type} {follow : Bytes → Prop} {d : ℕ} {M M₁ M₂ : Memory} {a : α} {b : β}
  {enc enc' : Bytes}

theorem pure (a : α) : Loads follow d (Pure.pure a) M a M [] := fun _ _ _ _ _ _ => rfl

/-- A call that acts on the reader alone. -/
theorem read {m : ReaderM α} (h : Reads d m a enc) : Loads follow d (onReader m) M a M enc := by
  intro R rest _ at_ lower upper
  exact onPart_ok (h R rest at_ lower upper)

theorem readItems {m : ReaderM α} (h : ReadsItems d m a enc) :
    Loads arrayEnd d (onReader m) M a M enc := by
  rintro R rest ⟨others, rfl⟩ at_ lower upper
  exact onPart_ok (h R others at_ lower upper)

theorem mono {d' : ℕ} {m : LoadM α} (h : Loads follow d m M a M₁ enc) (le : d ≤ d') :
    Loads follow d' m M a M₁ enc :=
  fun R rest after at_ lower upper => h R rest after at_ lower (by omega)

/-- Two calls in a row. -/
theorem bind {m : LoadM α} {f : α → LoadM β} (first : Loads anything d m M a M₁ enc)
    (second : Loads follow d (f a) M₁ b M₂ enc') :
    Loads follow d (m >>= f) M b M₂ (enc ++ enc') := by
  intro R rest after at_ lower upper
  rw [List.append_assoc] at at_
  rw [bind_ok (first R _ trivial at_ lower upper),
    second (R.skip enc.length) rest after at_.skip lower upper, Reader.skip_skip,
    List.length_append]

/-- A call behind which only the memory changes. -/
theorem bindNothing {m : LoadM α} {f : α → LoadM β} (first : Loads follow d m M a M₁ enc)
    (second : Loads follow d (f a) M₁ b M₂ []) : Loads follow d (m >>= f) M b M₂ enc := by
  intro R rest after at_ lower upper
  have last := second (R.skip enc.length) rest after at_.skip lower upper
  rw [bind_ok (first R rest after at_ lower upper), last]
  rfl

/-- The memory changes without a look at the reader. -/
theorem update (f : Memory → Memory) :
    Loads follow d (onMemory f) M () (f M) [] :=
  fun _ _ _ _ _ _ => rfl

/-- The memory changes first. -/
theorem updates {f : Memory → Memory} {m : LoadM α} (h : Loads follow d m (f M) a M₁ enc) :
    Loads follow d (onMemory f >>= fun _ => m) M a M₁ enc := by
  have both : Loads follow d (onMemory f >>= fun _ => m) M a M₁ ([] ++ enc) := bind (update f) h
  exact both

/-- A look at the memory. -/
theorem look {g : Loading → LoadM α} (h : ∀ R, Loads follow d (g ⟨R, M⟩) M a M₁ enc) :
    Loads follow d (get >>= g) M a M₁ enc := by
  intro R rest after at_ lower upper
  rw [bind_ok (get_run _)]
  exact h R R rest after at_ lower upper

theorem lookDumpOn {g : Bool → LoadM α} (h : Loads follow d (g M.dumpOn) M a M₁ enc) :
    Loads follow d (getDumpOn >>= g) M a M₁ enc := by
  intro R rest after at_ lower upper
  have looked : getDumpOn ⟨R, M⟩ = .ok M.dumpOn ⟨R, M⟩ := rfl
  rw [bind_ok looked]
  exact h R rest after at_ lower upper

theorem ensure {cond : Bool} (h : cond = true) : Loads follow d (ensure cond) M () M [] := by
  intro R rest _ _ _ _
  simp only [Database.ensure, h, if_true, pure_run, List.length_nil, Reader.skip_zero]

/-- There is enough fuel for a loop over what is ahead. -/
theorem fuel {g : ℕ → LoadM α} (h : ∀ fuel, enc.length < fuel →
    Loads follow d (g fuel) M a M₁ enc) : Loads follow d (loopFuel >>= g) M a M₁ enc := by
  intro R rest after at_ lower upper
  have looked : loopFuel ⟨R, M⟩ = .ok (R.data.length + 1) ⟨R, M⟩ := rfl
  have enough : enc.length < R.data.length + 1 := by
    obtain ⟨done, data, -⟩ := at_.split
    rw [data, List.length_append, List.length_append]
    omega
  rw [bind_ok looked]
  exact h _ enough R rest after at_ lower upper

/-- `reader_next` announces the first byte of what follows. -/
theorem next {byte : UInt8} {tail : Bytes} {f : Next → LoadM α}
    (h : Loads follow d (f (nextKind byte)) M a M₁ (byte :: tail)) :
    Loads follow d (onReader readerNext >>= f) M a M₁ (byte :: tail) := by
  intro R rest after at_ lower upper
  have announced : onReader readerNext ⟨R, M⟩ = .ok (nextKind byte) ⟨R, M⟩ :=
    onPart_ok (readerNext_at at_)
  rw [bind_ok announced]
  exact h R rest after at_ lower upper

/-- Behind the last item `reader_next` announces the end of the array. -/
theorem nextEnd {f : Next → LoadM α} (h : Loads arrayEnd d (f .arrayEnd) M a M₁ []) :
    Loads arrayEnd d (onReader readerNext >>= f) M a M₁ [] := by
  rintro R rest ⟨others, rfl⟩ at_ lower upper
  have announced : onReader readerNext ⟨R, M⟩ = .ok .arrayEnd ⟨R, M⟩ :=
    onPart_ok (readerNext_at at_)
  rw [bind_ok announced]
  exact h R _ ⟨others, rfl⟩ at_ lower upper

/-- `rArray … rArrayEnd` around a call that takes the items of an array. -/
theorem array {m : LoadM Unit} (items : Loads arrayEnd d m M () M₁ enc)
    {f : LoadM α} {rest : Bytes} (others : Loads follow (d + 1) f M₁ a M₂ rest) :
    Loads follow (d + 1)
      (do onReader readArray; m; onReader readArrayEnd; f) M a M₂ (encodeArray enc ++ rest) := by
  intro R behind after at_ lower upper
  push_cast at upper
  have start : R.At (stArrayBegin :: (enc ++ stArrayEnd :: (rest ++ behind))) := by
    simpa [encodeArray] using at_
  have opened := readArray_at start lower (by omega)
  set inner : Reader := { R.skip 1 with depth := R.depth + 1 } with hinner
  have inside : inner.At (enc ++ stArrayEnd :: (rest ++ behind)) :=
    (Reader.At.skip (show R.At ([stArrayBegin] ++ _) from start)).withDepth _
  have done := items inner _ ⟨_, rfl⟩ inside (by show 0 ≤ R.depth + 1; omega)
    (by show R.depth + 1 + d < 2 ^ 31; omega)
  have closed := readArrayEnd_at (R := inner.skip enc.length) inside.skip
    (by show 0 < R.depth + 1; omega)
  have same : { (inner.skip enc.length).skip 1 with
      depth := (inner.skip enc.length).depth - 1 } = R.skip (encodeArray enc).length := by
    simp only [hinner, Reader.skip, encodeArray, List.length_cons, List.length_append,
      List.length_nil, Reader.mk.injEq, true_and]
    constructor <;> omega
  have last := others (R.skip (encodeArray enc).length) behind after
    (by rw [List.append_assoc] at at_; exact at_.skip) lower
    (by push_cast; show R.depth + (d + 1) < 2 ^ 31; omega)
  have begun : onReader readArray ⟨R, M⟩ = .ok () ⟨inner, M⟩ := onPart_ok opened
  have ended : onReader readArrayEnd ⟨inner.skip enc.length, M₁⟩ =
      .ok () ⟨R.skip (encodeArray enc).length, M₁⟩ := by
    rw [← same]
    exact onPart_ok closed
  rw [bind_ok begun, bind_ok done, bind_ok ended, last, Reader.skip_skip, List.length_append]

end Loads

/-! ## Records -/

/-- `read_node_prepare` and `type->init` for a node whose record is accepted. -/
def Memory.create (T : DatabaseType) (type id : ℕ) (M : Memory) : Memory :=
  let M := (M.call (.alloc type)).call (.setId id)
  if (M.nodes id).isSome then M
  else
    Memory.call .insert
      { M.setNode id (some ⟨type, ((T.nodeTypes[type]?).elim [] NodeType.attributes).map
          fun attr => attributeInit attr.type⟩) with counter := max M.counter id }

theorem Memory.nodes_create (T : DatabaseType) (type id : ℕ) (M : Memory) :
    (M.create T type id).nodes =
      if (M.nodes id).isSome then M.nodes
      else Function.update M.nodes id
        (some ⟨type, ((T.nodeTypes[type]?).elim [] NodeType.attributes).map
          fun attr => attributeInit attr.type⟩) := by
  by_cases taken : (M.nodes id).isSome = true
  · simp only [create, nodes_call, taken, if_true]
  · simp only [create, nodes_call, taken]
    rfl

/-- What reading a record does to the memory. -/
def Record.apply (T : DatabaseType) (M : Memory) : Record → Memory
  | .create type id => M.create T type id
  | .delete id => M.delete id
  | .modify id index _ value => M.setValue id index value.stored

theorem Record.dumpOn_apply (T : DatabaseType) (M : Memory) (record : Record) :
    (record.apply T M).dumpOn = M.dumpOn := by
  cases record with
  | create type id =>
      by_cases taken : (M.nodes id).isSome = true
      · simp only [apply, Memory.create, Memory.nodes_call, taken, if_true]
        rfl
      · simp only [apply, Memory.create, Memory.nodes_call, taken]
        rfl
  | delete id =>
      by_cases present : (M.nodes id).isSome = true
      · simp only [apply, Memory.delete, present, if_true]
        rfl
      · simp only [apply, Memory.delete, present]
        rfl
  | modify id index attrType value => rfl

/-- What reading records one after another does. -/
def applyRecords (T : DatabaseType) (M : Memory) (records : List Record) : Memory :=
  records.foldl (fun M record => record.apply T M) M

/-- The record is one that a transaction writes, and speaks of the node that is there. -/
def Record.Fits (T : DatabaseType) (M : Memory) : Record → Prop
  | .create type id => type < T.nodeTypes.length ∧ id < 2 ^ 64
  | .delete id => id < 2 ^ 64
  | .modify id index attrType value =>
      id < 2 ^ 64 ∧ index < 2 ^ 31 ∧ attrType.kind.Holds value ∧
        ∀ node, M.nodes id = some node →
          ∃ attr, attributeAt T node.type index = some attr ∧ attr.type = attrType

/-- Each record fits the memory that the ones before it leave. -/
def RecordsFit (T : DatabaseType) : Memory → List Record → Prop
  | _, [] => True
  | M, record :: records => record.Fits T M ∧ RecordsFit T (record.apply T M) records

theorem setValue_of_none {M : Memory} {id : ℕ} (absent : M.nodes id = none) (index : ℕ)
    (value : Value) : M.setValue id index value = M := by
  simp only [Memory.setValue, Memory.setNode, absent, Option.map_none]
  rw [← absent, Function.update_eq_self]

/-- Skipping the items of an array. -/
theorem loads_rSkip (items : List Tree) {M : Memory} {d : ℕ}
    (total : (Tree.encodeItems items).length < 2 ^ 63) (shallow : Tree.nestingItems items ≤ d)
    (bound : d < 2 ^ 31) : Loads arrayEnd d rSkip M () M (Tree.encodeItems items) :=
  Loads.fuel fun _ enough =>
    (Loads.readItems (readsItems_readerSkip items (by omega) (by omega) enough)).mono shallow

theorem loads_readNumber {n : ℕ} (fits : n < 2 ^ 64) {follow : Bytes → Prop} (d : ℕ)
    (M : Memory) : Loads follow d (onReader readNumber) M n M (encodeNumber n) :=
  Loads.read (reads_readNumber fits d)

theorem loads_readNodePrepare {T : DatabaseType} {M : Memory} {type id : ℕ}
    (known : type < T.nodeTypes.length) (fits : id < 2 ^ 64) {follow : Bytes → Prop} (d : ℕ) :
    Loads follow d (readNodePrepare T) M
      (if (M.nodes id).isSome then none else some (id, T.nodeTypes[type])) (M.create T type id)
      (encodeNumber type ++ encodeNumber id) := by
  have found : T.nodeTypes[type]? = some T.nodeTypes[type] := List.getElem?_eq_getElem known
  apply Loads.bind (loads_readNumber (known.trans T.count) d M)
  rw [found]
  refine Loads.updates (Loads.bindNothing (loads_readNumber fits d _) (Loads.updates ?_))
  refine Loads.look fun R => ?_
  by_cases taken : (M.nodes id).isSome = true
  · simp only [Memory.call, taken, if_true, Memory.create]
    exact Loads.pure _
  · simp only [Memory.call, taken, Memory.create, found, Option.elim_some]
    exact Loads.updates (Loads.bindNothing (Loads.update _) (Loads.pure _))

theorem loads_readNodeCreate {T : DatabaseType} {M : Memory} {type id : ℕ}
    (known : type < T.nodeTypes.length) (fits : id < 2 ^ 64) {follow : Bytes → Prop} (d : ℕ) :
    Loads follow d (readNodeCreate T) M () (M.create T type id)
      (encodeNumber type ++ encodeNumber id) :=
  Loads.bindNothing (loads_readNodePrepare known fits d) (Loads.pure _)

theorem loads_readNodeDelete {M : Memory} {id : ℕ} (fits : id < 2 ^ 64) {follow : Bytes → Prop}
    (d : ℕ) : Loads follow d readNodeDelete M () (M.delete id) (encodeNumber id) :=
  Loads.bindNothing (loads_readNumber fits d M) (Loads.update _)

theorem toInt_natCast {n : ℕ} (small : n < 2 ^ 31) : toInt n = n := toInt_of_lt (by omega) (by omega)

/-- A node that is not there is passed over. -/
theorem loads_readNodeModify_absent {T : DatabaseType} {M : Memory} {id index : ℕ}
    {contents : Bytes} (idFits : id < 2 ^ 64) (indexFits : index < 2 ^ 31) (absent : M.nodes id = none)
    (total : (encodeString contents).length < 2 ^ 63) (d : ℕ) :
    Loads arrayEnd d (readNodeModify T) M () M
      (encodeNumber id ++ (encodeNumber index ++ encodeString contents)) := by
  refine Loads.bind (loads_readNumber idFits d M)
    (Loads.bind (loads_readNumber (indexFits.trans (by decide)) d M) (Loads.look fun R => ?_))
  simp only [absent]
  have one : encodeString contents = Tree.encodeItems [.string contents] :=
    (List.append_nil _).symm
  rw [one] at total ⊢
  have shallow : Tree.nestingItems [.string contents] ≤ 0 := le_rfl
  exact (loads_rSkip _ total shallow (by decide)).mono (Nat.zero_le d)

/-- An attribute of a node that is there gets what `attribute_load` makes of the string. -/
theorem loads_readNodeModify_present {T : DatabaseType} {M : Memory} {id index : ℕ} {node : Node}
    {attr : NodeAttribute} {contents : Bytes} {value : Value} (idFits : id < 2 ^ 64)
    (indexFits : index < 2 ^ 31) (present : M.nodes id = some node)
    (found : attributeAt T node.type index = some attr)
    (taken : attr.type.ofContents contents = some value) {follow : Bytes → Prop} (d : ℕ) :
    Loads follow d (readNodeModify T) M () (M.setValue id index value)
      (encodeNumber id ++ (encodeNumber index ++ encodeString contents)) := by
  refine Loads.bind (loads_readNumber idFits d M)
    (Loads.bind (loads_readNumber (indexFits.trans (by decide)) d M) (Loads.look fun R => ?_))
  rw [toInt_natCast indexFits]
  have positive : ¬ (index : ℤ) < 0 := by omega
  simp only [present, positive, if_false, Int.toNat_natCast, found]
  exact Loads.bindNothing (Loads.read (reads_ofContents taken d)) (Loads.update _)

/-- A record is an array that begins with its number. -/
theorem loads_event {T : DatabaseType} {M M₁ M' : Memory} {number : ℕ} {items rest : Bytes}
    {f : LoadM Unit} (small : number < 2 ^ 64)
    (event : Loads arrayEnd 0 (readEvent T number) M () M₁ items)
    (others : Loads arrayEnd 1 f M₁ () M' rest) :
    Loads arrayEnd 1
      (do onReader readArray
          let event ← onReader readNumber
          readEvent T event
          onReader readArrayEnd
          f) M () M' (encodeArray (encodeNumber number ++ items) ++ rest) := by
  have all := Loads.array (Loads.bind (loads_readNumber small 0 M) event) others
  simp only [bind_assoc] at all
  exact all

/-- What reading a record does to the memory, where the record is taken. -/
def Record.read (T : DatabaseType) (M : Memory) : Record → Option Memory
  | .create type id => some (M.create T type id)
  | .delete id => some (M.delete id)
  | .modify id index attrType value =>
      match M.nodes id with
      | none => some M
      | some node =>
          (attributeAt T node.type index).bind fun attr =>
            ((attributeContents attrType value).bind attr.type.ofContents).map (M.setValue id index)

/-- What reading records one after another does to the memory, where all of them are taken. -/
def recordsRead (T : DatabaseType) : Memory → List Record → Option Memory
  | M, [] => some M
  | M, record :: records => (record.read T M).bind fun M' => recordsRead T M' records

/-- The numbers in a record that a transaction writes. -/
def Record.Small (T : DatabaseType) : Record → Prop
  | .create type id => type < T.nodeTypes.length ∧ id < 2 ^ 64
  | .delete id => id < 2 ^ 64
  | .modify id index _ _ => id < 2 ^ 64 ∧ index < 2 ^ 31

theorem Record.Fits.small {T : DatabaseType} {M : Memory} {record : Record}
    (fits : record.Fits T M) : record.Small T := by
  cases record with
  | create type id => exact fits
  | delete id => exact fits
  | modify id index attrType value => exact ⟨fits.1, fits.2.1⟩

theorem Record.Fits.read {T : DatabaseType} {M : Memory} {record : Record} {enc : Bytes}
    (fits : record.Fits T M) (stored : record.bytes = some enc) :
    record.read T M = some (record.apply T M) := by
  cases record with
  | create type id => rfl
  | delete id => rfl
  | modify id index attrType value =>
      obtain ⟨idFits, indexFits, holds, typed⟩ := fits
      obtain ⟨items, hitems, -⟩ := Option.map_eq_some_iff.mp stored
      obtain ⟨value', hvalue, -⟩ := Option.map_eq_some_iff.mp hitems
      obtain ⟨contents, same, -⟩ := attributeBytes_eq hvalue
      rw [Record.read, Record.apply]
      cases present : M.nodes id with
      | none => rw [setValue_of_none present]
      | some node =>
          obtain ⟨attr, found, rfl⟩ := typed node present
          simp only [found, same, Option.bind_some, ofContents_stored holds same, Option.map_some]

theorem recordsRead_of_fit {T : DatabaseType} {M : Memory} {records : List Record} {enc : Bytes}
    (fits : RecordsFit T M records) (stored : recordsBytes records = some enc) :
    recordsRead T M records = some (applyRecords T M records) := by
  induction records generalizing M enc with
  | nil => rfl
  | cons record records ih =>
      obtain ⟨first, others, hfirst, hothers, -⟩ := recordsBytes_cons.mp stored
      rw [recordsRead, fits.1.read hfirst]
      exact ih fits.2 hothers

theorem RecordsFit.small {T : DatabaseType} {M : Memory} {records : List Record}
    (fits : RecordsFit T M records) : ∀ record ∈ records, record.Small T := by
  induction records generalizing M with
  | nil => exact fun record inside => absurd inside List.not_mem_nil
  | cons first records ih =>
      intro record inside
      obtain rfl | inside := List.mem_cons.mp inside
      · exact fits.1.small
      · exact ih fits.2 record inside

/-- A record that is taken begins with the number of its event, which is read and applied. -/
theorem loads_readEvent {T : DatabaseType} {M M' : Memory} {record : Record} {enc : Bytes}
    (small : record.Small T) (stored : record.items = some enc) (total : enc.length < 2 ^ 63)
    (read : record.read T M = some M') :
    ∃ number items, number < 2 ^ 64 ∧ enc = encodeNumber number ++ items ∧
      Loads arrayEnd 0 (readEvent T number) M () M' items := by
  cases record with
  | create type id =>
      cases stored
      cases read
      exact ⟨cbeNodeCreated, _, by decide, rfl, loads_readNodeCreate small.1 small.2 0⟩
  | delete id =>
      cases stored
      cases read
      exact ⟨cbeNodeDeleted, _, by decide, rfl, loads_readNodeDelete small 0⟩
  | modify id index attrType value =>
      obtain ⟨bytes, hbytes, rfl⟩ := Option.map_eq_some_iff.mp stored
      obtain ⟨contents, same, rfl⟩ := attributeBytes_eq hbytes
      simp only [List.length_append] at total
      refine ⟨cbeNodeModified, _, by decide, rfl, ?_⟩
      rw [Record.read] at read
      cases present : M.nodes id with
      | none =>
          simp only [present] at read
          cases read
          exact loads_readNodeModify_absent small.1 small.2 present (by omega) 0
      | some node =>
          simp only [present] at read
          obtain ⟨attr, found, read⟩ := Option.bind_eq_some_iff.mp read
          obtain ⟨value', taken, rfl⟩ := Option.map_eq_some_iff.mp read
          rw [same, Option.bind_some] at taken
          exact loads_readNodeModify_present small.1 small.2 present found taken 0

/-- The loop over the records stands in front of one. -/
theorem readRecords_record {T : DatabaseType} {fuel : ℕ} {items rest : Bytes} {R : Reader}
    {M : Memory} (at_ : R.At (encodeArray items ++ rest)) :
    readRecords T (fuel + 1) ⟨R, M⟩ =
      (do onReader readArray
          let event ← onReader readNumber
          readEvent T event
          onReader readArrayEnd
          readRecords T fuel : LoadM Unit) ⟨R, M⟩ := by
  have announced : onReader readerNext ⟨R, M⟩ = .ok .arrayBegin ⟨R, M⟩ :=
    onReader_ok (readerNext_at (show R.At (stArrayBegin :: (items ++ [stArrayEnd] ++ rest)) from at_)) M
  rw [readRecords, bind_ok announced]

/-- The records of a transaction are read and applied in their order. -/
theorem loads_readRecords {T : DatabaseType} {records : List Record} {M M' : Memory} {enc : Bytes}
    (small : ∀ record ∈ records, record.Small T) (read : recordsRead T M records = some M')
    (stored : recordsBytes records = some enc) (total : enc.length < 2 ^ 63) {fuel : ℕ}
    (enough : enc.length < fuel) : Loads arrayEnd 1 (readRecords T fuel) M () M' enc := by
  induction records generalizing M enc fuel with
  | nil =>
      cases stored
      cases read
      obtain ⟨fuel, rfl⟩ : ∃ n, fuel = n + 1 := ⟨fuel - 1, by omega⟩
      unfold readRecords
      exact Loads.nextEnd (Loads.pure ())
  | cons record records ih =>
      obtain ⟨first, others, hfirst, hothers, rfl⟩ := recordsBytes_cons.mp stored
      obtain ⟨M₁, now, later⟩ := Option.bind_eq_some_iff.mp read
      obtain ⟨items, hitems, rfl⟩ := Option.map_eq_some_iff.mp hfirst
      rw [List.length_append, length_encodeArray] at total enough
      obtain ⟨fuel, rfl⟩ : ∃ n, fuel = n + 1 := ⟨fuel - 1, by omega⟩
      obtain ⟨number, items, fits, rfl, event⟩ :=
        loads_readEvent (small record List.mem_cons_self) hitems (by omega) now
      have last : Loads arrayEnd 1 (readRecords T fuel) M₁ () M' others :=
        ih (fun record inside => small record (List.mem_cons_of_mem _ inside)) later hothers
          (by omega) (by omega)
      intro R rest follow at_ lower upper
      rw [readRecords_record (by rwa [List.append_assoc] at at_)]
      exact loads_event fits event last R rest follow at_ lower upper

end HybridDatabase.Database
