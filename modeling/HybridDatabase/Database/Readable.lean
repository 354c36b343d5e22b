/-
# Which transactions can be read back

`process_transaction_log` writes an array of records, and the loader tells a
transaction from a node of a dump by the first token in that array.  A log without
any node operation, such as one of index writes only, leaves the array empty, and
the loader rejects it.  A null `RawString` cannot be written at all, and a write to
an attribute behind the first 256 is read as one to another attribute, which must
take what is stored.  Every other log is read back.
-/

import HybridDatabase.Database.Files
import HybridDatabase.Database.Refuses

namespace HybridDatabase.Database

open HybridDatabase.Base HybridDatabase.Storage

/-! ## Typed logs -/

/-- An id belongs to one node for all time, and so to one type: the type of every node
of the memory is the one that `types` assigns to its id. -/
def Memory.Typed (types : ℕ → ℕ) (M : Memory) : Prop :=
  ∀ id node, M.nodes id = some node → node.type = types id

/-- An item that a transaction can leave in its log.  `trWrite_` puts the type of the
attribute into it, and the last eight bits of the attribute's number. -/
def LogItem.Typed (T : DatabaseType) (types : ℕ → ℕ) : LogItem → Prop
  | .nodeModify id index attrType _ dataNew =>
      id < 2 ^ 64 ∧ attrType.kind.Holds dataNew ∧
        ∃ number attr, attributeAt T (types id) number = some attr ∧ attr.type = attrType ∧
          index = number % 256
  | .nodeAlloc type id => type < T.nodeTypes.length ∧ id < 2 ^ 64 ∧ type = types id
  | .nodeDelete id => id < 2 ^ 64
  | _ => True

/-- The item is about a node and leaves a record. -/
def LogItem.IsNodeOperation : LogItem → Prop
  | .nodeModify .. => True
  | .nodeAlloc .. => True
  | .nodeDelete .. => True
  | _ => False

theorem LogItem.isNodeOperation_iff {item : LogItem} :
    item.IsNodeOperation ↔ ∃ record, item.record = some record := by
  cases item <;> simp [LogItem.IsNodeOperation, LogItem.record]

theorem records_ne_nil_iff {log : List LogItem} :
    records log ≠ [] ↔ ∃ item ∈ log, item.IsNodeOperation := by
  simp only [LogItem.isNodeOperation_iff]
  constructor
  · intro nonempty
    obtain ⟨record, member⟩ := List.exists_mem_of_ne_nil _ nonempty
    obtain ⟨item, inLog, leaves⟩ := List.mem_filterMap.mp member
    exact ⟨item, inLog, record, leaves⟩
  · rintro ⟨item, inLog, record, leaves⟩
    exact List.ne_nil_of_mem (List.mem_filterMap.mpr ⟨item, inLog, leaves⟩)

/-- Creating the node of an id that has this type. -/
theorem Memory.Typed.create {T : DatabaseType} {types : ℕ → ℕ} {M : Memory} (h : M.Typed types)
    {type id : ℕ} (same : type = types id) : (M.create T type id).Typed types := by
  intro other node present
  rw [Memory.nodes_create] at present
  by_cases taken : (M.nodes id).isSome = true
  · rw [if_pos taken] at present
    exact h other node present
  · rw [if_neg taken] at present
    by_cases here : other = id
    · subst here
      simp only [Function.update_self, Option.some.injEq] at present
      rw [← present]
      exact same
    · rw [Function.update_of_ne here] at present
      exact h other node present

theorem Memory.Typed.delete {types : ℕ → ℕ} {M : Memory} (h : M.Typed types) (id : ℕ) :
    (M.delete id).Typed types := by
  intro other node present
  rw [Memory.nodes_delete] at present
  by_cases here : other = id
  · subst here
    rw [Function.update_self] at present
    cases present
  · rw [Function.update_of_ne here] at present
    exact h other node present

theorem Memory.Typed.setValue {types : ℕ → ℕ} {M : Memory} (h : M.Typed types)
    (id index : ℕ) (value : Value) : (M.setValue id index value).Typed types := by
  intro other node present
  by_cases here : other = id
  · subst here
    simp only [Memory.setValue, Memory.setNode, Function.update_self, Option.map_eq_some_iff]
      at present
    obtain ⟨before, there, rfl⟩ := present
    exact h other before there
  · simp only [Memory.setValue, Memory.setNode, Function.update_of_ne here] at present
    exact h other node present

/-- `attribute_store` can write the value of the item. -/
def LogItem.Storable : LogItem → Prop
  | .nodeModify _ _ _ _ dataNew => dataNew ≠ .rawString none
  | _ => True

/-- Where the node of the item is there, the attribute that the loader finds under the stored
index takes the string that is stored. -/
def LogItem.Taken (T : DatabaseType) (types : ℕ → ℕ) (there : ℕ → Bool) : LogItem → Prop
  | .nodeModify id index attrType _ dataNew => there id = true →
      ∃ attr contents, attributeAt T (types id) index = some attr ∧
        attributeContents attrType dataNew = some contents ∧
        attr.type.kind.Takes contents.length
  | _ => True

/-- The nodes of the memory. -/
def Memory.there (M : Memory) : ℕ → Bool := fun id => (M.nodes id).isSome

/-- The nodes behind the item. -/
def LogItem.leaves (there : ℕ → Bool) : LogItem → ℕ → Bool
  | .nodeAlloc _ id => Function.update there id true
  | .nodeDelete id => Function.update there id false
  | _ => there

/-- The nodes behind a log. -/
def thereBehind (there : ℕ → Bool) (log : List LogItem) : ℕ → Bool :=
  log.foldl LogItem.leaves there

theorem Memory.there_create (T : DatabaseType) (M : Memory) (type id : ℕ) :
    (M.create T type id).there = Function.update M.there id true := by
  funext other
  rw [Memory.there, Memory.nodes_create]
  by_cases taken : (M.nodes id).isSome = true
  · rw [if_pos taken]
    by_cases here : other = id
    · rw [here, Function.update_self, taken]
    · rw [Function.update_of_ne here, Memory.there]
  · rw [if_neg taken]
    by_cases here : other = id
    · rw [here, Function.update_self, Function.update_self, Option.isSome_some]
    · rw [Function.update_of_ne here, Function.update_of_ne here, Memory.there]

theorem Memory.there_delete (M : Memory) (id : ℕ) :
    (M.delete id).there = Function.update M.there id false := by
  funext other
  rw [Memory.there, Memory.nodes_delete]
  by_cases here : other = id
  · rw [here, Function.update_self, Function.update_self, Option.isSome_none]
  · rw [Function.update_of_ne here, Function.update_of_ne here, Memory.there]

theorem Memory.there_setValue (M : Memory) (id index : ℕ) (value : Value) :
    (M.setValue id index value).there = M.there := by
  funext other
  by_cases here : other = id
  · subst here
    simp only [Memory.there, Memory.setValue, Memory.setNode, Function.update_self,
      Option.isSome_map]
  · simp only [Memory.there, Memory.setValue, Memory.setNode, Function.update_of_ne here]

theorem LogItem.Typed.small {T : DatabaseType} {types : ℕ → ℕ} {item : LogItem} {record : Record}
    (h : item.Typed T types) (leaves : item.record = some record) : record.Small T := by
  cases item with
  | refCount id dataOld => cases leaves
  | raw address dataOld => cases leaves
  | memoryAlloc address => cases leaves
  | memoryDelete address => cases leaves
  | nodeModify id index attrType dataOld dataNew =>
      cases leaves
      obtain ⟨idFits, -, number, attr, -, -, rfl⟩ := h
      exact ⟨idFits, by omega⟩
  | nodeAlloc type id =>
      cases leaves
      exact ⟨h.1, h.2.1⟩
  | nodeDelete id =>
      cases leaves
      exact h

/-- The record of an item has bytes where the value can be stored. -/
theorem LogItem.Typed.bytes_iff {T : DatabaseType} {types : ℕ → ℕ} {item : LogItem}
    {record : Record} (h : item.Typed T types) (leaves : item.record = some record) :
    (∃ enc, record.bytes = some enc) ↔ item.Storable := by
  cases item with
  | refCount id dataOld => cases leaves
  | raw address dataOld => cases leaves
  | memoryAlloc address => cases leaves
  | memoryDelete address => cases leaves
  | nodeAlloc type id =>
      cases leaves
      exact ⟨fun _ => trivial, fun _ => ⟨_, rfl⟩⟩
  | nodeDelete id =>
      cases leaves
      exact ⟨fun _ => trivial, fun _ => ⟨_, rfl⟩⟩
  | nodeModify id index attrType dataOld dataNew =>
      cases leaves
      rw [LogItem.Storable, ← attributeContents_isSome_iff h.2.1, Record.bytes, Record.items,
        attributeBytes_eq_map]
      cases attributeContents attrType dataNew <;> simp

/-- The record of a write is taken where the attribute takes the string. -/
theorem read_modify_iff {T : DatabaseType} {types : ℕ → ℕ} {M : Memory} (typed : M.Typed types)
    {id index : ℕ} {attrType : AttrType} {dataOld dataNew : Value} :
    (∃ M', Record.read T M (.modify id index attrType dataNew) = some M') ↔
      LogItem.Taken T types M.there (.nodeModify id index attrType dataOld dataNew) := by
  rw [Record.read, LogItem.Taken, Memory.there]
  cases present : M.nodes id with
  | none => simp
  | some node =>
      simp only [Option.isSome_some, typed id node present, forall_const, ← ofContents_isSome_iff,
        Option.isSome_iff_exists, Option.bind_eq_some_iff, Option.map_eq_some_iff]
      constructor
      · rintro ⟨M', attr, found, value, ⟨contents, stored, taken⟩, rfl⟩
        exact ⟨attr, contents, found, stored, value, taken⟩
      · rintro ⟨attr, contents, found, stored, value, taken⟩
        exact ⟨_, attr, found, value, ⟨contents, stored, taken⟩, rfl⟩

/-- The record of an item is taken where the item is, and leaves the nodes the item leaves. -/
theorem LogItem.Typed.taken_iff {T : DatabaseType} {types : ℕ → ℕ} {M : Memory} {item : LogItem}
    {record : Record} (h : item.Typed T types) (typed : M.Typed types)
    (leaves : item.record = some record) :
    ((∃ M', record.read T M = some M') ↔ item.Taken T types M.there) ∧
      ∀ M', record.read T M = some M' → M'.Typed types ∧ M'.there = item.leaves M.there := by
  cases item with
  | refCount id dataOld => cases leaves
  | raw address dataOld => cases leaves
  | memoryAlloc address => cases leaves
  | memoryDelete address => cases leaves
  | nodeAlloc type id =>
      cases leaves
      refine ⟨⟨fun _ => trivial, fun _ => ⟨_, rfl⟩⟩, ?_⟩
      rintro M' ⟨rfl⟩
      exact ⟨typed.create h.2.2, M.there_create T type id⟩
  | nodeDelete id =>
      cases leaves
      refine ⟨⟨fun _ => trivial, fun _ => ⟨_, rfl⟩⟩, ?_⟩
      rintro M' ⟨rfl⟩
      exact ⟨typed.delete id, M.there_delete id⟩
  | nodeModify id index attrType dataOld dataNew =>
      cases leaves
      refine ⟨read_modify_iff typed, ?_⟩
      intro M' read
      rw [Record.read] at read
      split at read
      · cases read
        exact ⟨typed, rfl⟩
      · obtain ⟨attr, -, read⟩ := Option.bind_eq_some_iff.mp read
        obtain ⟨value, -, rfl⟩ := Option.map_eq_some_iff.mp read
        exact ⟨typed.setValue id index value, M.there_setValue id index value⟩

theorem records_cons_of_none {item : LogItem} (leaves : item.record = none) (log : List LogItem) :
    records (item :: log) = records log := by
  simp only [records, List.filterMap_cons, leaves]

theorem records_cons_of_some {item : LogItem} {record : Record} (leaves : item.record = some record)
    (log : List LogItem) : records (item :: log) = record :: records log := by
  simp only [records, List.filterMap_cons, leaves]

/-- What holds in front of every item of a log, from its first item on. -/
theorem forall_split_cons {P : (ℕ → Bool) → LogItem → Prop} {there : ℕ → Bool} {item : LogItem}
    {log : List LogItem} :
    (∀ front next rest, item :: log = front ++ next :: rest → P (thereBehind there front) next) ↔
      P there item ∧ ∀ front next rest, log = front ++ next :: rest →
        P (thereBehind (item.leaves there) front) next := by
  constructor
  · intro all
    refine ⟨all [] item log rfl, ?_⟩
    rintro front next rest rfl
    exact all (item :: front) next rest rfl
  · rintro ⟨first, others⟩ front next rest split
    cases front with
    | nil =>
        obtain ⟨rfl, -⟩ := List.cons.inj split
        exact first
    | cons head front =>
        obtain ⟨rfl, same⟩ := List.cons.inj split
        exact others front next rest same

/-- The records of a typed log are taken where all its items are. -/
theorem recordsRead_iff {T : DatabaseType} {types : ℕ → ℕ} {M : Memory} {log : List LogItem}
    (h : ∀ item ∈ log, item.Typed T types) (typed : M.Typed types) :
    (∃ M', recordsRead T M (records log) = some M') ↔
      ∀ front item rest, log = front ++ item :: rest →
        item.Taken T types (thereBehind M.there front) := by
  induction log generalizing M with
  | nil =>
      refine ⟨fun _ front item rest split => ?_, fun _ => ⟨M, rfl⟩⟩
      exact absurd split.symm (List.append_ne_nil_of_right_ne_nil front (List.cons_ne_nil item rest))
  | cons item log ih =>
      have others := fun item member => h item (List.mem_cons_of_mem _ member)
      rw [forall_split_cons (P := LogItem.Taken T types)]
      cases leaves : item.record with
      | none =>
          have nothing : item.Taken T types M.there ∧ item.leaves M.there = M.there := by
            cases item <;> first | exact ⟨trivial, rfl⟩ | cases leaves
          rw [records_cons_of_none leaves, ih others typed, nothing.2]
          exact (and_iff_right nothing.1).symm
      | some record =>
          obtain ⟨taken, kept⟩ := (h item List.mem_cons_self).taken_iff typed leaves
          rw [records_cons_of_some leaves, recordsRead, ← taken]
          cases read : record.read T M with
          | none => simp
          | some M₁ =>
              obtain ⟨typed₁, there₁⟩ := kept M₁ read
              rw [Option.bind_some, ih others typed₁, there₁]
              exact (and_iff_right ⟨M₁, rfl⟩).symm

theorem small_of_typed {T : DatabaseType} {types : ℕ → ℕ} {log : List LogItem}
    (h : ∀ item ∈ log, item.Typed T types) : ∀ record ∈ records log, record.Small T := by
  intro record member
  obtain ⟨item, inLog, leaves⟩ := List.mem_filterMap.mp member
  exact (h item inLog).small leaves

/-! ## Writing a transaction -/

/-- A typed log is written where all its values can be stored. -/
theorem recordsBytes_iff {T : DatabaseType} {types : ℕ → ℕ} {log : List LogItem}
    (h : ∀ item ∈ log, item.Typed T types) :
    (∃ enc, recordsBytes (records log) = some enc) ↔ ∀ item ∈ log, item.Storable := by
  induction log with
  | nil => exact ⟨fun _ item member => absurd member List.not_mem_nil, fun _ => ⟨[], rfl⟩⟩
  | cons item log ih =>
      have others := ih fun item member => h item (List.mem_cons_of_mem _ member)
      rw [List.forall_mem_cons, ← others]
      have typed := h item List.mem_cons_self
      cases leaves : item.record with
      | none =>
          have storable : item.Storable := by
            cases item <;> trivial
          rw [records_cons_of_none leaves]
          exact (and_iff_right storable).symm
      | some record =>
          have bytes := typed.bytes_iff leaves
          rw [records_cons_of_some leaves, ← bytes]
          constructor
          · rintro ⟨enc, stored⟩
            obtain ⟨first, rest, hfirst, hrest, -⟩ := recordsBytes_cons.mp stored
            exact ⟨⟨first, hfirst⟩, rest, hrest⟩
          · rintro ⟨⟨first, hfirst⟩, rest, hrest⟩
            exact ⟨_, recordsBytes_cons.mpr ⟨first, rest, hfirst, hrest, rfl⟩⟩

/-! ## Reading a transaction back -/

/-- The loop of `load_file` takes the element and goes on behind it. -/
def Readable (T : DatabaseType) (firstFile : Bool) (base : Bases) (M : Memory) (enc : Bytes) :
    Prop :=
  ∃ M', LoadsElement T firstFile base M M' enc

/-- An element whose items are refused is not read back. -/
theorem not_readable_of_refuses {T : DatabaseType} {firstFile : Bool} {base : Bases} {M : Memory}
    {items : Bytes} (refuses : Refuses arrayEnd 1 (loadItems T firstFile) M items)
    (fits : Addressable base (frame (encodeArray items) true)) :
    ¬ Readable T firstFile base M (frame (encodeArray items) true) := by
  rintro ⟨M', loads⟩
  set R := Reader.init (frame (encodeArray items) true) base with hR
  have file : R.file = frame (encodeArray items) true ++ [] := by rw [List.append_nil]; rfl
  obtain ⟨R', base', file', step⟩ := loads R [] rfl file
  have space : R.base.top + (frame (encodeArray items) true).length + 256 ≤ 2 ^ 64 := by
    have := fits.space
    show base.top + _ + 256 ≤ 2 ^ 64
    omega
  obtain ⟨s, rejected⟩ := loadElements_refused refuses space file 1
  have unfinished : loadElements T firstFile 1 ⟨R', M'⟩ =
      .ok .unfinished ⟨{ R' with file := [] }, M'⟩ := by
    rw [loadElements, bind_ok (onReader_ok (readerBegin_end file') M')]
    rfl
  rw [step 1, unfinished] at rejected
  cases rejected

/-- The element of some records is read back exactly if there are records and all of them are
taken. -/
theorem readable_records_iff {T : DatabaseType} {firstFile : Bool} {base : Bases} {M : Memory}
    {records : List Record} {items : Bytes} (small : ∀ record ∈ records, record.Small T)
    (stored : recordsBytes records = some items)
    (fits : Addressable base (frame (encodeArray items) true)) :
    Readable T firstFile base M (frame (encodeArray items) true) ↔
      records ≠ [] ∧ ∃ M', recordsRead T M records = some M' := by
  have space := fits.space
  have total := fits.total
  have short := length_payload_le (encodeArray items) true
  rw [length_encodeArray] at short
  constructor
  · intro readable
    have taken (refused : records = [] ∨ recordsRead T M records = none) : False :=
      not_readable_of_refuses (refuses_loadItems small refused stored (by omega) firstFile) fits
        readable
    exact ⟨fun empty => taken (.inl empty),
      Option.ne_none_iff_exists'.mp fun none => taken (.inr none)⟩
  · rintro ⟨nonempty, M', read⟩
    have effect := effect_array
      (loads_transactionItems nonempty small read stored (by omega) firstFile)
      (show base.top + _ + 256 ≤ 2 ^ 64 by omega)
    rw [length_frame] at total
    have fitting : (RootElement.ofBody (encodeArray items) true).data.length < 2 ^ 64 := by
      show (encodeArray items ++ Writer.trailer (encodeArray items) true).length < 2 ^ 64
      omega
    exact ⟨M', loadsElement_of_effect fitting effect⟩

/-- `process_transaction_log` writes an element for the log, and the element is read back. -/
def ReadBack (T : DatabaseType) (firstFile : Bool) (base : Bases) (M : Memory)
    (log : List LogItem) : Prop :=
  ∃ W enc, processTransactionLog Writer.init log = some W ∧ W.output = some enc ∧
    Readable T firstFile base M enc

/-- A transaction is read back exactly if its log holds a node operation, every value of it can
be stored, and every write to a node that is there meets an attribute that takes what is
stored. -/
theorem transaction_readable_iff {T : DatabaseType} {types : ℕ → ℕ} {firstFile : Bool}
    {base : Bases} {M : Memory} {log : List LogItem}
    (typed : M.Typed types) (logTyped : ∀ item ∈ log, item.Typed T types)
    (fits : ∀ body, transactionBytes (records log) = some body →
      Addressable base (frame body true)) :
    ReadBack T firstFile base M log ↔
      (∃ item ∈ log, item.IsNodeOperation) ∧ (∀ item ∈ log, item.Storable) ∧
        ∀ front item rest, log = front ++ item :: rest →
          item.Taken T types (thereBehind M.there front) := by
  have small := small_of_typed logTyped
  rw [← records_ne_nil_iff, ← recordsBytes_iff logTyped, ← recordsRead_iff logTyped typed]
  have element {items : Bytes} (stored : recordsBytes (records log) = some items) :
      Addressable base (frame (encodeArray items) true) ∧
        ∃ W, processTransactionLog Writer.init log = some W ∧
          W.output = some (frame (encodeArray items) true) := by
    have bytes : transactionBytes (records log) = some (encodeArray items) := by
      rw [transactionBytes, stored, Option.map_some]
    have space := fits _ bytes
    have short := length_payload_le (encodeArray items) true
    exact ⟨space, (writesElements_processTransactionLog bytes (short.trans_lt space.total)).output⟩
  constructor
  · rintro ⟨W, enc, written, output, readable⟩
    obtain ⟨items, stored, rfl⟩ := output_processTransactionLog
      (fun body bytes => (length_payload_le body true).trans_lt (fits body bytes).total)
      written output
    obtain ⟨nonempty, read⟩ :=
      (readable_records_iff small stored (element stored).1).mp readable
    exact ⟨nonempty, ⟨items, stored⟩, read⟩
  · rintro ⟨nonempty, ⟨items, stored⟩, read⟩
    obtain ⟨space, W, written, output⟩ := element stored
    exact ⟨W, _, written, output, (readable_records_iff small stored space).mpr ⟨nonempty, read⟩⟩

theorem typed_empty (types : ℕ → ℕ) : Memory.empty.Typed types := fun _ _ present => by cases present

/-- One type of nodes, with a number. -/
def numberType : DatabaseType where
  name := []
  version := []
  nodeTypes := [⟨[], [⟨ascii "key", .uint8⟩], by decide⟩]
  names := short_unnamed
  count := by decide

/-- A creation and a write to the new node are read back. -/
theorem transaction_readable_creation :
    ReadBack numberType true 4096 Memory.empty
      [.nodeAlloc 0 1, .nodeModify 1 0 .uint8 (.number 0) (.number 7)] := by
  refine (transaction_readable_iff (typed_empty fun _ => 0) ?_ ?_).mpr ⟨?_, ?_, ?_⟩
  · simp only [List.forall_mem_cons]
    exact ⟨⟨by decide, by decide, rfl⟩,
      ⟨by decide, by decide, 0, ⟨ascii "key", .uint8⟩, rfl, rfl, rfl⟩, by simp⟩
  · rintro body ⟨rfl⟩
    exact ⟨by decide, by decide⟩
  · exact ⟨_, List.mem_cons_self, trivial⟩
  · simp only [List.forall_mem_cons]
    exact ⟨trivial, Value.noConfusion, by simp⟩
  · rw [forall_split_cons (P := LogItem.Taken numberType fun _ => 0),
      forall_split_cons (P := LogItem.Taken numberType fun _ => 0)]
    refine ⟨trivial, fun _ => ⟨⟨ascii "key", .uint8⟩, [7], rfl, by decide, by decide⟩, ?_⟩
    intro front item rest split
    exact absurd split.symm (List.append_ne_nil_of_right_ne_nil front (List.cons_ne_nil item rest))

/-- A transaction that only wrote to an index is not read back. -/
theorem index_write_not_readable :
    ¬ ∀ (T : DatabaseType) (types : ℕ → ℕ) (firstFile : Bool) (base : Bases) (M : Memory)
      (log : List LogItem), M.Typed types → (∀ item ∈ log, item.Typed T types) → log ≠ [] →
      (∀ body, transactionBytes (records log) = some body → Addressable base (frame body true)) →
      ReadBack T firstFile base M log := by
  intro claim
  have bytes : transactionBytes (records [.raw 0 [0]]) = some (encodeArray []) := rfl
  have space : Addressable 4096 (frame (encodeArray []) true) := ⟨by decide, by decide⟩
  obtain ⟨W, written, output⟩ :=
    (writesElements_processTransactionLog bytes (by decide)).output
  obtain ⟨W', enc, written', output', readable⟩ := claim noTypes (fun _ => 0) true 4096
    Memory.empty [.raw 0 [0]] (typed_empty _)
    (fun item member => by obtain rfl := List.mem_singleton.mp member; trivial) (by decide)
    (by rintro body ⟨rfl⟩; exact space)
  obtain rfl := Option.some.inj (written.symm.trans written')
  obtain rfl := Option.some.inj (output.symm.trans output')
  exact ((@readable_records_iff noTypes true 4096 Memory.empty [] _
    (fun _ member => absurd member List.not_mem_nil) rfl space).mp readable).1 rfl

end HybridDatabase.Database
