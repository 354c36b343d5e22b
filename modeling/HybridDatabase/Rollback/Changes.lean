/-
# Logged changes

Every function that changes memory pushes the items that undo it.  `Done` says so for a whole
call: its items lead back from every mixture of the old and the new contents, and apart from
locks nothing else of the handle has changed.
-/

import HybridDatabase.Rollback.Nested

namespace HybridDatabase.Rollback

open HybridDatabase.Base HybridDatabase.Storage HybridDatabase.Database HybridDatabase.Utils

/-! ## Items of writes -/

namespace LogItem

variable {m : Contents}

/-- The item of a write to an object puts the old bytes back. -/
theorem undoWrite_ofMemory {old : Contents} {ptr size : ℕ} (fits : size ≤ maxAttrSize) :
    undoWrite m (ofMemory old ptr size) = m.write ptr (old.read ptr size) := by
  have small : (ofMemory old ptr size).size.toNat = size :=
    Nat.mod_eq_of_lt (Nat.lt_of_le_of_lt fits (by decide))
  have saved : (ofMemory old ptr size).data.take size = old.read ptr size :=
    take_copyOld _ old ptr (Nat.le_trans fits (by decide))
  rw [undoWrite, small, saved]
  rfl

/-- The item of a write to an attribute does, whatever has been copied into `data_new`. -/
theorem undoWrite_ofAttribute {T : DatabaseType} {L : NodeLayout T} {old : Contents}
    {node type index : ℕ} {a : NodeAttribute} (at_ : attributeAt T type index = some a)
    (new : Bytes) :
    undoWrite m ((ofAttribute old node index (L.offset type index) a.type).copyNew new) =
      m.write (node + L.offset type index)
        (old.read (node + L.offset type index) (attributeSize a.type)) := by
  have short : attributeSize a.type ≤ maxAttrSize := attributeSize_le a.type
  have room : (ofAttribute old node index (L.offset type index) a.type).data.length =
      2 * maxAttrSize := length_copy (length_ofPtr node .nodeModify) (Nat.zero_le _)
  have size : ((ofAttribute old node index (L.offset type index) a.type).copyNew new).size.toNat =
      attributeSize a.type := Nat.mod_eq_of_lt (Nat.lt_of_le_of_lt short (by decide))
  have offset : ((ofAttribute old node index (L.offset type index) a.type).copyNew
      new).offset.toNat = L.offset type index := Nat.mod_eq_of_lt (L.offset_lt at_)
  have saved : ((ofAttribute old node index (L.offset type index) a.type).copyNew new).data.take
      (attributeSize a.type) = old.read (node + L.offset type index) (attributeSize a.type) := by
    rw [← take_dataOld short, dataOld_copyNew room, take_dataOld short]
    exact take_copyOld _ old _ (Nat.le_trans short (by decide))
  rw [undoWrite, size, offset, saved]
  rfl

end LogItem

namespace State

variable {T : DatabaseType} {L : NodeLayout T} {source : PageAlloc} {s t u : State}
  {items : List LogItem}

/-! ## Calls and their items -/

/-- The items have been pushed, lead back from mixtures, and nothing else has changed but
locks. -/
structure Done (L : NodeLayout T) (source : PageAlloc) (s t : State) (items : List LogItem) :
    Prop where
  memory : s.memory.Restores L t.memory items
  log : t.handle.log =
    items.foldl (fun log item => log.push logBlockSize source item) s.handle.log
  readSet : t.handle.readSet = s.handle.readSet
  transactions : t.handle.transactions = s.handle.transactions
  commitType : t.handle.commitType = s.handle.commitType
  startTime : t.handle.startTime = s.handle.startTime

/-- The same but for locks. -/
structure SameButLocks (s t : State) : Prop where
  memory : t.memory = s.memory
  log : t.handle.log = s.handle.log
  readSet : t.handle.readSet = s.handle.readSet
  transactions : t.handle.transactions = s.handle.transactions
  commitType : t.handle.commitType = s.handle.commitType
  startTime : t.handle.startTime = s.handle.startTime

theorem sameButLocks_utilLock {object : ℕ} {ok : Bool}
    (returned : utilLock object s = some (ok, t)) : SameButLocks s t := by
  unfold utilLock at returned
  simp only at returned
  split at returned
  · split at returned
    · rw [← (Prod.mk.inj (Option.some.inj returned)).2]
      exact ⟨rfl, rfl, rfl, rfl, rfl, rfl⟩
    · rw [← (Prod.mk.inj (Option.some.inj returned)).2]
      exact ⟨rfl, rfl, rfl, rfl, rfl, rfl⟩
  · rw [← (Prod.mk.inj (Option.some.inj returned)).2]
    exact ⟨rfl, rfl, rfl, rfl, rfl, rfl⟩

namespace Done

theorem refl (s : State) : Done L source s s [] :=
  ⟨Memory.Restores.refl s.memory, rfl, rfl, rfl, rfl, rfl⟩

theorem locked (done : Done L source s t items) (same : SameButLocks t u) :
    Done L source s u items where
  memory := same.memory ▸ done.memory
  log := same.log.trans done.log
  readSet := same.readSet.trans done.readSet
  transactions := same.transactions.trans done.transactions
  commitType := same.commitType.trans done.commitType
  startTime := same.startTime.trans done.startTime

theorem after (done : Done L source t u items) (same : SameButLocks s t) :
    Done L source s u items where
  memory := same.memory ▸ done.memory
  log := same.log ▸ done.log
  readSet := done.readSet.trans same.readSet
  transactions := done.transactions.trans same.transactions
  commitType := done.commitType.trans same.commitType
  startTime := done.startTime.trans same.startTime

/-- An item is pushed after a change of memory that it undoes. -/
theorem push (done : Done L source s t items) (handle : u.handle = t.handle) {item : LogItem}
    (restores : s.memory.Restores L u.memory (items ++ [item])) :
    Done L source s (u.push source item) (items ++ [item]) where
  memory := restores
  log := by
    rw [List.foldl_append, ← done.log, ← handle]
    rfl
  readSet := (congrArg Handle.readSet handle).trans done.readSet
  transactions := (congrArg Handle.transactions handle).trans done.transactions
  commitType := (congrArg Handle.commitType handle).trans done.commitType
  startTime := (congrArg Handle.startTime handle).trans done.startTime

/-- `trMemoryInternalWrite_`. -/
theorem memoryWrite (done : Done L source s t items) (ptr : ℕ) {val : Bytes}
    (fits : val.length ≤ maxAttrSize) :
    Done L source s (t.trMemoryInternalWrite source ptr val)
      (items ++ [LogItem.ofMemory t.memory.contents ptr val.length]) :=
  done.push (u := t.store ptr val) rfl <|
    done.memory.write (.inl rfl) (fun _ => LogItem.undoWrite_ofMemory fits) (.inr rfl)
      fun _ outside => Contents.write_outside outside

/-- `tr_memory_free`. -/
theorem memoryFree (done : Done L source s t items) (p : ℕ) :
    Done L source s (t.trMemoryFree source p) (items ++ [.ofPtr p .memoryDelete]) :=
  done.push rfl (done.memory.idle (.inr rfl))

/-- `tr_memory_alloc`, with what is stored in the block. -/
theorem memoryAlloc (done : Done L source s t items) {p size : ℕ}
    (fresh : Fresh L t.memory p (max size 16)) {m : Contents}
    (outside : ∀ x, x < p ∨ p + max size 16 ≤ x → m x = t.memory.contents x) :
    Done L source s { t.trMemoryAlloc source p size with
      memory := { (t.trMemoryAlloc source p size).memory with contents := m } }
      (items ++ [.ofPtr p .memoryAlloc]) := by
  let filled : Memory := { t.memory with
    contents := m
    blocks := Function.update t.memory.blocks p (some (max size 16)) }
  exact done.push (u := { t with memory := filled }) rfl
    (done.memory.alloc fresh.1 fresh.2.2.1 fresh.2.2.2 outside)

end Done

/-! ## Functions that push items -/

/-- The function can go on after a logged change. -/
def Logged (L : NodeLayout T) (source : PageAlloc) (f : Op) : Prop :=
  ∀ {s t u items ok}, Done L source s t items → f t = some (ok, u) →
    ∃ items', Done L source s u items'

namespace Logged

theorem answer (ok : Bool) : Logged L source (Op.answer ok) := by
  intro s t u items _ done returned
  rw [← (Prod.mk.inj (Option.some.inj returned)).2]
  exact ⟨items, done⟩

theorem andThen {first second : Op} (one : Logged L source first) (two : Logged L source second) :
    Logged L source (first.andThen second) := by
  intro s t u items ok done returned
  obtain ⟨⟨ok', v⟩, moved, rest⟩ := Option.bind_eq_some_iff.mp returned
  obtain ⟨items', done'⟩ := one done moved
  cases ok' with
  | true => exact two done' rest
  | false =>
      rw [← (Prod.mk.inj (Option.some.inj rest)).2]
      exact ⟨items', done'⟩

theorem utilLock (object : ℕ) : Logged L source (State.utilLock object) :=
  fun done returned => ⟨_, done.locked (sameButLocks_utilLock returned)⟩

theorem setRefCount (node refCount : ℕ) : Logged L source (State.setRefCount source node refCount) := by
  intro s t u items ok done returned
  rw [← (Prod.mk.inj (Option.some.inj returned)).2]
  exact ⟨_, done.memoryWrite node (by rw [length_wordBytes]; decide)⟩

theorem nodeRefCountIncrease (node : ℕ) :
    Logged L source (State.nodeRefCountIncrease source node) := by
  intro s t u items ok done returned
  unfold State.nodeRefCountIncrease at returned
  split at returned
  · cases returned
  · exact Logged.andThen (utilLock node) (fun done returned => setRefCount node _ done returned)
      done returned

theorem nodeRefCountDecrease (node : ℕ) :
    Logged L source (State.nodeRefCountDecrease source node) := by
  intro s t u items ok done returned
  unfold State.nodeRefCountDecrease at returned
  split at returned
  · cases returned
  · refine Logged.andThen (utilLock node) (fun done returned => ?_) done returned
    split at returned
    · exact setRefCount node _ done returned
    · cases returned

end Logged

/-! ## Writes to attributes -/

/-- A state differs from another one at most in the bytes of an attribute. -/
structure ExceptAt (t u : State) (address size : ℕ) : Prop where
  handle : u.handle = t.handle
  nodes : u.memory.nodes = t.memory.nodes
  blocks : u.memory.blocks = t.memory.blocks
  outside : ∀ x, x < address ∨ address + size ≤ x → u.memory.contents x = t.memory.contents x

theorem ExceptAt.refl (t : State) (address size : ℕ) : ExceptAt t t address size :=
  ⟨rfl, rfl, rfl, fun _ _ => rfl⟩

theorem ExceptAt.store (t : State) (address : ℕ) (bytes : Bytes) :
    ExceptAt t (t.store address bytes) address bytes.length :=
  ⟨rfl, rfl, rfl, fun _ outside => Contents.write_outside outside⟩

theorem ExceptAt.assign (t : State) (type : AttrType) (attr value : ℕ) :
    ExceptAt t (t.assign type attr value) attr (attributeSize type) := by
  have stored := ExceptAt.store t attr (t.load value (attributeSize type))
  rwa [load, Contents.length_read] at stored

/-- `attribute_write` of a type that points to memory of its own. -/
theorem attributeWriteBlock_done {attr value p : ℕ} {length address : State → ℕ}
    (same : length (s.trMemoryFree source (s.loadWord attr)) = length s)
    (fresh : Fresh L s.memory p (max (length s) 16)) :
    ∃ u items, Done L source s u items ∧
      ExceptAt u (s.attributeWriteBlock source attr value p length address) attr 8 := by
  unfold attributeWriteBlock
  split
  · exact ⟨s, [], .refl s, .refl s attr 8⟩
  have freed := (Done.refl s : Done L source s s []).memoryFree (s.loadWord attr)
  simp only
  split
  · exact ⟨_, _, freed, .store _ attr (wordBytes 0)⟩
  · set bytes := (s.trMemoryFree source (s.loadWord attr)).load
      (address (s.trMemoryFree source (s.loadWord attr)))
      (length (s.trMemoryFree source (s.loadWord attr))) with copied
    have long : bytes.length = length s := (Contents.length_read _ _ _).trans same
    have allocated := freed.memoryAlloc (m := s.memory.contents.write p bytes) fresh fun x outside =>
      Contents.write_outside (by omega)
    rw [same]
    exact ⟨_, _, allocated, .store _ attr (wordBytes p)⟩

/-- `attribute_write_Pointer`. -/
theorem attributeWritePointer_done {attr value : ℕ} {ok : Bool}
    (returned : attributeWritePointer source attr value s = some (ok, t)) :
    ∃ u items, Done L source s u items ∧ ExceptAt u t attr 8 := by
  unfold attributeWritePointer at returned
  simp only at returned
  obtain ⟨⟨dropped, v⟩, drop, rest⟩ := Option.bind_eq_some_iff.mp returned
  have first : ∃ items, Done L source s v items := by
    split at drop
    · exact Logged.answer true (.refl s) drop
    · exact Logged.nodeRefCountDecrease _ (.refl s) drop
  obtain ⟨items, done⟩ := first
  cases dropped with
  | false =>
      rw [← (Prod.mk.inj (Option.some.inj rest)).2]
      exact ⟨v, items, done, .refl v attr 8⟩
  | true =>
      obtain ⟨⟨taken, w⟩, take, rest⟩ := Option.bind_eq_some_iff.mp rest
      obtain ⟨items', done'⟩ := Logged.nodeRefCountIncrease _ done take
      cases taken with
      | false =>
          rw [← (Prod.mk.inj (Option.some.inj rest)).2]
          exact ⟨w, items', done', .refl w attr 8⟩
      | true =>
          rw [← (Prod.mk.inj (Option.some.inj rest)).2]
          exact ⟨w, items', done', .assign w .pointer attr value⟩

/-- `attribute_write` of any type. -/
theorem attributeWrite_done {type : AttrType} {attr value p : ℕ} {ok : Bool}
    (fresh : OwnsMemory type → Fresh L s.memory p (max (s.contentLength type value) 16))
    (returned : attributeWrite source type attr value p s = some (ok, t)) :
    ∃ u items, Done L source s u items ∧ ExceptAt u t attr (attributeSize type) := by
  unfold attributeWrite at returned
  unfold contentLength at fresh
  cases kind : type.kind with
  | raw size =>
      rw [kind] at returned
      rw [← (Prod.mk.inj (Option.some.inj returned)).2]
      exact ⟨s, [], .refl s, .assign s type attr value⟩
  | number bits =>
      rw [kind] at returned
      rw [← (Prod.mk.inj (Option.some.inj returned)).2]
      exact ⟨s, [], .refl s, .assign s type attr value⟩
  | string =>
      rw [kind] at returned fresh
      rw [← (Prod.mk.inj (Option.some.inj returned)).2, attributeSize, kind]
      exact attributeWriteBlock_done rfl (fresh (.inl kind))
  | rawString =>
      rw [kind] at returned fresh
      rw [← (Prod.mk.inj (Option.some.inj returned)).2, attributeSize, kind]
      exact attributeWriteBlock_done rfl (fresh (.inr kind))
  | pointer =>
      rw [kind] at returned
      rw [attributeSize, kind]
      exact attributeWritePointer_done returned

/-- The item of a write to an attribute is pushed; it holds the value that stood there before
anything else was changed. -/
theorem Done.modify (done : Done L source s t items) {node type index : ℕ} {a : NodeAttribute}
    (at_ : attributeAt T type index = some a)
    (changed : ExceptAt t u (node + L.offset type index) (attributeSize a.type)) (new : Bytes) :
    ∃ items, Done L source s (u.push source
      ((LogItem.ofAttribute s.memory.contents node index (L.offset type index) a.type).copyNew
        new)) items := by
  have memory : u.memory = ⟨u.memory.contents, t.memory.nodes, t.memory.blocks⟩ := by
    rw [← changed.nodes, ← changed.blocks]
  refine ⟨_, done.push changed.handle ?_⟩
  rw [memory]
  exact done.memory.write (.inr rfl) (fun _ => LogItem.undoWrite_ofAttribute at_ new) (.inl rfl)
    changed.outside

/-- `trInternalWrite_`. -/
theorem trInternalWrite_done {node type index : ℕ} {a : NodeAttribute} {value p : ℕ} {ok : Bool}
    (at_ : attributeAt T type index = some a)
    (fresh : OwnsMemory a.type → Fresh L s.memory p (max (s.contentLength a.type value) 16))
    (returned : trInternalWrite L source node type index a value p s = some (ok, t)) :
    ∃ items, Done L source s t items := by
  unfold trInternalWrite at returned
  simp only at returned
  split at returned
  · rw [← (Prod.mk.inj (Option.some.inj returned)).2]
    exact (Done.refl s).modify at_ (.assign s a.type _ value) _
  · obtain ⟨⟨ok', v⟩, written, pushed⟩ := Option.map_eq_some_iff.mp returned
    obtain ⟨u, items, done, changed⟩ := attributeWrite_done fresh written
    rw [← (Prod.mk.inj pushed).2]
    exact done.modify at_ changed _

/-- `trWrite_`. -/
theorem trWrite_done {node type index : ℕ} {a : NodeAttribute} {value p : ℕ} {ok : Bool}
    (at_ : attributeAt T type index = some a)
    (fresh : OwnsMemory a.type → Fresh L s.memory p (max (s.contentLength a.type value) 16))
    (returned : trWrite L source node type index a value p s = some (ok, t)) :
    ∃ items, Done L source s t items := by
  obtain ⟨⟨ok', u⟩, locked, rest⟩ := Option.bind_eq_some_iff.mp returned
  have same := sameButLocks_utilLock locked
  cases ok' with
  | false =>
      rw [← (Prod.mk.inj (Option.some.inj rest)).2]
      exact ⟨[], (Done.refl s).locked same⟩
  | true =>
      have length : u.contentLength a.type value = s.contentLength a.type value := by
        unfold contentLength loadWord load
        rw [same.memory]
      obtain ⟨items, done⟩ := trInternalWrite_done at_
        (fun owns => by rw [same.memory, length]; exact fresh owns) rest
      exact ⟨items, done.after same⟩

end State

end HybridDatabase.Rollback
