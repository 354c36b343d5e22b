/-
# What the functions of a transaction do

One lemma for each function of a handle that changes nodes: the items it pushes, what
it does to the nodes, and that undoing the items gives the nodes back.
-/

import HybridDatabase.Transaction.Nodes

namespace HybridDatabase.Transaction

open HybridDatabase.Base HybridDatabase.Storage HybridDatabase.Database

namespace Nodes

variable {nodes : Nodes} {id index x : ℕ}

/-- The `ref_count` of a node. -/
def count (nodes : Nodes) (id : ℕ) : ℕ := (nodes id).elim 0 MemoryNode.refCount

theorem setRefCount_apply (nodes : Nodes) (id c x : ℕ) :
    nodes.setRefCount id c x =
      if x = id then (nodes id).map fun node => { node with refCount := c } else nodes x := by
  by_cases here : x = id
  · subst here
    simp [setRefCount]
  · simp [setRefCount, here]

theorem setValue_apply (nodes : Nodes) (id index : ℕ) (value : Value) (x : ℕ) :
    nodes.setValue id index value x =
      if x = id then (nodes id).map fun node => { node with values := node.values.set index value }
      else nodes x := by
  by_cases here : x = id
  · subst here
    simp [setValue]
  · simp [setValue, here]

@[simp]
theorem isSome_setRefCount (c : ℕ) : (nodes.setRefCount id c x).isSome = (nodes x).isSome := by
  rw [setRefCount_apply]
  split
  · next here => simp [here]
  · rfl

@[simp]
theorem isSome_setValue (value : Value) :
    (nodes.setValue id index value x).isSome = (nodes x).isSome := by
  rw [setValue_apply]
  split
  · next here => simp [here]
  · rfl

@[simp]
theorem view_setRefCount (c : ℕ) : (nodes.setRefCount id c).view = nodes.view := by
  funext x
  rw [view, setRefCount_apply]
  split
  · next here =>
      subst here
      rw [Option.map_map]
      rfl
  · rfl

theorem view_setValue_of_ne {k : ℕ} (apart : k ≠ id) (index : ℕ)
    (value : Value) : (nodes.setValue id index value).view k = nodes.view k := by
  rw [Nodes.view, Nodes.setValue_apply, if_neg apart]
  rfl

theorem view_setValue_self {node : Node}
    (found : nodes.view id = some node) (index : ℕ) (value : Value) :
    (nodes.setValue id index value).view id =
      some { node with values := node.values.set index value } := by
  obtain ⟨memory, present, same⟩ := Option.map_eq_some_iff.mp found
  rw [Nodes.view, Nodes.setValue_apply, if_pos rfl, present, ← same]
  rfl

@[simp]
theorem count_setValue (value : Value) : (nodes.setValue id index value).count x = nodes.count x := by
  rw [count, setValue_apply]
  split
  · next here =>
      subst here
      unfold count
      cases nodes x <;> rfl
  · rfl

theorem count_setRefCount (present : (nodes id).isSome) (c : ℕ) :
    (nodes.setRefCount id c).count x = if x = id then c else nodes.count x := by
  rw [count, setRefCount_apply]
  split
  · next here =>
      obtain ⟨node, found⟩ := Option.isSome_iff_exists.mp present
      rw [found]
      rfl
  · rfl

/-- The old `ref_count` put back. -/
theorem setRefCount_setRefCount {node : MemoryNode} (found : nodes id = some node) (c : ℕ) :
    (nodes.setRefCount id c).setRefCount id node.refCount = nodes := by
  funext x
  rw [setRefCount_apply, setRefCount_apply, setRefCount_apply]
  split
  · next here =>
      subst here
      simp [found]
  · rfl

/-- The old value put back. -/
theorem setValue_setValue {node : MemoryNode} {old : Value} (found : nodes id = some node)
    (there : node.values[index]? = some old) (value : Value) :
    (nodes.setValue id index value).setValue id index old = nodes := by
  obtain ⟨inside, there⟩ := List.getElem?_eq_some_iff.mp there
  funext x
  rw [setValue_apply, setValue_apply, setValue_apply]
  split
  · next here =>
      subst here
      simp [found, ← there]
  · rfl

end Nodes

namespace State

variable {T : DatabaseType} {s t : State} {id : ℕ}

theorem freeGarbage_apply (nodes : Nodes) (garbage : List ℕ) (id : ℕ) :
    freeGarbage nodes garbage id = if id ∈ garbage then none else nodes id := by
  induction garbage generalizing nodes with
  | nil => rfl
  | cons first garbage ih =>
      apply (ih (Function.update nodes first none)).trans
      by_cases here : id = first
      · subst here
        simp
      · simp [here]

/-- From `s` to `t` the items were pushed, and undoing them leads back. -/
structure Pushes (s t : State) (items : List LogItem) : Prop where
  log : t.log = s.log ++ items
  transactions : t.transactions = s.transactions
  undone : rollback logUndoItem t.nodes items = s.nodes

theorem Pushes.nothing (s : State) : Pushes s s [] := ⟨(List.append_nil _).symm, rfl, rfl⟩

theorem Pushes.trans {u : State} {items items' : List LogItem} (first : Pushes s t items)
    (second : Pushes t u items') : Pushes s u (items ++ items') where
  log := by rw [second.log, first.log, List.append_assoc]
  transactions := second.transactions.trans first.transactions
  undone := by rw [rollback_append, second.undone, first.undone]

/-- The items leave no record and no garbage. -/
def Silent (items : List LogItem) : Prop := records items = [] ∧ garbage items = []

theorem Silent.append {items items' : List LogItem} (first : Silent items)
    (second : Silent items') : Silent (items ++ items') := by
  obtain ⟨records, garbage⟩ := first
  obtain ⟨records', garbage'⟩ := second
  constructor
  · rw [Database.records, List.filterMap_append]
    exact List.append_eq_nil_iff.mpr ⟨records, records'⟩
  · rw [State.garbage, List.filterMap_append]
    exact List.append_eq_nil_iff.mpr ⟨garbage, garbage'⟩

/-- A change of a `ref_count`. -/
theorem nodeRefCountIncrease_spec (changed : s.nodeRefCountIncrease id = some t) :
    (s.nodes id).isSome ∧ t.nodes = s.nodes.setRefCount id (s.nodes.count id + 1) ∧
      t.counter = s.counter ∧ ∃ items, Pushes s t items ∧ Silent items := by
  obtain ⟨node, found, changed⟩ := Option.bind_eq_some_iff.mp changed
  cases changed
  have count : s.nodes.count id = node.refCount := by simp [Nodes.count, found]
  refine ⟨by rw [found]; rfl, by rw [count]; rfl, rfl, [.refCount id node.refCount], ?_, rfl, rfl⟩
  exact ⟨rfl, rfl, Nodes.setRefCount_setRefCount found _⟩

theorem nodeRefCountDecrease_spec (changed : s.nodeRefCountDecrease id = some t) :
    (s.nodes id).isSome ∧ 0 < s.nodes.count id ∧
      t.nodes = s.nodes.setRefCount id (s.nodes.count id - 1) ∧
      t.counter = s.counter ∧ ∃ items, Pushes s t items ∧ Silent items := by
  obtain ⟨node, found, changed⟩ := Option.bind_eq_some_iff.mp changed
  have count : s.nodes.count id = node.refCount := by simp [Nodes.count, found]
  split at changed
  · next positive =>
      cases changed
      refine ⟨by rw [found]; rfl, by rwa [count], by rw [count]; rfl, rfl,
        [.refCount id node.refCount], ?_, rfl, rfl⟩
      exact ⟨rfl, rfl, Nodes.setRefCount_setRefCount found _⟩
  · cases changed

/-- The `ref_count`s after a `Pointer` has turned from one node to another. -/
structure Turned (old target : ℕ) (nodes nodes' : Nodes) : Prop where
  view : nodes'.view = nodes.view
  count : ∀ x, (nodes x).isSome →
    nodes'.count x + (if old ≠ 0 ∧ x = old then 1 else 0) =
      nodes.count x + if x = target then 1 else 0

/-- The nodes after the first part of a write. -/
def AfterWrite (type : AttrType) (old value : Value) (nodes nodes' : Nodes) : Prop :=
  if type.kind = .pointer then
    ∃ from_ target, old = .pointer from_ ∧ value = .pointer target ∧
      Turned from_ target nodes nodes'
  else nodes' = nodes

theorem AfterWrite.view {type : AttrType} {old value : Value} {nodes nodes' : Nodes}
    (after : AfterWrite type old value nodes nodes') : nodes'.view = nodes.view := by
  unfold AfterWrite at after
  split at after
  · obtain ⟨from_, target, -, -, turned⟩ := after
    exact turned.view
  · rw [after]

theorem turned {old target : ℕ} {u : State} (dropped : s.dropReference old = some u)
    (added : u.nodeRefCountIncrease target = some t) : Turned old target s.nodes t.nodes ∧
      t.counter = s.counter ∧ ∃ items, Pushes s t items ∧ Silent items := by
  obtain ⟨present, nodes, counter, items, pushes, silent⟩ := nodeRefCountIncrease_spec added
  unfold dropReference at dropped
  split at dropped
  · next null =>
      cases dropped
      refine ⟨⟨by rw [nodes, Nodes.view_setRefCount], fun x _ => ?_⟩, counter, items, pushes,
        silent⟩
      rw [nodes, Nodes.count_setRefCount present]
      simp only [null, ne_eq, not_true_eq_false, false_and, if_false]
      split
      · next here => rw [here]
      · rfl
  · next nonnull =>
      obtain ⟨present', positive, nodes', counter', items', pushes', silent'⟩ :=
        nodeRefCountDecrease_spec dropped
      refine ⟨⟨?_, fun x _ => ?_⟩, counter.trans counter', items' ++ items, pushes'.trans pushes,
        silent'.append silent⟩
      · rw [nodes, Nodes.view_setRefCount, nodes', Nodes.view_setRefCount]
      · rw [nodes, Nodes.count_setRefCount present, nodes', Nodes.count_setRefCount present',
          Nodes.count_setRefCount present']
        by_cases here : x = old
        · subst here
          by_cases there : x = target
          · subst there
            simp only [if_true, ne_eq, nonnull, not_false_eq_true, and_self]
            omega
          · simp only [there, if_false, if_true, ne_eq, nonnull, not_false_eq_true, and_self]
            omega
        · by_cases there : x = target
          · subst there
            simp only [if_true, here, and_false, if_false]
          · simp only [there, if_false, here, and_false]

theorem attributeWrite_spec {type : AttrType} {old value : Value} {freed allocated : ℕ}
    (written : s.attributeWrite old value freed allocated type.kind = some t) :
    AfterWrite type old value s.nodes t.nodes ∧
      t.counter = s.counter ∧ ∃ items, Pushes s t items ∧ Silent items := by
  have memory : ∀ items, Silent items → (∀ nodes, rollback logUndoItem nodes items = nodes) →
      t = s.push items → t.nodes = s.nodes ∧ t.counter = s.counter ∧
        ∃ items, Pushes s t items ∧ Silent items := by
    rintro items silent undone rfl
    exact ⟨rfl, rfl, items, ⟨rfl, rfl, undone _⟩, silent⟩
  unfold AfterWrite
  cases kind : type.kind with
  | raw size =>
      rw [kind] at written
      cases written
      exact ⟨by simp, rfl, [], .nothing s, rfl, rfl⟩
  | number bits =>
      rw [kind] at written
      cases written
      exact ⟨by simp, rfl, [], .nothing s, rfl, rfl⟩
  | string =>
      rw [kind] at written
      simp only [reduceCtorEq, if_false]
      simp only [attributeWrite] at written
      split at written <;> cases written
      · exact memory [.memoryDelete freed] ⟨rfl, rfl⟩ (fun _ => rfl) rfl
      · exact memory [.memoryDelete freed, .memoryAlloc allocated] ⟨rfl, rfl⟩ (fun _ => rfl) rfl
  | rawString =>
      rw [kind] at written
      simp only [reduceCtorEq, if_false]
      simp only [attributeWrite] at written
      split at written <;> cases written
      · exact memory [.memoryDelete freed] ⟨rfl, rfl⟩ (fun _ => rfl) rfl
      · exact memory [.memoryDelete freed, .memoryAlloc allocated] ⟨rfl, rfl⟩ (fun _ => rfl) rfl
  | pointer =>
      rw [kind] at written
      simp only [if_true]
      simp only [attributeWrite] at written
      split at written
      · next from_ target =>
          obtain ⟨u, dropped, added⟩ := Option.bind_eq_some_iff.mp written
          obtain ⟨turned, others⟩ := turned dropped added
          exact ⟨⟨from_, target, rfl, rfl, turned⟩, others⟩
      · cases written

/-- A write of an attribute with an index below 256. -/
theorem trInternalWrite_spec {index : ℕ} {value : Value} {freed allocated : ℕ}
    (written : s.trInternalWrite T id index value freed allocated = some t)
    (narrow : index < 256) :
    ∃ node attr old nodes items, s.nodes id = some node ∧
      attributeAt T node.type index = some attr ∧ node.values[index]? = some old ∧
      AfterWrite attr.type old value s.nodes nodes ∧ t.nodes = nodes.setValue id index value ∧
      t.counter = s.counter ∧ Silent items ∧
      Pushes s t (items ++ [.nodeModify id index attr.type old value]) := by
  obtain ⟨node, found, written⟩ := Option.bind_eq_some_iff.mp written
  obtain ⟨attr, typed, written⟩ := Option.bind_eq_some_iff.mp written
  obtain ⟨old, there, written⟩ := Option.bind_eq_some_iff.mp written
  obtain ⟨u, first, result⟩ := Option.bind_eq_some_iff.mp written
  obtain ⟨after, counter, items, pushes, silent⟩ := attributeWrite_spec first
  cases result
  refine ⟨node, attr, old, u.nodes, items, found, typed, there, after, rfl, counter, silent,
    pushes.trans ?_⟩
  rw [Nat.mod_eq_of_lt narrow]
  have sameValues : u.nodes.view id = s.nodes.view id := by rw [after.view]
  simp only [Nodes.view, found, Option.map_some, Option.map_eq_some_iff, Node.mk.injEq] at sameValues
  obtain ⟨node', found', type, values⟩ := sameValues
  rw [← values] at there
  exact ⟨rfl, rfl, Nodes.setValue_setValue found' there value⟩

theorem trNodeCreate_spec {type : ℕ} (created : s.trNodeCreate T type id = some t) :
    type < T.nodeTypes.length ∧ s.counter < id ∧ id < 2 ^ 64 ∧
      t.nodes = Function.update s.nodes id (some (initialNode T type)) ∧ t.counter = id ∧
      (s.nodes id = none → Pushes s t [.nodeAlloc type id]) := by
  unfold trNodeCreate at created
  split at created
  · next fits =>
      obtain ⟨known, fresh, small⟩ := fits
      cases created
      refine ⟨known, fresh, small, rfl, rfl, fun absent => ⟨rfl, rfl, ?_⟩⟩
      show Function.update (Function.update s.nodes id _) id none = s.nodes
      rw [Function.update_idem, ← absent, Function.update_eq_self]
  · cases created

/-- A deletion is refused, or it only leaves its item. -/
theorem trNodeDelete_spec (deleted : s.trNodeDelete T id = some t) :
    t = s ∨ ∃ node, s.nodes id = some node ∧ node.refCount = 0 ∧
      hasPointers T node.type = false ∧ t = s.push [.nodeDelete id] := by
  obtain ⟨node, found, deleted⟩ := Option.bind_eq_some_iff.mp deleted
  split at deleted
  · cases deleted
    exact .inl rfl
  · next unreferenced =>
      split at deleted
      · cases deleted
      · next plain =>
          cases deleted
          exact .inr ⟨node, found, not_not.mp unreferenced, by simpa using plain, rfl⟩

end State

end HybridDatabase.Transaction
