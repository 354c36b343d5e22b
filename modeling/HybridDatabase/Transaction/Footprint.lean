/-
# Operations keep to their locks

An operation changes only nodes whose locks its handle holds, and all that it does is in
the log: undoing the items leads back.  An operation that answers `true` has looked at
such nodes only, so it does the same where the nodes under the locks of other handles are
different ones.

`Local` says so, with rules for the ways in which operations are put together.
-/

import HybridDatabase.Transaction.Shared

namespace HybridDatabase.Transaction

open HybridDatabase.Base HybridDatabase.Storage HybridDatabase.Database

/-! ## Undoing node by node -/

/-- The node that an item is about. -/
def touched : LogItem → Option ℕ
  | .refCount id _ | .nodeModify id .. | .nodeAlloc _ id | .nodeDelete id => some id
  | .raw .. | .memoryAlloc _ | .memoryDelete _ => none

theorem logUndoItem_pointwise : Pointwise State.logUndoItem := by
  intro nodes nodes' item id same
  cases item with
  | refCount id' c =>
      simp only [State.logUndoItem, Nodes.setRefCount_apply]
      split
      · next here =>
          subst here
          rw [same]
      · exact same
  | nodeModify id' index type old new =>
      simp only [State.logUndoItem, Nodes.setValue_apply]
      split
      · next here =>
          subst here
          rw [same]
      · exact same
  | nodeAlloc type id' =>
      simp only [State.logUndoItem, Function.update_apply]
      split
      · rfl
      · exact same
  | nodeDelete | raw | memoryAlloc | memoryDelete => exact same

theorem logUndoItem_spares {item : LogItem} {id : ℕ} (apart : touched item ≠ some id) :
    Spares State.logUndoItem item id := by
  intro nodes
  cases item with
  | refCount id' c =>
      have ne : id ≠ id' := fun same => apart (by rw [same]; rfl)
      simp only [State.logUndoItem, Nodes.setRefCount_apply, if_neg ne]
  | nodeModify id' index type old new =>
      have ne : id ≠ id' := fun same => apart (by rw [same]; rfl)
      simp only [State.logUndoItem, Nodes.setValue_apply, if_neg ne]
  | nodeAlloc type id' =>
      have ne : id ≠ id' := fun same => apart (by rw [same]; rfl)
      simp only [State.logUndoItem, Function.update_apply, if_neg ne]
  | nodeDelete | raw | memoryAlloc | memoryDelete => rfl

theorem mem_garbage {log : List LogItem} {id : ℕ} :
    id ∈ State.garbage log ↔ .nodeDelete id ∈ log := by
  rw [State.garbage, List.mem_filterMap]
  constructor
  · rintro ⟨item, inside, same⟩
    cases item with
    | nodeDelete id' =>
        cases same
        exact inside
    | refCount | raw | nodeModify | nodeAlloc | memoryAlloc | memoryDelete => cases same
  · exact fun inside => ⟨_, inside, rfl⟩

/-! ## What an operation may do -/

/-- The lock of the node is free or held by `h`. -/
def Mine (owner : ℕ → Option ℕ) (h id : ℕ) : Prop := owner id = none ∨ owner id = some h

/-- From `s` to `t`, an operation of `h` pushed the items. -/
structure Turns (h : ℕ) (s t : Session) (items : List LogItem) : Prop where
  pushes : State.Pushes s.toState t.toState items
  counter : s.counter ≤ t.counter
  owner : ∀ id, t.owner id = s.owner id ∨ (s.owner id = none ∧ t.owner id = some h)
  touches : ∀ item ∈ items, ∀ id, touched item = some id → t.owner id = some h
  fresh : ∀ id, t.counter < id → s.nodes id = none ∧ s.owner id = none →
    t.nodes id = none ∧ t.owner id = none
  outside : ∀ id, t.owner id ≠ some h → t.nodes id = s.nodes id

/-- Two sessions that `h` cannot tell apart as long as it keeps to nodes that it can lock. -/
structure Agrees (h : ℕ) (s s' : Session) : Prop where
  owner : s'.owner = s.owner
  counter : s'.counter = s.counter
  log : s'.log = s.log
  transactions : s'.transactions = s.transactions
  nodes : ∀ id, Mine s.owner h id → s'.nodes id = s.nodes id

/-- The nodes under the locks of other handles are as before. -/
def Foreign (h : ℕ) (s t : Session) : Prop := ∀ id, ¬ Mine s.owner h id → t.nodes id = s.nodes id

/-- `held` are locks that `h` holds when the operation starts. -/
structure Local (h : ℕ) (held : List ℕ) (op : Op) : Prop where
  turns : ∀ s ok t, (∀ id ∈ held, s.owner id = some h) → op s = some (ok, t) →
    ∃ items, Turns h s t items
  frame : ∀ s s' t, (∀ id ∈ held, s.owner id = some h) → Agrees h s s' →
    op s = some (true, t) → ∃ t', op s' = some (true, t') ∧ Agrees h t t' ∧ Foreign h s' t'

namespace Turns

variable {h : ℕ} {s t u : Session} {items items' : List LogItem}

theorem nothing (s : Session) : Turns h s s [] where
  pushes := .nothing _
  counter := Nat.le_refl _
  owner _ := .inl rfl
  touches := by simp
  fresh _ _ absent := absent
  outside _ _ := rfl

/-- Locks are not given back. -/
theorem keeps (turns : Turns h s t items) {id : ℕ} (held : s.owner id = some h) :
    t.owner id = some h := by
  rcases turns.owner id with same | ⟨free, -⟩
  · rw [same, held]
  · rw [held] at free
    cases free

theorem mine (turns : Turns h s t items) {id : ℕ} : Mine t.owner h id → Mine s.owner h id := by
  rcases turns.owner id with same | ⟨free, -⟩
  · rw [Mine, Mine, same]
    exact fun mine => mine
  · exact fun _ => .inl free

theorem trans (first : Turns h s t items) (second : Turns h t u items') :
    Turns h s u (items ++ items') where
  pushes := first.pushes.trans second.pushes
  counter := first.counter.trans second.counter
  owner id := by
    rcases second.owner id with same | ⟨free, taken⟩
    · rw [same]
      exact first.owner id
    · rcases first.owner id with same | ⟨-, taken'⟩
      · exact .inr ⟨same ▸ free, taken⟩
      · rw [free] at taken'
        cases taken'
  touches item inside id about := by
    rcases List.mem_append.mp inside with old | new
    · exact second.keeps (first.touches item old id about)
    · exact second.touches item new id about
  fresh id above absent :=
    second.fresh id above (first.fresh id (Nat.lt_of_le_of_lt second.counter above) absent)
  outside id apart := by
    rw [second.outside id apart, first.outside id fun held => apart (second.keeps held)]

end Turns

namespace Op

variable {first second op : Op} {s t : Session} {ok : Bool}

theorem andThen_eq_some : first.andThen second s = some (ok, t) ↔
    (∃ u, first s = some (true, u) ∧ second u = some (ok, t)) ∨
      (ok = false ∧ first s = some (false, t)) := by
  rw [andThen, Option.bind_eq_some_iff]
  constructor
  · rintro ⟨⟨answer, u⟩, before, after⟩
    cases answer with
    | true => exact .inl ⟨u, before, after⟩
    | false =>
        cases after
        exact .inr ⟨rfl, before⟩
  · rintro (⟨u, before, after⟩ | ⟨rfl, before⟩)
    · exact ⟨_, before, after⟩
    · exact ⟨_, before, rfl⟩

theorem andThen_eq_true : first.andThen second s = some (true, t) ↔
    ∃ u, first s = some (true, u) ∧ second u = some (true, t) := by
  rw [andThen_eq_some]
  constructor
  · rintro (both | ⟨no, -⟩)
    · exact both
    · cases no
  · exact .inl

/-- A second operation answers where the first one answered `true`. -/
theorem andThen_isSome (one : (first s).isSome)
    (two : ∀ t, first s = some (true, t) → (second t).isSome) : (first.andThen second s).isSome := by
  obtain ⟨⟨ok, t⟩, result⟩ := Option.isSome_iff_exists.mp one
  rw [andThen, result, Option.bind_some]
  cases ok with
  | true => exact two t result
  | false => rfl

theorem change_eq_some {f : State → Option State} : Op.change f s = some (ok, t) ↔
    ok = true ∧ ∃ u, f s.toState = some u ∧ t = { s with toState := u } := by
  rw [change, Option.map_eq_some_iff]
  constructor
  · rintro ⟨u, changed, same⟩
    cases same
    exact ⟨rfl, u, changed, rfl⟩
  · rintro ⟨rfl, u, changed, rfl⟩
    exact ⟨u, changed, rfl⟩

end Op

theorem utilLock_eq_some {h id : ℕ} {granted ok : Bool} {s t : Session} :
    utilLock h id granted s = some (ok, t) ↔ (s.nodes id).isSome ∧
      ((Grants s.owner h id granted ∧ ok = true ∧
          t = { s with owner := Function.update s.owner id (some h) }) ∨
        (¬ Grants s.owner h id granted ∧ ok = false ∧ t = s)) := by
  rw [utilLock, Op.withNode, Option.bind_eq_some_iff, Option.isSome_iff_exists]
  constructor
  · rintro ⟨node, found, result⟩
    refine ⟨⟨node, found⟩, ?_⟩
    split at result
    · next grants =>
        cases result
        exact .inl ⟨grants, rfl, rfl⟩
    · next refuses =>
        cases result
        exact .inr ⟨refuses, rfl, rfl⟩
  · rintro ⟨⟨node, found⟩, ⟨grants, rfl, rfl⟩ | ⟨refuses, rfl, rfl⟩⟩
    · exact ⟨node, found, if_pos grants⟩
    · exact ⟨node, found, if_neg refuses⟩

theorem Turns.lock {h id : ℕ} {granted : Bool} {s : Session} (present : (s.nodes id).isSome)
    (grants : Grants s.owner h id granted) :
    Turns h s { s with owner := Function.update s.owner id (some h) } [] where
  pushes := .nothing _
  counter := Nat.le_refl _
  owner x := by
    by_cases here : x = id
    · subst here
      simp only [Function.update_self, and_true]
      rcases grants.2 with free | held
      · exact .inr free
      · exact .inl held.symm
    · exact .inl (Function.update_of_ne here _ _)
  touches := by simp
  fresh x _ absent := by
    refine ⟨absent.1, (Function.update_of_ne ?_ _ _).trans absent.2⟩
    rintro rfl
    rw [absent.1] at present
    cases present
  outside _ _ := rfl

theorem taken {h id : ℕ} {held : List ℕ} {s : Session} (locks : ∀ x ∈ held, s.owner x = some h) :
    ∀ x ∈ id :: held, Function.update s.owner id (some h) x = some h := by
  intro x inside
  by_cases here : x = id
  · rw [here, Function.update_self]
  · rw [Function.update_of_ne here]
    exact locks x ((List.mem_cons.mp inside).resolve_left here)

theorem utilLock_isSome {h id : ℕ} {granted : Bool} {s : Session} (present : (s.nodes id).isSome) :
    (utilLock h id granted s).isSome := by
  obtain ⟨node, found⟩ := Option.isSome_iff_exists.mp present
  rw [utilLock, Op.withNode, found, Option.bind_some]
  split <;> rfl

/-- A lock that is taken. -/
theorem utilLock_eq_true {h id : ℕ} {granted : Bool} {s t : Session}
    (locked : utilLock h id granted s = some (true, t)) :
    Grants s.owner h id granted ∧ t = { s with owner := Function.update s.owner id (some h) } := by
  obtain ⟨-, ⟨grants, -, same⟩ | ⟨-, no, -⟩⟩ := utilLock_eq_some.mp locked
  · exact ⟨grants, same⟩
  · cases no

/-- A change of one node that its items undo. -/
structure Changes (id : ℕ) (f : State → Option State) : Prop where
  pushes : ∀ s t, f s = some t → ∃ items, State.Pushes s t items ∧
    ∀ item ∈ items, ∀ x, touched item = some x → x = id
  counter : ∀ s t, f s = some t → t.counter = s.counter
  present : ∀ s t, f s = some t → (t.nodes id).isSome = (s.nodes id).isSome
  outside : ∀ s t, f s = some t → ∀ x, x ≠ id → t.nodes x = s.nodes x
  frame : ∀ s s' t, s'.counter = s.counter → s'.log = s.log → s'.transactions = s.transactions →
    s'.nodes id = s.nodes id → f s = some t →
      ∃ t', f s' = some t' ∧ t'.counter = t.counter ∧ t'.log = t.log ∧
        t'.transactions = t.transactions ∧ t'.nodes id = t.nodes id

namespace Local

variable {h : ℕ} {held held' : List ℕ} {first second op : Op}

theorem answer (ok : Bool) : Local h held (.answer ok) where
  turns := by
    rintro s ok t - result
    cases result
    exact ⟨[], .nothing s⟩
  frame := by
    rintro s s' t - agrees result
    cases result
    exact ⟨s', rfl, agrees, fun _ _ => rfl⟩

/-- Where the code would stop. -/
theorem crash : Local h held (fun _ => none) where
  turns := by
    rintro s ok t - result
    cases result
  frame := by
    rintro s s' t - - result
    cases result

theorem andThen (one : Local h held first) (two : Local h held second) :
    Local h held (first.andThen second) where
  turns := by
    intro s ok t locks result
    rcases Op.andThen_eq_some.mp result with ⟨u, before, after⟩ | ⟨-, before⟩
    · obtain ⟨items, turns⟩ := one.turns s true u locks before
      obtain ⟨items', turns'⟩ :=
        two.turns u ok t (fun id inside => turns.keeps (locks id inside)) after
      exact ⟨_, turns.trans turns'⟩
    · exact one.turns s false t locks before
  frame := by
    intro s s' t locks agrees result
    obtain ⟨u, before, after⟩ := Op.andThen_eq_true.mp result
    obtain ⟨items, turns⟩ := one.turns s true u locks before
    obtain ⟨u', before', agrees', foreign⟩ := one.frame s s' u locks agrees before
    obtain ⟨t', after', agrees'', foreign'⟩ := two.frame u u' t
      (fun id inside => turns.keeps (locks id inside)) agrees' after
    refine ⟨t', Op.andThen_eq_true.mpr ⟨u', before', after'⟩, agrees'', fun id other => ?_⟩
    rw [foreign' id, foreign id other]
    rw [agrees'.owner]
    exact fun mine => other (agrees.owner ▸ turns.mine mine)

/-- What follows once the lock is taken. -/
theorem lock (id : ℕ) (granted : Bool) (one : Local h (id :: held) op) :
    Local h held ((utilLock h id granted).andThen op) where
  turns := by
    intro s ok t locks result
    rcases Op.andThen_eq_some.mp result with ⟨u, before, after⟩ | ⟨-, before⟩
    · obtain ⟨present, ⟨grants, -, rfl⟩ | ⟨-, no, -⟩⟩ := utilLock_eq_some.mp before
      · obtain ⟨items, turns⟩ := one.turns _ ok t (taken locks) after
        exact ⟨_, (Turns.lock present grants).trans turns⟩
      · cases no
    · obtain ⟨-, ⟨-, no, -⟩ | ⟨-, -, rfl⟩⟩ := utilLock_eq_some.mp before
      · cases no
      · exact ⟨[], .nothing _⟩
  frame := by
    intro s s' t locks agrees result
    obtain ⟨u, before, after⟩ := Op.andThen_eq_true.mp result
    obtain ⟨present, ⟨grants, -, rfl⟩ | ⟨-, no, -⟩⟩ := utilLock_eq_some.mp before
    · have grants' : Grants s'.owner h id granted := agrees.owner ▸ grants
      have present' : (s'.nodes id).isSome := by
        rw [agrees.nodes id grants.2]
        exact present
      have agrees' : Agrees h { s with owner := Function.update s.owner id (some h) }
          { s' with owner := Function.update s'.owner id (some h) } :=
        ⟨congrArg (Function.update · id (some h)) agrees.owner, agrees.counter, agrees.log,
          agrees.transactions, fun x mine => agrees.nodes x ((Turns.lock present grants).mine mine)⟩
      obtain ⟨t', after', agrees'', foreign⟩ := one.frame _ _ t (taken locks) agrees' after
      refine ⟨t', Op.andThen_eq_true.mpr ⟨_, utilLock_eq_some.mpr ⟨present', .inl ⟨grants', rfl,
        rfl⟩⟩, after'⟩, agrees'', fun x other => foreign x fun mine => other ?_⟩
      exact (Turns.lock present' grants').mine mine
    · cases no

theorem change {id : ℕ} {f : State → Option State} (changes : Changes id f) (inside : id ∈ held) :
    Local h held (.change f) where
  turns := by
    intro s ok t locks result
    obtain ⟨rfl, u, changed, rfl⟩ := Op.change_eq_some.mp result
    obtain ⟨items, pushes, about⟩ := changes.pushes _ _ changed
    refine ⟨items, pushes, (changes.counter _ _ changed).ge, fun _ => .inl rfl, ?_, ?_, ?_⟩
    · intro item member x touches
      rw [about item member x touches]
      exact locks id inside
    · intro x _ absent
      refine ⟨?_, absent.2⟩
      by_cases here : x = id
      · subst here
        rw [← Option.not_isSome_iff_eq_none, changes.present _ _ changed, absent.1]
        simp
      · exact (changes.outside _ _ changed x here).trans absent.1
    · intro x apart
      refine changes.outside _ _ changed x fun same => apart ?_
      rw [same]
      exact locks id inside
  frame := by
    intro s s' t locks agrees result
    obtain ⟨-, u, changed, rfl⟩ := Op.change_eq_some.mp result
    have mine : Mine s.owner h id := .inr (locks id inside)
    obtain ⟨u', changed', counter, log, transactions, same⟩ := changes.frame s.toState s'.toState u
      agrees.counter agrees.log agrees.transactions (agrees.nodes id mine) changed
    refine ⟨{ s' with toState := u' }, Op.change_eq_some.mpr ⟨rfl, u', changed', rfl⟩,
      ⟨agrees.owner, counter, log, transactions, fun x other => ?_⟩, fun x other => ?_⟩
    · by_cases here : x = id
      · rw [here]
        exact same
      · exact (changes.outside _ _ changed' x here).trans
          ((agrees.nodes x other).trans (changes.outside _ _ changed x here).symm)
    · refine changes.outside _ _ changed' x fun here => other ?_
      rw [here, agrees.owner]
      exact mine

theorem withNode {id : ℕ} {op : MemoryNode → Op} (inside : id ∈ held)
    (each : ∀ node, Local h held (op node)) : Local h held (.withNode id op) where
  turns := by
    intro s ok t locks result
    obtain ⟨node, -, result⟩ := Option.bind_eq_some_iff.mp result
    exact (each node).turns s ok t locks result
  frame := by
    intro s s' t locks agrees result
    obtain ⟨node, found, result⟩ := Option.bind_eq_some_iff.mp result
    obtain ⟨t', result', others⟩ := (each node).frame s s' t locks agrees result
    have found' : s'.nodes id = some node := by rw [agrees.nodes id (.inr (locks id inside)), found]
    exact ⟨t', Option.bind_eq_some_iff.mpr ⟨node, found', result'⟩, others⟩

end Local

/-! ## The operations -/

section

variable {h id : ℕ} {held : List ℕ} {T : DatabaseType}

theorem changes_increase (id : ℕ) : Changes id fun s => s.nodeRefCountIncrease id where
  pushes s t changed := by
    obtain ⟨node, found, changed⟩ := Option.bind_eq_some_iff.mp changed
    cases changed
    refine ⟨[.refCount id node.refCount], ⟨rfl, rfl, ?_⟩, ?_⟩
    · exact Nodes.setRefCount_setRefCount found _
    · simp [touched]
  counter s t changed := (State.nodeRefCountIncrease_spec changed).2.2.1
  present s t changed := by
    rw [(State.nodeRefCountIncrease_spec changed).2.1, Nodes.isSome_setRefCount]
  outside s t changed x apart := by
    rw [(State.nodeRefCountIncrease_spec changed).2.1, Nodes.setRefCount_apply, if_neg apart]
  frame s s' t counter log transactions same changed := by
    obtain ⟨node, found, changed⟩ := Option.bind_eq_some_iff.mp changed
    cases changed
    refine ⟨_, Option.bind_eq_some_iff.mpr ⟨node, same.trans found, rfl⟩, counter,
      congrArg (· ++ _) log, transactions, ?_⟩
    show s'.nodes.setRefCount id _ id = s.nodes.setRefCount id _ id
    rw [Nodes.setRefCount_apply, Nodes.setRefCount_apply, same]

theorem changes_decrease (id : ℕ) : Changes id fun s => s.nodeRefCountDecrease id where
  pushes s t changed := by
    obtain ⟨node, found, changed⟩ := Option.bind_eq_some_iff.mp changed
    split at changed
    · cases changed
      refine ⟨[.refCount id node.refCount], ⟨rfl, rfl, ?_⟩, ?_⟩
      · exact Nodes.setRefCount_setRefCount found _
      · simp [touched]
    · cases changed
  counter s t changed := (State.nodeRefCountDecrease_spec changed).2.2.2.1
  present s t changed := by
    rw [(State.nodeRefCountDecrease_spec changed).2.2.1, Nodes.isSome_setRefCount]
  outside s t changed x apart := by
    rw [(State.nodeRefCountDecrease_spec changed).2.2.1, Nodes.setRefCount_apply, if_neg apart]
  frame s s' t counter log transactions same changed := by
    obtain ⟨node, found, changed⟩ := Option.bind_eq_some_iff.mp changed
    split at changed
    · next positive =>
        cases changed
        refine ⟨_, Option.bind_eq_some_iff.mpr ⟨node, same.trans found, if_pos positive⟩, counter,
          congrArg (· ++ _) log, transactions, ?_⟩
        show s'.nodes.setRefCount id _ id = s.nodes.setRefCount id _ id
        rw [Nodes.setRefCount_apply, Nodes.setRefCount_apply, same]
    · cases changed

/-- Items about memory only. -/
theorem changes_push {f : State → Option State} {items : List LogItem}
    (result : ∀ s, f s = some (s.push items)) (quiet : ∀ item ∈ items, touched item = none) :
    Changes id f where
  pushes s t changed := by
    rw [result] at changed
    cases changed
    refine ⟨items, ⟨rfl, rfl, ?_⟩, fun item inside x about => ?_⟩
    · funext x
      refine rollback_of_spares fun item inside => logUndoItem_spares ?_
      rw [quiet item inside]
      exact Option.some_ne_none x |>.symm
    · rw [quiet item inside] at about
      cases about
  counter s t changed := by
    rw [result] at changed
    cases changed
    rfl
  present s t changed := by
    rw [result] at changed
    cases changed
    rfl
  outside s t changed x _ := by
    rw [result] at changed
    cases changed
    rfl
  frame s s' t counter log transactions same changed := by
    rw [result] at changed
    cases changed
    exact ⟨_, result s', counter, congrArg (· ++ _) log, transactions, same⟩

theorem local_attributeWritePointer (old target : ℕ) (locks : Locks) :
    Local h held (attributeWritePointer h old target locks) := by
  refine .andThen ?_ (.lock target locks.target (.change (changes_increase target)
    List.mem_cons_self))
  split
  · exact .answer true
  · exact .lock old locks.old (.change (changes_decrease old) List.mem_cons_self)

theorem Local.stuck {f : State → Option State} (stuck : ∀ s, f s = none) :
    Local h held (.change f) := by
  have same : Op.change f = fun _ => none := by
    funext s
    rw [Op.change, stuck, Option.map_none]
  rw [same]
  exact .crash

theorem local_attributeWrite (inside : id ∈ held) (old value : Value) (freed allocated : ℕ)
    (locks : Locks) (kind : AttrKind) :
    Local h held (attributeWrite h old value freed allocated locks kind) := by
  have memory : ∀ items, (∀ item ∈ items, touched item = none) →
      ∀ f : State → Option State, (∀ s, f s = some (s.push items)) → Local h held (.change f) :=
    fun items quiet f result => .change (changes_push result quiet) inside
  have nothing : ∀ s : State, some s = some (s.push []) := fun s => by simp [State.push]
  cases kind with
  | raw size => exact memory [] (by simp) _ nothing
  | number bits => exact memory [] (by simp) _ nothing
  | string =>
      match value with
      | .string none => exact memory [.memoryDelete freed] (by simp [touched]) _ fun _ => rfl
      | .string (some _) =>
          exact memory [.memoryDelete freed, .memoryAlloc allocated] (by simp [touched]) _
            fun _ => rfl
      | .raw _ | .number _ | .rawString _ | .pointer _ => exact .stuck fun _ => rfl
  | rawString =>
      match value with
      | .rawString none => exact memory [.memoryDelete freed] (by simp [touched]) _ fun _ => rfl
      | .rawString (some _) =>
          exact memory [.memoryDelete freed, .memoryAlloc allocated] (by simp [touched]) _
            fun _ => rfl
      | .raw _ | .number _ | .string _ | .pointer _ => exact .stuck fun _ => rfl
  | pointer =>
      simp only [attributeWrite]
      split
      · exact local_attributeWritePointer _ _ locks
      · exact .crash

/-- The operation leaves the attributes as they are, and creates no node. -/
def SameView (op : Op) : Prop := ∀ s ok t, op s = some (ok, t) →
  t.nodes.view = s.nodes.view ∧ t.counter = s.counter

theorem SameView.andThen {first second : Op} (one : SameView first) (two : SameView second) :
    SameView (first.andThen second) := by
  intro s ok t result
  rcases Op.andThen_eq_some.mp result with ⟨u, before, after⟩ | ⟨-, before⟩
  · have first := one s true u before
    have second := two u ok t after
    exact ⟨second.1.trans first.1, second.2.trans first.2⟩
  · exact one s false t before

theorem SameView.change {f : State → Option State}
    (same : ∀ s t, f s = some t → t.nodes.view = s.nodes.view ∧ t.counter = s.counter) :
    SameView (.change f) := by
  intro s ok t result
  obtain ⟨-, u, changed, rfl⟩ := Op.change_eq_some.mp result
  exact same _ u changed

theorem sameView_utilLock (granted : Bool) : SameView (utilLock h id granted) := by
  intro s ok t result
  obtain ⟨-, ⟨-, -, rfl⟩ | ⟨-, -, rfl⟩⟩ := utilLock_eq_some.mp result <;> exact ⟨rfl, rfl⟩

/-- A `Pointer` that turns changes no attribute yet. -/
theorem sameView_attributeWritePointer (old target : ℕ) (locks : Locks) :
    SameView (attributeWritePointer h old target locks) := by
  refine .andThen ?_ ((sameView_utilLock _).andThen (.change fun s t changed => ?_))
  · split
    · intro s ok t result
      cases result
      exact ⟨rfl, rfl⟩
    · refine (sameView_utilLock _).andThen (.change fun s t changed => ?_)
      obtain ⟨-, -, nodes, counter, -⟩ := State.nodeRefCountDecrease_spec changed
      exact ⟨by rw [nodes, Nodes.view_setRefCount], counter⟩
  · obtain ⟨-, nodes, counter, -⟩ := State.nodeRefCountIncrease_spec changed
    exact ⟨by rw [nodes, Nodes.view_setRefCount], counter⟩

theorem sameView_attributeWrite (old value : Value) (freed allocated : ℕ) (locks : Locks)
    (type : AttrType) :
    SameView (attributeWrite h old value freed allocated locks type.kind) := by
  have other : type.kind ≠ .pointer →
      SameView (.change fun s => s.attributeWrite old value freed allocated type.kind) := by
    refine fun _ => .change fun s t written => ?_
    obtain ⟨after, counter, -⟩ := State.attributeWrite_spec written
    exact ⟨after.view, counter⟩
  cases kind : type.kind with
  | raw | number | string | rawString =>
      rw [kind] at other
      exact other (by simp)
  | pointer =>
      simp only [attributeWrite]
      split
      · exact sameView_attributeWritePointer _ _ locks
      · intro s ok t result
        cases result

theorem trInternalWrite_eq_some {index : ℕ} {value : Value} {freed allocated : ℕ} {locks : Locks}
    {s t : Session} {ok : Bool} :
    trInternalWrite T h id index value freed allocated locks s = some (ok, t) ↔
      ∃ node attr old u, s.nodes id = some node ∧ attributeAt T node.type index = some attr ∧
        node.values[index]? = some old ∧
        attributeWrite h old value freed allocated locks attr.type.kind s = some (ok, u) ∧
        recordWrite id index attr.type old value ok u = some (ok, t) := by
  constructor
  · intro result
    obtain ⟨node, found, result⟩ := Option.bind_eq_some_iff.mp result
    obtain ⟨attr, typed, result⟩ := Option.bind_eq_some_iff.mp result
    obtain ⟨old, there, result⟩ := Option.bind_eq_some_iff.mp result
    obtain ⟨⟨ok', u⟩, written, result⟩ := Option.bind_eq_some_iff.mp result
    cases result
    exact ⟨node, attr, old, u, found, typed, there, written, rfl⟩
  · rintro ⟨node, attr, old, u, found, typed, there, written, recorded⟩
    simp only [trInternalWrite, Op.withNode, found, Option.bind_some, Option.bind_eq_bind, typed,
      there, written, recorded]

theorem local_trInternalWrite (inside : id ∈ held) (index : ℕ) (value : Value)
    (freed allocated : ℕ) (locks : Locks) :
    Local h held (trInternalWrite T h id index value freed allocated locks) where
  turns := by
    intro s ok t owned result
    obtain ⟨node, attr, old, u, found, typed, there, written, recorded⟩ :=
      trInternalWrite_eq_some.mp result
    obtain ⟨items, turns⟩ :=
      (local_attributeWrite inside old value freed allocated locks attr.type.kind).turns s ok u
        owned written
    have view := congrFun (sameView_attributeWrite old value freed allocated locks attr.type s ok u
      written).1 id
    simp only [Nodes.view, found, Option.map_some, Option.map_eq_some_iff, Node.mk.injEq] at view
    obtain ⟨node', found', -, values⟩ := view
    cases recorded
    refine ⟨_, turns.trans
      (show Turns h u _ [.nodeModify id index attr.type old (if ok then value else old)] from
        ⟨⟨rfl, rfl, ?_⟩, Nat.le_refl _, fun _ => .inl rfl, ?_, ?_, fun x apart => ?_⟩)⟩
    · exact Nodes.setValue_setValue found' (values ▸ there) _
    · simp only [List.mem_singleton, forall_eq, touched, Option.some.injEq]
      rintro x rfl
      exact turns.keeps (owned id inside)
    · intro x above absent
      refine ⟨(Nodes.setValue_apply _ _ _ _ _).trans ?_, absent.2⟩
      split
      · next here => rw [← here, absent.1, Option.map_none]
      · exact absent.1
    · refine (Nodes.setValue_apply _ _ _ _ _).trans (if_neg fun here => apart ?_)
      rw [here]
      exact turns.keeps (owned id inside)
  frame := by
    intro s s' t owned agrees result
    obtain ⟨node, attr, old, u, found, typed, there, written, recorded⟩ :=
      trInternalWrite_eq_some.mp result
    have keeps := local_attributeWrite (h := h) inside old value freed allocated locks attr.type.kind
    obtain ⟨items, turns⟩ := keeps.turns s true u owned written
    obtain ⟨u', written', agrees', foreign⟩ := keeps.frame s s' u owned agrees written
    have found' : s'.nodes id = some node := by rw [agrees.nodes id (.inr (owned id inside)), found]
    cases recorded
    refine ⟨_, trInternalWrite_eq_some.mpr ⟨node, attr, old, u', found', typed, there, written', rfl⟩,
      ⟨agrees'.owner, agrees'.counter, congrArg (· ++ _) agrees'.log, agrees'.transactions, ?_⟩, ?_⟩
    · intro x mine
      refine (Nodes.setValue_apply _ _ _ _ _).trans ((?_ : _ = _).trans
        (Nodes.setValue_apply _ _ _ _ _).symm)
      rw [agrees'.nodes x mine, agrees'.nodes id (.inr (turns.keeps (owned id inside)))]
    · intro x other
      refine ((Nodes.setValue_apply _ _ _ _ _).trans (if_neg fun here => other ?_)).trans
        (foreign x other)
      rw [here, agrees.owner]
      exact .inr (owned id inside)

theorem local_trWrite (index : ℕ) (value : Value) (freed allocated : ℕ) (locks : Locks) :
    Local h held (trWrite T h id index value freed allocated locks) :=
  .lock id locks.node (local_trInternalWrite List.mem_cons_self index value freed allocated locks)

/-- A write creates no node. -/
theorem counter_trWrite {index : ℕ} {value : Value} {freed allocated : ℕ} {locks : Locks}
    {s t : Session} {ok : Bool}
    (written : trWrite T h id index value freed allocated locks s = some (ok, t)) :
    t.counter = s.counter := by
  rcases Op.andThen_eq_some.mp written with ⟨u, locked, after⟩ | ⟨-, locked⟩
  · obtain ⟨node, attr, old, v, -, -, -, changed, recorded⟩ := trInternalWrite_eq_some.mp after
    cases recorded
    exact (sameView_attributeWrite old value freed allocated locks attr.type u ok v changed).2.trans
      (sameView_utilLock _ _ _ _ locked).2
  · exact (sameView_utilLock _ _ _ _ locked).2

/-- A change under a lock, done. -/
theorem lock_change_eq_true {granted : Bool} {f : State → Option State} {s t : Session}
    (done : ((utilLock h id granted).andThen (.change f)) s = some (true, t)) :
    f s.toState = some t.toState ∧ t.owner id = some h := by
  obtain ⟨u, locked, changed⟩ := Op.andThen_eq_true.mp done
  obtain ⟨-, ⟨-, -, rfl⟩ | ⟨-, no, -⟩⟩ := utilLock_eq_some.mp locked
  · obtain ⟨-, v, result, rfl⟩ := Op.change_eq_some.mp changed
    exact ⟨result, Function.update_self _ _ _⟩
  · cases no

/-- What `attribute_write` does when it answers `true`. -/
theorem attributeWrite_eq_true {old value : Value} {freed allocated : ℕ} {locks : Locks}
    {kind : AttrKind} {s t : Session}
    (written : attributeWrite h old value freed allocated locks kind s = some (true, t)) :
    s.toState.attributeWrite old value freed allocated kind = some t.toState ∧
      ∀ target, kind = .pointer → value = .pointer target →
        t.owner target = some h ∧ (t.nodes target).isSome := by
  have plain : ∀ kind, Op.change (fun s => s.attributeWrite old value freed allocated kind) s =
      some (true, t) → s.toState.attributeWrite old value freed allocated kind = some t.toState := by
    intro kind changed
    obtain ⟨-, u, result, rfl⟩ := Op.change_eq_some.mp changed
    exact result
  cases kind with
  | raw | number | string | rawString => exact ⟨plain _ written, by simp⟩
  | pointer =>
      simp only [attributeWrite] at written
      split at written
      · next old target =>
          obtain ⟨u, dropped, added⟩ := Op.andThen_eq_true.mp written
          obtain ⟨increased, locked⟩ := lock_change_eq_true added
          have decreased : s.toState.dropReference old = some u.toState := by
            unfold State.dropReference
            split at dropped
            · next null =>
                cases dropped
                exact if_pos null
            · next nonnull => exact (if_neg nonnull).trans (lock_change_eq_true dropped).1
          refine ⟨Option.bind_eq_some_iff.mpr ⟨_, decreased, increased⟩, ?_⟩
          rintro target - points
          cases points
          obtain ⟨present, nodes, -⟩ := State.nodeRefCountIncrease_spec increased
          exact ⟨locked, by rw [nodes, Nodes.isSome_setRefCount]; exact present⟩
      · cases written

/-- A write that is done. -/
theorem trWrite_eq_true {index : ℕ} {value : Value} {freed allocated : ℕ} {locks : Locks}
    {s t : Session}
    (written : trWrite T h id index value freed allocated locks s = some (true, t)) :
    ∃ node attr old nodes items, s.nodes id = some node ∧
      attributeAt T node.type index = some attr ∧ node.values[index]? = some old ∧
      State.AfterWrite attr.type old value s.nodes nodes ∧
      t.nodes = nodes.setValue id index value ∧ t.log = s.log ++ items ∧
      State.garbage items = [] ∧ t.owner id = some h ∧
      ∀ target, attr.type.kind = .pointer → value = .pointer target →
        t.owner target = some h ∧ (t.nodes target).isSome := by
  obtain ⟨u, locked, after⟩ := Op.andThen_eq_true.mp written
  obtain ⟨-, ⟨-, -, rfl⟩ | ⟨-, no, -⟩⟩ := utilLock_eq_some.mp locked
  · obtain ⟨node, attr, old, v, found, typed, there, changed, recorded⟩ :=
      trInternalWrite_eq_some.mp after
    obtain ⟨plain, target⟩ := attributeWrite_eq_true changed
    obtain ⟨effect, -, items, pushes, silent⟩ := State.attributeWrite_spec plain
    have keeps : Local h [id] (attributeWrite h old value freed allocated locks attr.type.kind) :=
      local_attributeWrite List.mem_cons_self old value freed allocated locks attr.type.kind
    obtain ⟨items', turns⟩ := keeps.turns _ true v (by simp) changed
    cases recorded
    refine ⟨node, attr, old, v.nodes, items ++ [.nodeModify id index attr.type old value], found,
      typed, there, effect, rfl, ?_, ?_, turns.keeps (Function.update_self _ _ _),
      fun x pointer points => ?_⟩
    · show v.log ++ _ = s.log ++ _
      rw [pushes.log, List.append_assoc]
      rfl
    · rw [State.garbage, List.filterMap_append]
      exact List.append_eq_nil_iff.mpr ⟨silent.2, rfl⟩
    · obtain ⟨locked, present⟩ := target x pointer points
      exact ⟨locked, (Nodes.isSome_setValue value).trans present⟩
  · cases no

/-- `tr_node_delete` of a node that is refused or has no `Pointer`. -/
def deletePlain (T : DatabaseType) (h id : ℕ) (granted indexed : Bool) : Op :=
  (utilLock h id granted).andThen (.withNode id fun node =>
    if node.refCount ≠ 0 then .answer false
    else if indexed = false then .answer false
    else if State.hasPointers T node.type then fun _ => none
    else .change fun s => some (s.push [.nodeDelete id]))

theorem changes_delete (id : ℕ) : Changes id fun s => some (s.push [.nodeDelete id]) where
  pushes s t changed := by
    cases changed
    exact ⟨[.nodeDelete id], ⟨rfl, rfl, rfl⟩, by simp [touched]⟩
  counter s t changed := by
    cases changed
    rfl
  present s t changed := by
    cases changed
    rfl
  outside s t changed x _ := by
    cases changed
    rfl
  frame s s' t counter log transactions same changed := by
    cases changed
    exact ⟨_, rfl, counter, congrArg (· ++ _) log, transactions, same⟩

theorem local_deletePlain (granted indexed : Bool) :
    Local h held (deletePlain T h id granted indexed) := by
  refine .lock id granted (.withNode List.mem_cons_self fun node => ?_)
  split
  · exact .answer false
  · split
    · exact .answer false
    · split
      · exact .crash
      · exact .change (changes_delete id) List.mem_cons_self

theorem pointerIndexes_of_plain {type : ℕ} (plain : State.hasPointers T type = false) :
    pointerIndexes T type = [] := by
  rw [State.hasPointers, List.any_eq_false] at plain
  simp only [pointerIndexes, List.filter_eq_nil_iff, List.mem_range]
  intro index inside
  rw [List.getElem?_eq_getElem inside, Option.any_some]
  exact plain _ (List.getElem_mem inside)

/-- The node has no `Pointer`, or the deletion is refused before any is looked at. -/
def Plain (T : DatabaseType) (s : Session) (h id : ℕ) (granted indexed : Bool) : Prop :=
  Grants s.owner h id granted → ∀ node, s.nodes id = some node → node.refCount = 0 →
    indexed = true → State.hasPointers T node.type = false

theorem trNodeDelete_of_plain {s : Session} {granted indexed : Bool} {locks : ℕ → Locks}
    (plain : Plain T s h id granted indexed) :
    trNodeDelete T h id granted indexed locks s = deletePlain T h id granted indexed s := by
  cases found : s.nodes id with
  | none => simp only [trNodeDelete, deletePlain, Op.andThen, utilLock, Op.withNode, found,
      Option.bind_none]
  | some node =>
      by_cases grants : Grants s.owner h id granted
      · simp only [trNodeDelete, deletePlain, Op.andThen, utilLock, Op.withNode, found,
          Option.bind_some, if_pos grants, if_true, deleteLocked]
        by_cases referenced : node.refCount ≠ 0
        · simp only [if_pos referenced]
        · simp only [if_neg referenced]
          by_cases indexes : indexed = false
          · simp only [if_pos indexes]
          · have none := plain grants node found (not_not.mp referenced) (by simpa using indexes)
            simp only [if_neg indexes, none, pointerIndexes_of_plain none, destroyPointers,
              Op.answer]
            rfl
      · simp only [trNodeDelete, deletePlain, Op.andThen, utilLock, Op.withNode, found,
          Option.bind_some, if_neg grants]
        rfl

/-- A deletion that is refused leaves the nodes and the log. -/
theorem deletePlain_refused {s t : Session} {granted indexed : Bool}
    (refused : deletePlain T h id granted indexed s = some (false, t)) :
    t.toState = s.toState := by
  rcases Op.andThen_eq_some.mp refused with ⟨u, before, after⟩ | ⟨-, before⟩
  · obtain ⟨-, ⟨-, -, rfl⟩ | ⟨-, no, -⟩⟩ := utilLock_eq_some.mp before
    · obtain ⟨node, -, after⟩ := Option.bind_eq_some_iff.mp after
      dsimp only at after
      by_cases referenced : node.refCount ≠ 0
      · rw [if_pos referenced] at after
        cases after
        rfl
      · rw [if_neg referenced] at after
        by_cases indexes : indexed = false
        · rw [if_pos indexes] at after
          cases after
          rfl
        · rw [if_neg indexes] at after
          by_cases pointers : State.hasPointers T node.type = true
          · rw [if_pos pointers] at after
            cases after
          · rw [if_neg pointers] at after
            cases (Op.change_eq_some.mp after).1
    · cases no
  · obtain ⟨-, ⟨-, no, -⟩ | ⟨-, -, rfl⟩⟩ := utilLock_eq_some.mp before
    · cases no
    · rfl

/-- A deletion that is done. -/
theorem deletePlain_eq_true {s t : Session} {granted indexed : Bool}
    (done : deletePlain T h id granted indexed s = some (true, t)) :
    ∃ node, s.nodes id = some node ∧ node.refCount = 0 ∧
      State.hasPointers T node.type = false ∧ t.toState = s.toState.push [.nodeDelete id] ∧
      t.owner id = some h := by
  obtain ⟨u, locked, after⟩ := Op.andThen_eq_true.mp done
  obtain ⟨-, ⟨-, -, rfl⟩ | ⟨-, no, -⟩⟩ := utilLock_eq_some.mp locked
  · obtain ⟨node, found, after⟩ := Option.bind_eq_some_iff.mp after
    dsimp only at after
    by_cases referenced : node.refCount ≠ 0
    · rw [if_pos referenced] at after
      cases after
    · rw [if_neg referenced] at after
      by_cases indexes : indexed = false
      · rw [if_pos indexes] at after
        cases after
      · rw [if_neg indexes] at after
        by_cases pointers : State.hasPointers T node.type = true
        · rw [if_pos pointers] at after
          cases after
        · rw [if_neg pointers] at after
          obtain ⟨-, v, pushed, rfl⟩ := Op.change_eq_some.mp after
          cases pushed
          exact ⟨node, found, not_not.mp referenced, by simpa using pointers, rfl,
            Function.update_self _ _ _⟩
  · cases no

/-- A creation refused, or done. -/
theorem trNodeCreate_eq_some {type : ℕ} {granted indexed ok : Bool} {s t : Session} :
    trNodeCreate T h type granted indexed s = some (ok, t) ↔
      (granted = false ∧ ok = false ∧ t = s) ∨
      (granted = true ∧ ok = indexed ∧ ∃ u, s.toState.trNodeCreate T type (s.counter + 1) = some u ∧
        t = ⟨u, Function.update s.owner (s.counter + 1) (some h)⟩) := by
  cases granted with
  | false =>
      simp only [trNodeCreate, Bool.false_eq_true, if_false, Option.some.injEq, Prod.mk.injEq,
        true_and, false_and, or_false]
      exact and_congr eq_comm eq_comm
  | true =>
      simp only [trNodeCreate, if_true, Option.map_eq_some_iff, Prod.mk.injEq, Bool.true_eq_false,
        false_and, false_or, true_and]
      constructor
      · rintro ⟨u, created, rfl, rfl⟩
        exact ⟨rfl, u, created, rfl⟩
      · rintro ⟨rfl, u, created, rfl⟩
        exact ⟨u, created, rfl, rfl⟩

theorem turns_trNodeCreate {type : ℕ} {granted indexed ok : Bool} {s t : Session}
    (fresh : ∀ id, s.counter < id → s.nodes id = none ∧ s.owner id = none)
    (created : trNodeCreate T h type granted indexed s = some (ok, t)) :
    ∃ items, Turns h s t items := by
  obtain ⟨-, -, rfl⟩ | ⟨-, -, u, done, rfl⟩ := trNodeCreate_eq_some.mp created
  · exact ⟨[], .nothing _⟩
  · obtain ⟨known, -, small, nodes, counter, pushes⟩ := State.trNodeCreate_spec done
    obtain ⟨absent, free⟩ := fresh (s.counter + 1) (Nat.lt_succ_self _)
    refine ⟨[.nodeAlloc type (s.counter + 1)], pushes absent, ?_, fun x => ?_, ?_, ?_, ?_⟩
    · show s.counter ≤ u.counter
      omega
    · by_cases here : x = s.counter + 1
      · subst here
        exact .inr ⟨free, Function.update_self _ _ _⟩
      · exact .inl (Function.update_of_ne here _ _)
    · simp only [List.mem_singleton, forall_eq, touched, Option.some.injEq]
      rintro x rfl
      exact Function.update_self _ _ _
    · intro x above absent
      have apart : x ≠ s.counter + 1 := by
        have : u.counter < x := above
        omega
      refine ⟨?_, (Function.update_of_ne apart _ _).trans absent.2⟩
      show u.nodes x = none
      rw [nodes, Function.update_of_ne apart]
      exact absent.1
    · intro x apart
      show u.nodes x = s.nodes x
      rw [nodes, Function.update_of_ne]
      rintro rfl
      exact apart (Function.update_self _ _ _)

theorem frame_trNodeCreate {type : ℕ} {granted indexed ok : Bool} {s s' t : Session}
    (fresh : ∀ id, s.counter < id → s.nodes id = none ∧ s.owner id = none)
    (agrees : Agrees h s s') (created : trNodeCreate T h type granted indexed s = some (ok, t)) :
    ∃ t', trNodeCreate T h type granted indexed s' = some (ok, t') ∧ Agrees h t t' ∧
      Foreign h s' t' := by
  obtain ⟨refused, rfl, rfl⟩ | ⟨given, rfl, u, done, rfl⟩ := trNodeCreate_eq_some.mp created
  · exact ⟨s', trNodeCreate_eq_some.mpr (.inl ⟨refused, rfl, rfl⟩), agrees, fun _ _ => rfl⟩
  · have free := (fresh (s.counter + 1) (Nat.lt_succ_self _)).2
    unfold State.trNodeCreate at done
    split at done
    · next fits =>
        cases done
        have fits' : type < T.nodeTypes.length ∧ s'.counter < s'.counter + 1 ∧
            s'.counter + 1 < 2 ^ 64 := by rwa [agrees.counter]
        have done' : s'.toState.trNodeCreate T type (s'.counter + 1) = _ := if_pos fits'
        refine ⟨_, trNodeCreate_eq_some.mpr (.inr ⟨given, rfl, _, done', rfl⟩), ?_, ?_⟩
        · refine ⟨?_, congrArg (· + 1) agrees.counter, ?_, agrees.transactions, fun x mine => ?_⟩
          · show Function.update s'.owner _ _ = Function.update s.owner _ _
            rw [agrees.owner, agrees.counter]
          · show s'.log ++ _ = s.log ++ _
            rw [agrees.log, agrees.counter]
          · show Function.update s'.nodes _ _ x = Function.update s.nodes _ _ x
            rw [agrees.counter]
            by_cases here : x = s.counter + 1
            · rw [here, Function.update_self, Function.update_self]
            · rw [Function.update_of_ne here, Function.update_of_ne here]
              apply agrees.nodes x
              have same : Function.update s.owner (s.counter + 1) (some h) x = s.owner x :=
                Function.update_of_ne here _ _
              have mine : Mine (Function.update s.owner (s.counter + 1) (some h)) h x := mine
              rwa [Mine, same] at mine
        · intro x other
          show Function.update s'.nodes _ _ x = s'.nodes x
          refine Function.update_of_ne (fun here => other (.inl ?_)) _ _
          rw [here, agrees.owner, agrees.counter]
          exact free
    · cases done

end

end HybridDatabase.Transaction
