/-
# References

Every node counts the `Pointer` attributes that refer to it.  `Sound` says so of the
nodes in memory, together with what makes it last: attributes hold values of their
types, a `Pointer` that is not null refers to a node, and a deleted node neither has
references nor refers to a node.
-/

import Mathlib.Algebra.BigOperators.Group.Finset.Basic
import Mathlib.Algebra.Order.BigOperators.Group.Finset
import Mathlib.Data.List.Forall2
import HybridDatabase.Transaction.Effects

namespace HybridDatabase.Transaction

open HybridDatabase.Base HybridDatabase.Storage HybridDatabase.Database

/-! ## Counting references -/

/-- How many attributes of a node point at `x`. -/
def pointersTo (x : ℕ) (node : Option Node) : ℕ := node.elim 0 fun node =>
  node.values.count (.pointer x)

/-- How many attributes of the nodes up to `N` point at `x`. -/
def references (view : ℕ → Option Node) (N x : ℕ) : ℕ :=
  ∑ id ∈ Finset.range (N + 1), pointersTo x (view id)

/-- Only one node differs. -/
theorem references_add {view view' : ℕ → Option Node} {id N : ℕ} (inside : id ≤ N)
    (others : ∀ k, k ≠ id → view' k = view k) (x : ℕ) :
    references view' N x + pointersTo x (view id) =
      references view N x + pointersTo x (view' id) := by
  have member : id ∈ Finset.range (N + 1) := Finset.mem_range.mpr (by omega)
  have same : ∑ k ∈ (Finset.range (N + 1)).erase id, pointersTo x (view' k) =
      ∑ k ∈ (Finset.range (N + 1)).erase id, pointersTo x (view k) :=
    Finset.sum_congr rfl fun k apart => by rw [others k (Finset.ne_of_mem_erase apart)]
  rw [references, references, ← Finset.add_sum_erase _ _ member,
    ← Finset.add_sum_erase _ (fun k => pointersTo x (view k)) member, same]
  omega

/-- Ids above all nodes do not matter. -/
theorem references_raise {view : ℕ → Option Node} {N N' : ℕ} (le : N ≤ N')
    (absent : ∀ id, N < id → view id = none) (x : ℕ) :
    references view N' x = references view N x := by
  refine (Finset.sum_subset (fun id inside => ?_) fun id _ outside => ?_).symm
  · rw [Finset.mem_range] at inside ⊢
    omega
  · rw [absent id (by rw [Finset.mem_range] at outside; omega)]
    rfl

theorem pointersTo_le_references {view : ℕ → Option Node} {id N : ℕ} (inside : id ≤ N) (x : ℕ) :
    pointersTo x (view id) ≤ references view N x :=
  Finset.single_le_sum (f := fun id => pointersTo x (view id)) (fun _ _ => Nat.zero_le _)
    (Finset.mem_range.mpr (by omega))

/-- An attribute is set. -/
theorem references_setValue {nodes : Nodes} {id index N : ℕ} {node : Node} {old : Value}
    (found : nodes.view id = some node) (there : node.values[index]? = some old) (inside : id ≤ N)
    (value : Value) (x : ℕ) :
    references (nodes.setValue id index value).view N x + (if old = .pointer x then 1 else 0) =
      references nodes.view N x + if value = .pointer x then 1 else 0 := by
  obtain ⟨within, there⟩ := List.getElem?_eq_some_iff.mp there
  have others : ∀ k, k ≠ id → (nodes.setValue id index value).view k = nodes.view k :=
    fun k apart => Nodes.view_setValue_of_ne apart index value
  have sum := references_add inside others x
  rw [found, Nodes.view_setValue_self found] at sum
  have count := List.count_set (b := Value.pointer x) (a := value) within
  have enough : (if old = .pointer x then 1 else 0) ≤ node.values.count (.pointer x) := by
    split
    · next points =>
        rw [← there] at points
        exact List.count_pos_iff.mpr (points ▸ List.getElem_mem within)
    · exact Nat.zero_le _
  simp only [pointersTo, Option.elim_some] at sum
  simp only [there, beq_iff_eq] at count
  omega

/-! ## Sound nodes -/

/-- The values are ones that attributes of these types hold faithfully. -/
def FaithfulValues (attrs : List NodeAttribute) (values : List Value) : Prop :=
  List.Forall₂ (fun attr value => State.Faithful attr.type value) attrs values

/-- Nodes with ids up to `N` whose references are counted rightly, some of them deleted
but not yet freed. -/
structure Sound (T : DatabaseType) (N : ℕ) (nodes : Nodes) (deleted : List ℕ) : Prop where
  small : N < 2 ^ 64
  bounded : ∀ id, (nodes id).isSome → 0 < id ∧ id ≤ N
  typed : ∀ id node, nodes.view id = some node →
    ∃ type, T.nodeTypes[node.type]? = some type ∧ FaithfulValues type.attributes node.values
  counted : ∀ id, (nodes id).isSome → nodes.count id = references nodes.view N id
  linked : ∀ id node target, nodes.view id = some node → .pointer target ∈ node.values →
    target ≠ 0 → (nodes target).isSome
  deleted : ∀ id ∈ deleted, nodes.count id = 0 ∧
    ∃ node, nodes.view id = some node ∧ ∀ target, .pointer target ∉ node.values

theorem isSome_view (nodes : Nodes) (id : ℕ) : (nodes.view id).isSome = (nodes id).isSome :=
  Option.isSome_map

/-- A value of another type is not a pointer. -/
theorem not_pointer_of_faithful {type : AttrType} {value : Value}
    (faithful : State.Faithful type value) (other : type.kind ≠ .pointer) (target : ℕ) :
    value ≠ .pointer target := by
  rintro rfl
  have holds := faithful.1
  cases kind : type.kind with
  | pointer => exact other kind
  | raw size | number bits | string | rawString =>
      rw [kind] at holds
      exact holds

theorem FaithfulValues.get {attrs : List NodeAttribute} {values : List Value}
    (faithful : FaithfulValues attrs values) {index : ℕ} {attr : NodeAttribute} {value : Value}
    (typed : attrs[index]? = some attr) (there : values[index]? = some value) :
    State.Faithful attr.type value := by
  induction faithful generalizing index with
  | nil => cases typed
  | cons head tail ih =>
      cases index with
      | zero =>
          cases typed
          cases there
          exact head
      | succ index => exact ih typed there

/-- Where no type is a pointer, no value is. -/
theorem FaithfulValues.no_pointer {attrs : List NodeAttribute} {values : List Value}
    (faithful : FaithfulValues attrs values)
    (plain : ∀ attr ∈ attrs, attr.type.kind ≠ .pointer) (target : ℕ) :
    .pointer target ∉ values := by
  induction faithful with
  | nil => exact List.not_mem_nil
  | cons head tail ih =>
      rename_i attr value attrs values
      rw [List.mem_cons, not_or]
      have first := plain attr List.mem_cons_self
      have rest := ih fun attr inside => plain attr (List.mem_cons_of_mem _ inside)
      exact ⟨(not_pointer_of_faithful head first target).symm, rest⟩

theorem FaithfulValues.set {attrs : List NodeAttribute} {values : List Value}
    (faithful : FaithfulValues attrs values) {index : ℕ} {attr : NodeAttribute} {value : Value}
    (typed : attrs[index]? = some attr) (new : State.Faithful attr.type value) :
    FaithfulValues attrs (values.set index value) := by
  induction faithful generalizing index with
  | nil => exact .nil
  | cons head tail ih =>
      cases index with
      | zero =>
          cases typed
          exact .cons new tail
      | succ index => exact .cons head (ih typed)

/-- A new node holds initial values. -/
theorem initialNode_values {T : DatabaseType} {type : ℕ} (known : type < T.nodeTypes.length) :
    (State.initialNode T type).values =
      T.nodeTypes[type].attributes.map fun attr => attributeInit attr.type := by
  have found : T.nodeTypes[type]? = some T.nodeTypes[type] := List.getElem?_eq_getElem known
  simp only [State.initialNode, found, Option.elim_some]

theorem attributeInit_faithful (type : AttrType) : State.Faithful type (attributeInit type) := by
  refine ⟨attributeInit_holds type, ?_⟩
  unfold attributeInit
  cases type.kind <;> rfl

/-- A new attribute points nowhere. -/
theorem attributeInit_pointer {type : AttrType} {target : ℕ}
    (points : attributeInit type = .pointer target) : target = 0 := by
  unfold attributeInit at points
  cases kind : type.kind with
  | pointer =>
      rw [kind] at points
      cases points
      rfl
  | raw size | number bits | string | rawString =>
      rw [kind] at points
      cases points

theorem initialNode_faithful {T : DatabaseType} {type : ℕ} (known : type < T.nodeTypes.length) :
    FaithfulValues T.nodeTypes[type].attributes (State.initialNode T type).values := by
  rw [initialNode_values known, FaithfulValues, List.forall₂_map_right_iff]
  exact List.forall₂_same.mpr fun attr _ => attributeInit_faithful attr.type

theorem initialNode_pointer {T : DatabaseType} {type target : ℕ}
    (known : type < T.nodeTypes.length)
    (points : .pointer target ∈ (State.initialNode T type).values) : target = 0 := by
  rw [initialNode_values known] at points
  obtain ⟨attr, -, init⟩ := List.mem_map.mp points
  exact attributeInit_pointer init

theorem kind_eq_pointer {type : AttrType} : type.kind = .pointer ↔ type = .pointer := by
  cases type <;> simp [AttrType.kind]

/-- `destroy_pointers` of a type without pointers does nothing. -/
theorem not_pointer_of_plain {T : DatabaseType} {type : ℕ} {known : NodeType}
    (found : T.nodeTypes[type]? = some known) (plain : State.hasPointers T type = false) :
    ∀ attr ∈ known.attributes, attr.type.kind ≠ .pointer := by
  intro attr inside kind
  rw [State.hasPointers, found, Option.elim_some, List.any_eq_false] at plain
  exact plain attr inside (by simpa using kind_eq_pointer.mp kind)

/-- What the first part of a write does to the nodes, whatever the type is. -/
theorem State.AfterWrite.count {type : AttrType} {old value : Value} {nodes nodes' : Nodes}
    (after : State.AfterWrite type old value nodes nodes') (faithfulOld : State.Faithful type old)
    (faithful : State.Faithful type value) :
    ∀ x, (nodes x).isSome → x ≠ 0 →
      nodes'.count x + (if old = .pointer x then 1 else 0) =
        nodes.count x + if value = .pointer x then 1 else 0 := by
  unfold State.AfterWrite at after
  split at after
  · obtain ⟨from_, target, rfl, rfl, turned⟩ := after
    intro x present positive
    have count := turned.count x present
    have null : (from_ ≠ 0 ∧ x = from_) ↔ from_ = x := by omega
    simp only [null] at count
    simp only [Value.pointer.injEq, count, eq_comm (a := x)]
  · next other =>
      intro x _ _
      rw [after, if_neg (not_pointer_of_faithful faithfulOld other x),
        if_neg (not_pointer_of_faithful faithful other x)]

namespace Sound

variable {T : DatabaseType} {N N' : ℕ} {nodes nodes' : Nodes} {deleted : List ℕ}

theorem absent (sound : Sound T N nodes deleted) {id : ℕ} (above : N < id) : nodes id = none := by
  cases found : nodes id with
  | none => rfl
  | some node =>
      have := (sound.bounded id (by rw [found]; rfl)).2
      omega

theorem view_absent (sound : Sound T N nodes deleted) {id : ℕ} (above : N < id) :
    nodes.view id = none := by
  rw [Nodes.view, sound.absent above, Option.map_none]

/-- A larger bound. -/
theorem raise (sound : Sound T N nodes deleted) (le : N ≤ N') (small : N' < 2 ^ 64) :
    Sound T N' nodes deleted where
  small := small
  bounded id present := ⟨(sound.bounded id present).1, (sound.bounded id present).2.trans le⟩
  typed := sound.typed
  counted id present := by
    rw [sound.counted id present]
    exact (references_raise le (fun _ above => sound.view_absent above) id).symm
  linked := sound.linked
  deleted := sound.deleted

/-- A node that is pointed at has a reference. -/
theorem referenced (sound : Sound T N nodes deleted) {id target : ℕ} {node : Node}
    (found : nodes.view id = some node) (points : .pointer target ∈ node.values) :
    0 < references nodes.view N target := by
  have inside := (sound.bounded id (by rw [← isSome_view, found]; rfl)).2
  have some : pointersTo target (nodes.view id) ≤ references nodes.view N target :=
    pointersTo_le_references inside target
  rw [found] at some
  exact Nat.lt_of_lt_of_le (List.count_pos_iff.mpr points) some

/-- What is not there is not pointed at. -/
theorem unreferenced (sound : Sound T N nodes deleted) {x : ℕ} (positive : x ≠ 0)
    (absent : nodes x = none) : references nodes.view N x = 0 := by
  refine Finset.sum_eq_zero fun id _ => ?_
  cases found : nodes.view id with
  | none => rfl
  | some node =>
      refine List.count_eq_zero.mpr fun points => ?_
      have there := sound.linked id node x found points positive
      rw [absent] at there
      cases there

/-- A new node. -/
theorem create (sound : Sound T N nodes deleted) {type id : ℕ} (known : type < T.nodeTypes.length)
    (fresh : N < id) (small : id < 2 ^ 64) :
    Sound T id (Function.update nodes id (some (State.initialNode T type))) deleted := by
  have raised := sound.raise (Nat.le_of_lt fresh) small
  have found : T.nodeTypes[type]? = some T.nodeTypes[type] := List.getElem?_eq_getElem known
  have others : ∀ k, k ≠ id →
      Nodes.view (Function.update nodes id (some (State.initialNode T type))) k = nodes.view k := by
    intro k apart
    rw [Nodes.view, Function.update_of_ne apart]
    rfl
  have new : Nodes.view (Function.update nodes id (some (State.initialNode T type))) id =
      some ⟨type, (State.initialNode T type).values⟩ := by
    rw [Nodes.view, Function.update_self]
    rfl
  have count : ∀ x, x ≠ 0 →
      references (Nodes.view (Function.update nodes id (some (State.initialNode T type)))) id x =
        references nodes.view id x := by
    intro x positive
    have sum := references_add (le_refl id) others x
    have none : List.count (.pointer x) (State.initialNode T type).values = 0 :=
      List.count_eq_zero.mpr fun points => positive (initialNode_pointer known points)
    rw [new, sound.view_absent fresh] at sum
    simp only [pointersTo, Option.elim_some, Option.elim_none, none] at sum
    omega
  have cases : ∀ k node, Nodes.view
      (Function.update nodes id (some (State.initialNode T type))) k = some node →
        (k ≠ id ∧ nodes.view k = some node) ∨
          (k = id ∧ node = ⟨type, (State.initialNode T type).values⟩) := by
    intro k node there
    by_cases here : k = id
    · subst here
      rw [new] at there
      exact .inr ⟨rfl, (Option.some.inj there).symm⟩
    · rw [others k here] at there
      exact .inl ⟨here, there⟩
  have present : ∀ k, k ≠ id →
      (Function.update nodes id (some (State.initialNode T type)) k) = nodes k :=
    fun k apart => Function.update_of_ne apart _ _
  constructor
  · exact small
  · intro k there
    by_cases here : k = id
    · subst here
      omega
    · rw [present k here] at there
      exact raised.bounded k there
  · intro k node there
    rcases cases k node there with ⟨-, old⟩ | ⟨-, rfl⟩
    · exact sound.typed k node old
    · exact ⟨_, found, initialNode_faithful known⟩
  · intro k there
    by_cases here : k = id
    · subst here
      have zero : Nodes.count (Function.update nodes k (some (State.initialNode T type))) k = 0 := by
        rw [Nodes.count, Function.update_self]
        rfl
      rw [zero, count k (by omega)]
      exact (raised.unreferenced (by omega) (sound.absent fresh)).symm
    · have same : Nodes.count (Function.update nodes id (some (State.initialNode T type))) k =
          nodes.count k := by
        rw [Nodes.count, present k here]
        rfl
      rw [present k here] at there
      rw [same, count k (by have := (sound.bounded k there).1; omega)]
      exact raised.counted k there
  · intro k node target there points nonnull
    rcases cases k node there with ⟨-, old⟩ | ⟨-, rfl⟩
    · have linked := sound.linked k node target old points nonnull
      by_cases here : target = id
      · rw [here, Function.update_self]
        rfl
      · rwa [present target here]
    · exact absurd (initialNode_pointer known points) nonnull
  · intro k member
    obtain ⟨zero, node, there, none⟩ := sound.deleted k member
    have apart : k ≠ id := by
      rintro rfl
      rw [sound.view_absent fresh] at there
      cases there
    refine ⟨?_, node, (others k apart).trans there, none⟩
    rw [Nodes.count, present k apart]
    exact zero

/-- A deletion: the node has no references and no pointers. -/
theorem delete (sound : Sound T N nodes deleted) {id : ℕ} {node : MemoryNode}
    (found : nodes id = some node) (unreferenced : node.refCount = 0)
    (plain : State.hasPointers T node.type = false) : Sound T N nodes (deleted ++ [id]) := by
  refine ⟨sound.small, sound.bounded, sound.typed, sound.counted, sound.linked, ?_⟩
  intro k member
  rcases List.mem_append.mp member with old | new
  · exact sound.deleted k old
  · obtain rfl := List.mem_singleton.mp new
    have view : nodes.view k = some ⟨node.type, node.values⟩ := by
      rw [Nodes.view, found, Option.map_some]
    refine ⟨by rw [Nodes.count, found]; exact unreferenced, _, view, ?_⟩
    obtain ⟨type, known, faithful⟩ := sound.typed k _ view
    exact faithful.no_pointer (not_pointer_of_plain known plain)

/-- A write to a node that is not deleted, of a value that points to no deleted node. -/
theorem write (sound : Sound T N nodes deleted) {id index : ℕ} {node : MemoryNode}
    {attr : NodeAttribute} {old value : Value} (found : nodes id = some node)
    (typed : attributeAt T node.type index = some attr) (there : node.values[index]? = some old)
    (faithful : State.Faithful attr.type value) (live : id ∉ deleted)
    (target : ∀ target, value = .pointer target → (nodes target).isSome ∧ target ∉ deleted)
    (after : State.AfterWrite attr.type old value nodes nodes') :
    Sound T N (nodes'.setValue id index value) deleted := by
  have view : nodes.view id = some ⟨node.type, node.values⟩ := by
    rw [Nodes.view, found, Option.map_some]
  obtain ⟨type, known, values⟩ := sound.typed id _ view
  have typed : type.attributes[index]? = some attr := by
    rwa [attributeAt, known] at typed
  have same := after.view
  have recount := after.count (values.get typed there) faithful
  have present : ∀ x, (nodes' x).isSome = (nodes x).isSome := by
    intro x
    rw [← isSome_view, ← isSome_view, same]
  have view' : nodes'.view id = some ⟨node.type, node.values⟩ := by rw [same, view]
  have inside := (sound.bounded id (by rw [found]; rfl)).2
  have cases : ∀ k new, (nodes'.setValue id index value).view k = some new →
      (k ≠ id ∧ nodes.view k = some new) ∨
        (k = id ∧ new = ⟨node.type, node.values.set index value⟩) := by
    intro k new there'
    by_cases here : k = id
    · subst here
      rw [Nodes.view_setValue_self view'] at there'
      exact .inr ⟨rfl, (Option.some.inj there').symm⟩
    · rw [Nodes.view_setValue_of_ne here, same] at there'
      exact .inl ⟨here, there'⟩
  constructor
  · exact sound.small
  · intro k there'
    rw [Nodes.isSome_setValue, present] at there'
    exact sound.bounded k there'
  · intro k new there'
    rcases cases k new there' with ⟨-, before⟩ | ⟨-, rfl⟩
    · exact sound.typed k new before
    · exact ⟨type, known, values.set typed faithful⟩
  · intro k there'
    rw [Nodes.isSome_setValue, present] at there'
    have positive := (sound.bounded k there').1
    have counts := recount k there' (by omega)
    have pointers := references_setValue view' there inside value k
    rw [same] at pointers
    have before := sound.counted k there'
    rw [Nodes.count_setValue]
    omega
  · intro k new x there' points nonnull
    rw [Nodes.isSome_setValue, present]
    rcases cases k new there' with ⟨-, before⟩ | ⟨-, rfl⟩
    · exact sound.linked k new x before points nonnull
    · rcases List.mem_or_eq_of_mem_set points with before | rfl
      · exact sound.linked id _ x view before nonnull
      · exact (target x rfl).1
  · intro k member
    obtain ⟨zero, new, there', none⟩ := sound.deleted k member
    have apart : k ≠ id := by
      rintro rfl
      exact live member
    have there'' : (nodes k).isSome := by rw [← isSome_view, there']; rfl
    have positive := (sound.bounded k there'').1
    have counts := recount k there'' (by omega)
    have other : value ≠ .pointer k := fun points => (target k points).2 member
    refine ⟨?_, new, by rw [Nodes.view_setValue_of_ne apart, same, there'], none⟩
    rw [Nodes.count_setValue]
    simp only [other, if_false] at counts
    omega

/-- Some of the deleted nodes are freed. -/
theorem freeSome (sound : Sound T N nodes deleted) {freed left : List ℕ}
    (inside : ∀ id ∈ freed, (nodes id).isSome → id ∈ deleted)
    (others : ∀ id, id ∈ left → id ∈ deleted ∧ id ∉ freed) :
    Sound T N (State.freeGarbage nodes freed) left := by
  have kept : ∀ id, (State.freeGarbage nodes freed id).isSome →
      id ∉ freed ∧ State.freeGarbage nodes freed id = nodes id := by
    intro id there
    rw [State.freeGarbage_apply] at there ⊢
    split at there
    · cases there
    · next live => exact ⟨live, if_neg live⟩
  have view : ∀ id, (State.freeGarbage nodes freed).view id =
      if id ∈ freed then none else nodes.view id := by
    intro id
    rw [Nodes.view, State.freeGarbage_apply]
    split <;> rfl
  have count : ∀ x, references (State.freeGarbage nodes freed).view N x =
      references nodes.view N x := by
    intro x
    refine Finset.sum_congr rfl fun id _ => ?_
    rw [view]
    split
    · next member =>
        cases there : nodes.view id with
        | none => rfl
        | some node =>
            have present : (nodes id).isSome := by rw [← isSome_view, there]; rfl
            obtain ⟨-, node', same, none⟩ := sound.deleted id (inside id member present)
            rw [there] at same
            cases same
            exact (List.count_eq_zero.mpr (none x)).symm
    · rfl
  have before : ∀ id node, (State.freeGarbage nodes freed).view id = some node →
      nodes.view id = some node := by
    intro id node there
    rw [view] at there
    split at there
    · cases there
    · exact there
  have zero : ∀ id, (State.freeGarbage nodes freed).count id =
      if id ∈ freed then 0 else nodes.count id := by
    intro id
    rw [Nodes.count, State.freeGarbage_apply]
    split <;> rfl
  constructor
  · exact sound.small
  · intro id there
    rw [(kept id there).2] at there
    exact sound.bounded id there
  · intro id node there
    exact sound.typed id node (before id node there)
  · intro id there
    have same := (kept id there).2
    rw [same] at there
    rw [count, ← sound.counted id there, Nodes.count, same]
    rfl
  · intro id node target there points nonnull
    have linked := sound.linked id node target (before id node there) points nonnull
    have live : target ∉ freed := by
      intro member
      have none := (sound.deleted target (inside target member linked)).1
      rw [sound.counted target linked] at none
      have positive := sound.referenced (before id node there) points
      omega
    rw [State.freeGarbage_apply, if_neg live]
    exact linked
  · intro id member
    obtain ⟨dead, live⟩ := others id member
    obtain ⟨none, node, there, alone⟩ := sound.deleted id dead
    exact ⟨by rw [zero, if_neg live, none], node, by rw [view, if_neg live, there], alone⟩

/-- The deleted nodes are freed. -/
theorem free (sound : Sound T N nodes deleted) :
    Sound T N (State.freeGarbage nodes deleted) [] :=
  sound.freeSome (fun _ inside _ => inside) fun _ inside => absurd inside List.not_mem_nil

end Sound

end HybridDatabase.Transaction
