/-
# Undoing log items

`log_undo_item` over memory byte by byte.  An item undoes one change; the items of several
changes undo them in the opposite order.  Memory that comes back is the same where it is in
use: what allocators leave in the areas they get is not looked at.

Some changes are made before the item of another one is pushed whose old value is older than
they are.  So a rollback has to lead back not only from the new contents, but from every
mixture of the old and the new ones.
-/

import HybridDatabase.Base.UndoLog
import HybridDatabase.Rollback.ReadBack

namespace HybridDatabase.Rollback

open HybridDatabase.Storage HybridDatabase.Database

/-- What is put back from other contents. -/
theorem Contents.write_read_inside {m old : Contents} {address size x : ℕ}
    (inside : address ≤ x ∧ x < address + size) :
    m.write address (old.read address size) x = old x := by
  obtain ⟨i, rfl⟩ := Nat.exists_eq_add_of_le inside.1
  have low : i < (old.read address size).length := by
    rw [length_read]
    omega
  have at_ := @getElem_read old address _ _ (by rwa [length_read] at low)
  rw [write_inside low]
  exact (List.getElem?_eq_some_iff.mp at_).2

/-! ## The source -/

namespace Memory

variable {T : DatabaseType} (L : NodeLayout T)

/-- `log_undo_item`.  `junk` is what the allocators leave. -/
def logUndoItem (junk : Contents) (M : Memory) (item : LogItem) : Memory :=
  match item.type with
  | .raw | .nodeModify => { M with contents := LogItem.undoWrite M.contents item }
  | .nodeAlloc =>
      match M.nodes item.ptr with
      | none => M
      | some type => (M.destroy L junk item.ptr type).nodeAllocatorFree L junk item.ptr type
  | .memoryAlloc => M.genericAllocatorFree junk item.ptr
  | .nodeDelete | .memoryDelete => M

/-- Items undone, the last one first. -/
abbrev rollback (junk : Contents) (M : Memory) (items : List LogItem) : Memory :=
  Base.rollback (logUndoItem L junk) M items

/-! ## Agreement is kept -/

variable {L} {M M' M'' N : Memory} {junk : Contents} {item : LogItem} {items items' : List LogItem}

theorem scribble_congr {m m' : Contents} {address size x : ℕ} (same : m x = m' x) :
    scribble junk m address size x = scribble junk m' address size x := by
  rw [scribble, scribble, same]

/-- What is in use after a block has been freed was in use before. -/
theorem inUse_of_genericAllocatorFree {p x : ℕ}
    (used : (M.genericAllocatorFree junk p).InUse L x) : M.InUse L x := by
  unfold genericAllocatorFree at used
  split at used
  · exact used
  split at used
  · exact used
  rcases used with node | ⟨q, size, block, inside⟩
  · exact .inl node
  · have block : Function.update M.blocks p none q = some size := block
    by_cases here : q = p
    · rw [here, Function.update_self] at block
      cases block
    · rw [Function.update_of_ne here] at block
      exact .inr ⟨q, size, block, inside⟩

/-- What is in use after a node has been freed was in use before. -/
theorem inUse_of_nodeAllocatorFree {p type x : ℕ}
    (used : (M.nodeAllocatorFree L junk p type).InUse L x) : M.InUse L x := by
  rcases used with ⟨q, other, node, inside⟩ | block
  · have node : Function.update M.nodes p none q = some other := node
    by_cases here : q = p
    · rw [here, Function.update_self] at node
      cases node
    · rw [Function.update_of_ne here] at node
      exact .inl ⟨q, other, node, inside⟩
  · exact .inr block

namespace Agrees

theorem write (agrees : Agrees L M M') (address : ℕ) (bytes : Bytes) :
    Agrees L { M with contents := M.contents.write address bytes }
      { M' with contents := M'.contents.write address bytes } where
  nodes := agrees.nodes
  blocks := agrees.blocks
  contents x used := Contents.write_congr _ _ _ _ (agrees.contents x used)

theorem genericAllocatorFree (agrees : Agrees L M M') (p : ℕ) :
    Agrees L (M.genericAllocatorFree junk p) (M'.genericAllocatorFree junk p) := by
  have contents x (used : (M.genericAllocatorFree junk p).InUse L x) : M.contents x = M'.contents x :=
    agrees.contents x (inUse_of_genericAllocatorFree used)
  unfold Memory.genericAllocatorFree at contents ⊢
  by_cases null : p = 0
  · rwa [if_pos null, if_pos null]
  rw [if_neg null, if_neg null, ← agrees.blocks]
  simp only [if_neg null] at contents
  cases block : M.blocks p with
  | none => exact agrees
  | some size =>
      simp only [block] at contents
      exact ⟨agrees.nodes, rfl, fun x used => scribble_congr (contents x used)⟩

/-- An attribute that lies in memory in use. -/
theorem attributeDestroy (agrees : Agrees L M M') {address : ℕ} {type : AttrType}
    (used : ∀ x, address ≤ x → x < address + attributeSize type → M.InUse L x) :
    Agrees L (M.attributeDestroy junk address type) (M'.attributeDestroy junk address type) := by
  have same : M.contents.read address (attributeSize type) =
      M'.contents.read address (attributeSize type) :=
    Contents.read_congr fun x low high => agrees.contents x (used x low high)
  unfold Memory.attributeDestroy
  cases kind : type.kind with
  | string | rawString =>
      have word : attributeSize type = 8 := by rw [attributeSize, kind]
      rw [word] at same
      show Agrees L (M.genericAllocatorFree junk _) (M'.genericAllocatorFree junk _)
      rw [same]
      exact agrees.genericAllocatorFree _
  | raw size | number bits | pointer => exact agrees.write _ _

end Agrees

theorem nodes_genericAllocatorFree (p : ℕ) : (M.genericAllocatorFree junk p).nodes = M.nodes := by
  unfold genericAllocatorFree
  split
  · rfl
  split <;> rfl

theorem nodes_attributeDestroy (address : ℕ) (type : AttrType) :
    (M.attributeDestroy junk address type).nodes = M.nodes := by
  unfold attributeDestroy
  split
  · exact nodes_genericAllocatorFree _
  · exact nodes_genericAllocatorFree _
  · rfl

/-- The attributes of a type with their indexes. -/
theorem attributeAt_of_mem {type index : ℕ} {attr : NodeAttribute}
    (inside : (attr, index) ∈ ((T.nodeTypes[type]?).elim [] NodeType.attributes).zipIdx) :
    attributeAt T type index = some attr := by
  have at_ := List.mem_zipIdx_iff_getElem?.mp inside
  cases found : T.nodeTypes[type]? with
  | none =>
      rw [found] at at_
      cases at_
  | some nodeType =>
      rw [found] at at_
      rw [attributeAt, found]
      exact at_

/-- An attribute lies in its node. -/
theorem inUse_attribute {p type index : ℕ} {attr : NodeAttribute} (node : M.nodes p = some type)
    (at_ : attributeAt T type index = some attr) {x : ℕ} (low : p + L.offset type index ≤ x)
    (high : x < p + L.offset type index + attributeSize attr.type) : M.InUse L x := by
  have inside := L.inside type index attr at_
  exact .inl ⟨p, type, node, by omega, by omega⟩

namespace Agrees

theorem destroy (agrees : Agrees L M M') {p type : ℕ} (node : M.nodes p = some type) :
    Agrees L (M.destroy L junk p type) (M'.destroy L junk p type) := by
  unfold Memory.destroy
  have both := List.foldl_rel (r := fun M M' => Agrees L M M' ∧ M.nodes p = some type)
    (f := fun M (entry : NodeAttribute × ℕ) =>
      M.attributeDestroy junk (p + L.offset type entry.2) entry.1.type)
    (g := fun M (entry : NodeAttribute × ℕ) =>
      M.attributeDestroy junk (p + L.offset type entry.2) entry.1.type)
    (l := ((T.nodeTypes[type]?).elim [] NodeType.attributes).zipIdx)
    ⟨agrees, node⟩ fun entry inside N N' one =>
      ⟨one.1.attributeDestroy fun x => inUse_attribute one.2 (attributeAt_of_mem inside),
        (congrFun (nodes_attributeDestroy _ _) p).trans one.2⟩
  exact both.1

/-- A node in use that is freed. -/
theorem nodeAllocatorFree (agrees : Agrees L M M') (p type : ℕ) :
    Agrees L (M.nodeAllocatorFree L junk p type) (M'.nodeAllocatorFree L junk p type) where
  nodes := by
    show Function.update M.nodes p none = Function.update M'.nodes p none
    rw [agrees.nodes]
  blocks := agrees.blocks
  contents x used := by
    refine scribble_congr (agrees.contents x (inUse_of_nodeAllocatorFree used))

/-- `log_undo_item` does the same to memories that agree. -/
theorem logUndoItem (agrees : Agrees L M M') (item : LogItem) :
    Agrees L (M.logUndoItem L junk item) (M'.logUndoItem L junk item) := by
  unfold Memory.logUndoItem
  cases item.type with
  | raw | nodeModify => exact agrees.write _ _
  | memoryAlloc => exact agrees.genericAllocatorFree _
  | nodeDelete | memoryDelete => exact agrees
  | nodeAlloc =>
      show Agrees L (match M.nodes item.ptr with | none => M | some type => _)
        (match M'.nodes item.ptr with | none => M' | some type => _)
      rw [← agrees.nodes]
      cases node : M.nodes item.ptr with
      | none => exact agrees
      | some type => exact (agrees.destroy node).nodeAllocatorFree _ _

theorem rollback (agrees : Agrees L M M') (items : List LogItem) :
    Agrees L (M.rollback L junk items) (M'.rollback L junk items) := by
  induction items with
  | nil => exact agrees
  | cons item items ih => exact ih.logUndoItem item

end Agrees

/-! ## Undone changes -/

/-- The items lead back from the second memory to the first one. -/
def Undone (L : NodeLayout T) (M M' : Memory) (items : List LogItem) : Prop :=
  ∀ junk, Agrees L (M'.rollback L junk items) M

namespace Undone

theorem refl (agrees : Agrees L M' M) : Undone L M M' [] := fun _ => agrees

/-- The items of two changes one after the other. -/
theorem trans (first : Undone L M M' items) (second : Undone L M' M'' items') :
    Undone L M M'' (items ++ items') := by
  intro junk
  rw [rollback, Base.rollback_append]
  exact ((second junk).rollback items).trans (first junk)

end Undone

/-! ## Mixtures of old and new contents -/

/-- What is in use is as in the second memory, and at every address stands what stands there in
the first or in the second one. -/
structure Mixed (M M' N : Memory) : Prop where
  nodes : N.nodes = M'.nodes
  blocks : N.blocks = M'.blocks
  contents : ∀ x, N.contents x = M.contents x ∨ N.contents x = M'.contents x

/-- The items lead back from every mixture. -/
def Restores (L : NodeLayout T) (M M' : Memory) (items : List LogItem) : Prop :=
  ∀ N, Mixed M M' N → ∀ junk, Agrees L (N.rollback L junk items) M

namespace Restores

theorem undone (restores : Restores L M M' items) : Undone L M M' items :=
  restores M' ⟨rfl, rfl, fun _ => .inr rfl⟩

theorem refl (M : Memory) : Restores L M M [] := fun _ mixed _ =>
  ⟨mixed.nodes, mixed.blocks, fun x _ => (mixed.contents x).elim id id⟩

/-- A write whose item puts back the contents of the first or of the second memory. -/
theorem write (restores : Restores L M M' items) {m old : Contents} {item : LogItem}
    {address size : ℕ}
    (type : item.type = .raw ∨ item.type = .nodeModify)
    (puts : ∀ m, LogItem.undoWrite m item = m.write address (old.read address size))
    (saved : old = M.contents ∨ old = M'.contents)
    (written : ∀ x, x < address ∨ address + size ≤ x → m x = M'.contents x) :
    Restores L M { M' with contents := m } (items ++ [item]) := by
  intro N mixed junk
  rw [rollback, Base.rollback_append, Base.rollback_singleton]
  have undo : N.logUndoItem L junk item =
      { N with contents := N.contents.write address (old.read address size) } := by
    rw [← puts]
    unfold logUndoItem
    rcases type with type | type <;> rw [type]
  rw [undo]
  refine restores { N with contents := N.contents.write address (old.read address size) }
    ⟨mixed.nodes, mixed.blocks, fun x => ?_⟩ junk
  show N.contents.write address (old.read address size) x = _ ∨
    N.contents.write address (old.read address size) x = _
  by_cases inside : address ≤ x ∧ x < address + size
  · rw [Contents.write_read_inside inside]
    exact saved.imp (congrFun · x) (congrFun · x)
  · have outside : x < address ∨ address + size ≤ x := by omega
    rw [Contents.write_outside (by rwa [Contents.length_read]), ← written x outside]
    exact mixed.contents x

/-- An item that changes nothing. -/
theorem idle (restores : Restores L M M' items) {item : LogItem}
    (type : item.type = .nodeDelete ∨ item.type = .memoryDelete) :
    Restores L M M' (items ++ [item]) := by
  intro N mixed junk
  rw [rollback, Base.rollback_append, Base.rollback_singleton]
  have undo : N.logUndoItem L junk item = N := by
    unfold logUndoItem
    rcases type with type | type <;> rw [type]
  rw [undo]
  exact restores N mixed junk

/-- A block that is allocated and filled where nothing was in use. -/
theorem alloc (restores : Restores L M M' items) {m : Contents} {p size : ℕ} (real : p ≠ 0)
    (free : M'.blocks p = none) (fresh : ∀ x, p ≤ x → x < p + size → ¬ M'.InUse L x)
    (outside : ∀ x, x < p ∨ p + size ≤ x → m x = M'.contents x) :
    Restores L M { M' with contents := m, blocks := Function.update M'.blocks p (some size) }
      (items ++ [.ofPtr p .memoryAlloc]) := by
  intro N mixed junk
  rw [rollback, Base.rollback_append, Base.rollback_singleton]
  have nodes : N.nodes = M'.nodes := mixed.nodes
  have added : N.blocks = Function.update M'.blocks p (some size) := mixed.blocks
  have block : N.blocks p = some size := by rw [added, Function.update_self]
  have blocks : Function.update N.blocks p none = M'.blocks := by
    rw [added, Function.update_idem, ← free, Function.update_eq_self]
  -- where the block was, the second memory is as good as what the allocator leaves
  let N' : Memory := { N with
    contents := fun x => if p ≤ x ∧ x < p + size then M'.contents x else N.contents x
    blocks := M'.blocks }
  have freed : Agrees L (N.logUndoItem L junk (.ofPtr p .memoryAlloc)) N' := by
    have undo : N.logUndoItem L junk (.ofPtr p .memoryAlloc) =
        { N with contents := scribble junk N.contents p size, blocks := M'.blocks } := by
      rw [← blocks]
      show N.genericAllocatorFree junk p = _
      rw [genericAllocatorFree, if_neg real]
      simp only [block]
    rw [undo]
    refine ⟨rfl, rfl, fun x used => ?_⟩
    have used' : M'.InUse L x := by
      rcases used with ⟨q, other, node, inside⟩ | block
      · exact .inl ⟨q, other, (congrFun nodes q).symm.trans node, inside⟩
      · exact .inr block
    have apart : ¬ (p ≤ x ∧ x < p + size) := fun inside => fresh x inside.1 inside.2 used'
    show scribble junk N.contents p size x = if _ then _ else _
    rw [scribble, if_neg apart, if_neg apart]
  refine (freed.rollback items).trans (restores N' ⟨nodes, rfl, fun x => ?_⟩ junk)
  show (if _ then _ else _) = _ ∨ (if _ then _ else _) = _
  by_cases inside : p ≤ x ∧ x < p + size
  · rw [if_pos inside]
    exact .inr rfl
  · rw [if_neg inside, ← outside x (by omega)]
    exact mixed.contents x

end Restores

/-! ## A created node -/

/-- The attributes of a node are zero. -/
def Zero (L : NodeLayout T) (m : Contents) (p type : ℕ) : Prop :=
  ∀ index attr, attributeAt T type index = some attr → ∀ x, p + L.offset type index ≤ x →
    x < p + L.offset type index + attributeSize attr.type → m x = 0

theorem write_zero {m : Contents} {address size x : ℕ} (zero : m x = 0) :
    m.write address (List.replicate size 0) x = 0 := by
  unfold Contents.write
  split
  · rw [List.getD_eq_getElem?_getD]
    exact List.getElem?_getD_replicate_default_eq _ _ _
  · exact zero

theorem ofWord_zero {m : Contents} {address : ℕ}
    (zero : ∀ x, address ≤ x → x < address + 8 → m x = 0) : ofWord (m.read address 8) = 0 := by
  have bytes : m.read address 8 = Contents.read (fun _ => 0) address 8 := Contents.read_congr zero
  have zeros : Contents.read (fun _ => 0) address 8 = List.replicate 8 0 := rfl
  rw [bytes, zeros]
  decide

/-- Memory with another node. -/
structure Added (L : NodeLayout T) (M N : Memory) (p type : ℕ) : Prop where
  nodes : N.nodes = Function.update M.nodes p (some type)
  blocks : N.blocks = M.blocks
  outside : ∀ x, x < p ∨ p + L.size type ≤ x → N.contents x = M.contents x

/-- The other node has been initialized. -/
structure Created (L : NodeLayout T) (M N : Memory) (p type : ℕ) : Prop extends
    Added L M N p type where
  zero : Zero L N.contents p type

/-- A node is freed that was added where nothing was in use. -/
theorem Added.freed {p type : ℕ} (added : Added L M N p type) (free : M.nodes p = none)
    (fresh : ∀ x, p ≤ x → x < p + L.size type → ¬ M.InUse L x) :
    (N.nodeAllocatorFree L junk p type).Agrees L M := by
  have nodes : (N.nodeAllocatorFree L junk p type).nodes = M.nodes := by
    show Function.update N.nodes p none = M.nodes
    rw [added.nodes, Function.update_idem, ← free, Function.update_eq_self]
  refine ⟨nodes, added.blocks, fun x used => ?_⟩
  have used' : M.InUse L x := used.congr nodes added.blocks
  have apart : ¬ (p ≤ x ∧ x < p + L.size type) := fun inside => fresh x inside.1 inside.2 used'
  show scribble junk N.contents p (L.size type) x = M.contents x
  rw [scribble, if_neg apart]
  exact added.outside x (by omega)

/-- An attribute that is zero is destroyed without anything being freed. -/
theorem Created.attributeDestroy {p type index : ℕ} {attr : NodeAttribute}
    (created : Created L M N p type) (at_ : attributeAt T type index = some attr) :
    Created L M (N.attributeDestroy junk (p + L.offset type index) attr.type) p type := by
  have inside := L.inside type index attr at_
  have set : Created L M { N with
      contents := N.contents.write (p + L.offset type index)
        (List.replicate (attributeSize attr.type) 0) } p type := by
    refine ⟨⟨created.nodes, created.blocks, fun x outside => ?_⟩, fun index' attr' at' x low high => ?_⟩
    · have kept : N.contents.write (p + L.offset type index)
          (List.replicate (attributeSize attr.type) 0) x = N.contents x :=
        Contents.write_outside (by rw [List.length_replicate]; omega)
      exact kept.trans (created.outside x outside)
    · exact write_zero (created.zero index' attr' at' x low high)
  have zero := created.zero index attr at_
  unfold Memory.attributeDestroy
  cases kind : attr.type.kind with
  | string | rawString =>
      have word : attributeSize attr.type = 8 := by rw [attributeSize, kind]
      rw [word] at zero
      show Created L M (N.genericAllocatorFree junk _) p type
      rw [ofWord_zero zero]
      exact created
  | raw size | number bits | pointer => exact set

/-- A node that is created where nothing was in use. -/
theorem Created.undone {p type : ℕ} (created : Created L M M' p type) (free : M.nodes p = none)
    (fresh : ∀ x, p ≤ x → x < p + L.size type → ¬ M.InUse L x) :
    Undone L M M' [.ofPtr p .nodeAlloc] := by
  intro junk
  have node : M'.nodes p = some type := by rw [created.nodes, Function.update_self]
  have destroyed : Created L M (M'.destroy L junk p type) p type := by
    refine List.foldlRecOn (motive := fun N => Created L M N p type) _ _ created ?_
    intro N created entry inside
    exact created.attributeDestroy (attributeAt_of_mem inside)
  have undo : M'.rollback L junk [.ofPtr p .nodeAlloc] =
      (M'.destroy L junk p type).nodeAllocatorFree L junk p type := by
    show M'.logUndoItem L junk (.ofPtr p .nodeAlloc) = _
    have kind : (LogItem.ofPtr p .nodeAlloc).type = .nodeAlloc := rfl
    have ptr : (LogItem.ofPtr p .nodeAlloc).ptr = p := rfl
    simp only [Memory.logUndoItem, kind, ptr, node]
  rw [undo]
  exact destroyed.toAdded.freed free fresh

end Memory

end HybridDatabase.Rollback
