/-
# Every block has one holder

A block is held by the client, by an attribute of a node, or by an item of the log that
makes it garbage.  Outside of the functions every allocated block has exactly one holder
and every other block none, so that nothing can be released twice.
-/

import HybridDatabase.Transaction.Release

namespace HybridDatabase.Transaction.Release

open HybridDatabase.Base

namespace Memory

variable {M : Memory} {node other p b : ℕ}

@[simp]
theorem blocks_allocate_self : (M.allocate p).blocks p = true := Function.update_self ..

theorem blocks_allocate_of_ne (apart : b ≠ p) : (M.allocate p).blocks b = M.blocks b :=
  Function.update_of_ne apart ..

@[simp]
theorem nodes_create_self (count : ℕ) :
    (M.create node count).nodes node = some (List.replicate count 0) := Function.update_self ..

theorem nodes_create_of_ne (apart : other ≠ node) (count : ℕ) :
    (M.create node count).nodes other = M.nodes other := Function.update_of_ne apart ..

theorem nodes_setString_of_ne (apart : other ≠ node) (index p : ℕ) :
    (M.setString node index p).nodes other = M.nodes other := Function.update_of_ne apart ..

theorem nodes_setString_self (index p : ℕ) : (M.setString node index p).nodes node =
    (M.nodes node).map fun strings => strings.set index p := Function.update_self ..

theorem isSome_setString (index p : ℕ) :
    ((M.setString node index p).nodes other).isSome = (M.nodes other).isSome := by
  by_cases here : other = node
  · rw [here, nodes_setString_self, Option.isSome_map]
  · rw [nodes_setString_of_ne here]

end Memory

namespace Client

variable {C : Client} {node other p b : ℕ} {has : Bool}

@[simp]
theorem nodes_setNode_self : (C.setNode node has).nodes node = has := Function.update_self ..

theorem nodes_setNode_of_ne (apart : other ≠ node) :
    (C.setNode node has).nodes other = C.nodes other := Function.update_of_ne apart ..

@[simp]
theorem blocks_setBlock_self : (C.setBlock p has).blocks p = has := Function.update_self ..

theorem blocks_setBlock_of_ne (apart : b ≠ p) : (C.setBlock p has).blocks b = C.blocks b :=
  Function.update_of_ne apart ..

end Client

/-! ## Holders -/

inductive Holder
  | client
  | string (node index : ℕ)
  | garbage (place : ℕ)
  deriving DecidableEq, Repr

/-- Who holds a block. -/
def Holds (C : Client) (M : Memory) (log : List LogItem) : Holder → ℕ → Prop
  | .client, b => C.blocks b = true
  | .string node index, b => ∃ strings, M.nodes node = some strings ∧ strings[index]? = some b
  | .garbage place, b => log[place]? = some (.memoryDelete b)

/-- A block is allocated and has one holder, or it is not allocated and has none. -/
def Settled {α : Type*} (H : α → Prop) (allocated : Bool) : Prop :=
  (allocated = true ∧ ∃ x, ∀ y, H y ↔ y = x) ∨ (allocated = false ∧ ∀ y, ¬ H y)

namespace Settled

variable {α : Type*} {H H' : α → Prop} {allocated : Bool} {x y : α}

theorem allocated_of (settled : Settled H allocated) (held : H x) : allocated = true := by
  rcases settled with ⟨allocated, -⟩ | ⟨-, none⟩
  · exact allocated
  · exact absurd held (none x)

theorem eq (settled : Settled H allocated) (one : H x) (two : H y) : x = y := by
  rcases settled with ⟨-, z, only⟩ | ⟨-, none⟩
  · rw [(only x).mp one, (only y).mp two]
  · exact absurd one (none x)

theorem not_held (settled : Settled H false) (x : α) : ¬ H x := by
  rcases settled with ⟨allocated, -⟩ | ⟨-, none⟩
  · cases allocated
  · exact none x

theorem congr (settled : Settled H allocated) (same : ∀ x, H' x ↔ H x) : Settled H' allocated := by
  rwa [show H' = H from funext fun x => propext (same x)]

/-- The holders get other names, and the one that has none holds nothing. -/
theorem rename {β : Type*} {H' : β → Prop} (settled : Settled H allocated) (f : β → α)
    (injective : f.Injective) (named : ∀ x, H x → ∃ y, f y = x) (same : ∀ y, H' y ↔ H (f y)) :
    Settled H' allocated := by
  rcases settled with ⟨allocated, x, only⟩ | ⟨free, none⟩
  · obtain ⟨y, rfl⟩ := named x ((only x).mpr rfl)
    refine .inl ⟨allocated, y, fun z => ?_⟩
    rw [same, only]
    exact injective.eq_iff
  · exact .inr ⟨free, fun y held => none _ ((same y).mp held)⟩

end Settled

/-- The account of all nodes and blocks. -/
structure Accounted (C : Client) (M : Memory) (log : List LogItem) : Prop where
  sound : M.broken = false
  even : ∀ b, M.blocks b = true → b % 2 = 0
  evenNode : ∀ node, (M.nodes node).isSome → node % 2 = 0
  blocks : ∀ b, b ≠ 0 → Settled (fun holder => Holds C M log holder b) (M.blocks b)
  nodes : ∀ node, (M.nodes node).isSome ↔ C.nodes node = true ∨ .nodeDelete node ∈ log
  kept : ∀ node, C.nodes node = true → .nodeDelete node ∉ log
  deleted : ∀ i j node : ℕ, log[i]? = some (LogItem.nodeDelete node) →
    log[j]? = some (LogItem.nodeDelete node) → i = j

variable {C : Client} {M : Memory} {log rest : List LogItem} {node p b : ℕ}

/-! ## What the calls do to the account -/

theorem getElem?_append_eq {α : Type*} {l l' : List α} {i : ℕ} {x : α} :
    (l ++ l')[i]? = some x ↔
      l[i]? = some x ∨ l.length ≤ i ∧ l'[i - l.length]? = some x := by
  by_cases inside : i < l.length
  · rw [List.getElem?_append_left inside]
    constructor
    · exact .inl
    · rintro (at_ | ⟨beyond, -⟩)
      · exact at_
      · omega
  · have beyond : l.length ≤ i := Nat.le_of_not_lt inside
    rw [List.getElem?_append_right beyond, List.getElem?_eq_none beyond]
    constructor
    · exact fun at_ => .inr ⟨beyond, at_⟩
    · rintro (at_ | ⟨-, at_⟩)
      · cases at_
      · exact at_

/-- The items delete no node. -/
def SparesNodes (items : List LogItem) : Prop := ∀ node, .nodeDelete node ∉ items

theorem mem_append_of_spares {items : List LogItem} (spares : SparesNodes items) :
    .nodeDelete node ∈ log ++ items ↔ .nodeDelete node ∈ log := by
  rw [List.mem_append]
  exact or_iff_left (spares node)

theorem Accounted.extend {C' : Client} {M' : Memory} {items : List LogItem}
    (good : Accounted C M log) (spares : SparesNodes items) (sound : M'.broken = false)
    (even : ∀ b, M'.blocks b = true → b % 2 = 0)
    (evenNode : ∀ node, (M'.nodes node).isSome → node % 2 = 0)
    (blocks : ∀ b, b ≠ 0 → Settled (fun holder => Holds C' M' (log ++ items) holder b)
      (M'.blocks b))
    (nodes : ∀ node, (M'.nodes node).isSome ↔ C'.nodes node = true ∨ .nodeDelete node ∈ log)
    (kept : ∀ node, C'.nodes node = true → .nodeDelete node ∉ log) :
    Accounted C' M' (log ++ items) where
  sound := sound
  even := even
  evenNode := evenNode
  blocks := blocks
  nodes node := by rw [mem_append_of_spares spares, nodes]
  kept node mine := by
    rw [mem_append_of_spares spares]
    exact kept node mine
  deleted i j node one two := by
    have before {i : ℕ} (at_ : (log ++ items)[i]? = some (.nodeDelete node)) :
        log[i]? = some (.nodeDelete node) := by
      rcases getElem?_append_eq.mp at_ with at_ | ⟨-, at_⟩
      · exact at_
      · exact absurd (List.mem_of_getElem? at_) (spares node)
    exact good.deleted i j node (before one) (before two)

theorem holds_garbage_append {items : List LogItem} {place : ℕ} :
    Holds C M (log ++ items) (.garbage place) b ↔ Holds C M log (.garbage place) b ∨
      log.length ≤ place ∧ items[place - log.length]? = some (.memoryDelete b) :=
  getElem?_append_eq

/-- An item that frees nothing. -/
theorem holds_append_of_ne {item : LogItem} (harmless : ∀ p, item ≠ .memoryDelete p)
    (holder : Holder) : Holds C M (log ++ [item]) holder b ↔ Holds C M log holder b := by
  cases holder with
  | client => exact Iff.rfl
  | string => exact Iff.rfl
  | garbage place =>
      rw [holds_garbage_append]
      apply or_iff_left
      rintro ⟨-, at_⟩
      exact harmless b (List.mem_singleton.mp (List.mem_of_getElem? at_)).symm

/-- The place of a `MEMORY_DELETE` at the end of the log holds its block. -/
theorem holds_append_delete {holder : Holder} :
    Holds C M (log ++ [.memoryDelete p]) holder b ↔
      Holds C M log holder b ∨ holder = .garbage log.length ∧ b = p := by
  cases holder with
  | client => exact (or_iff_left (by rintro ⟨other, -⟩; cases other)).symm
  | string => exact (or_iff_left (by rintro ⟨other, -⟩; cases other)).symm
  | garbage place =>
      rw [holds_garbage_append]
      refine or_congr Iff.rfl ⟨?_, ?_⟩
      · rintro ⟨beyond, at_⟩
        have first : place - log.length < 1 := (List.getElem?_eq_some_iff.mp at_).1
        obtain rfl : place = log.length := by omega
        rw [Nat.sub_self] at at_
        cases at_
        exact ⟨rfl, rfl⟩
      · rintro ⟨here, rfl⟩
        cases here
        exact ⟨Nat.le_refl _, by rw [Nat.sub_self]; rfl⟩

/-- `tr_memory_alloc`. -/
theorem Accounted.alloc (good : Accounted C M log) (free : M.Free p) :
    Accounted (C.setBlock p true) (M.allocate p) (log ++ [.memoryAlloc p]) := by
  obtain ⟨nonzero, even, fresh, -⟩ := free
  have before := good.blocks p nonzero
  rw [fresh] at before
  have shorter (holder : Holder) {b : ℕ} :
      Holds (C.setBlock p true) (M.allocate p) (log ++ [.memoryAlloc p]) holder b ↔
        Holds (C.setBlock p true) M log holder b :=
    holds_append_of_ne (fun _ => LogItem.noConfusion) holder
  refine good.extend (fun node inside => by cases List.mem_singleton.mp inside) good.sound
    (fun b allocated => ?_) good.evenNode (fun b real => ?_) good.nodes good.kept
  · by_cases here : b = p
    · rw [here, even]
    · rw [Memory.blocks_allocate_of_ne here] at allocated
      exact good.even b allocated
  · by_cases here : b = p
    · subst here
      refine .inl ⟨Memory.blocks_allocate_self, .client, fun holder => (shorter holder).trans ?_⟩
      cases holder with
      | client => exact iff_of_true Client.blocks_setBlock_self rfl
      | string node index =>
          exact iff_of_false (before.not_held (.string node index)) Holder.noConfusion
      | garbage place =>
          exact iff_of_false (before.not_held (.garbage place)) Holder.noConfusion
    · rw [Memory.blocks_allocate_of_ne here]
      refine (good.blocks b real).congr fun holder => (shorter holder).trans ?_
      cases holder with
      | client => rw [Holds, Holds, Client.blocks_setBlock_of_ne here]
      | string => exact Iff.rfl
      | garbage => exact Iff.rfl

/-- `tr_memory_free`. -/
theorem Accounted.free (good : Accounted C M log) (held : C.blocks p = true) :
    Accounted (C.setBlock p false) M (log ++ [.memoryDelete p]) := by
  refine good.extend (fun node inside => by cases List.mem_singleton.mp inside) good.sound
    good.even good.evenNode (fun b real => ?_) good.nodes good.kept
  have before := good.blocks b real
  by_cases here : b = p
  · subst here
    have mine : Holds C M log .client b := held
    refine .inl ⟨before.allocated_of mine, .garbage log.length,
      fun holder => holds_append_delete.trans ⟨?_, fun new => .inr ⟨new, rfl⟩⟩⟩
    rintro (old | ⟨new, -⟩)
    · cases holder with
      | client =>
          rw [Holds, Client.blocks_setBlock_self] at old
          cases old
      | string node index =>
          have held : Holds C M log (.string node index) b := old
          cases before.eq mine held
      | garbage place =>
          have held : Holds C M log (.garbage place) b := old
          cases before.eq mine held
    · exact new
  · refine before.congr fun holder => holds_append_delete.trans ?_
    refine (or_iff_left fun new => here new.2).trans ?_
    cases holder with
    | client => rw [Holds, Holds, Client.blocks_setBlock_of_ne here]
    | string => exact Iff.rfl
    | garbage => exact Iff.rfl

/-- `tr_node_create`. -/
theorem Accounted.create (good : Accounted C M log) (free : M.Free node) (count : ℕ) :
    Accounted (C.setNode node true) (M.create node count) (log ++ [.nodeAlloc node]) := by
  obtain ⟨-, even, -, fresh⟩ := free
  have absent : ¬ (C.nodes node = true ∨ .nodeDelete node ∈ log) := by
    rw [← good.nodes, fresh]
    exact Bool.noConfusion
  refine good.extend (fun node inside => by cases List.mem_singleton.mp inside) good.sound
    good.even (fun n present => ?_) (fun b real => ?_) (fun n => ?_) fun n mine => ?_
  · by_cases here : n = node
    · rw [here, even]
    · rw [Memory.nodes_create_of_ne here] at present
      exact good.evenNode n present
  · refine (good.blocks b real).congr fun holder =>
      (holds_append_of_ne (fun _ => LogItem.noConfusion) holder).trans ?_
    cases holder with
    | client => exact Iff.rfl
    | garbage => exact Iff.rfl
    | string n index =>
        by_cases here : n = node
        · subst here
          refine iff_of_false ?_ ?_
          · rintro ⟨strings, found, at_⟩
            rw [Memory.nodes_create_self] at found
            cases found
            exact real (List.eq_of_mem_replicate (List.mem_of_getElem? at_))
          · rintro ⟨strings, found, -⟩
            rw [fresh] at found
            cases found
        · rw [Holds, Holds, Memory.nodes_create_of_ne here]
  · by_cases here : n = node
    · rw [here, Memory.nodes_create_self, Client.nodes_setNode_self]
      exact iff_of_true rfl (.inl rfl)
    · rw [Memory.nodes_create_of_ne here, Client.nodes_setNode_of_ne here]
      exact good.nodes n
  · by_cases here : n = node
    · rw [here]
      exact fun inside => absent (.inr inside)
    · rw [Client.nodes_setNode_of_ne here] at mine
      exact good.kept n mine

/-- `tr_node_delete`. -/
theorem Accounted.delete (good : Accounted C M log) (held : C.nodes node = true) :
    Accounted (C.setNode node false) M (log ++ [.nodeDelete node]) where
  sound := good.sound
  even := good.even
  evenNode := good.evenNode
  blocks b real := (good.blocks b real).congr fun holder =>
    holds_append_of_ne (fun _ => LogItem.noConfusion) holder
  nodes n := by
    rw [List.mem_append, List.mem_singleton, good.nodes]
    by_cases here : n = node
    · subst here
      exact iff_of_true (.inl held) (.inr (.inr rfl))
    · rw [Client.nodes_setNode_of_ne here]
      refine or_congr Iff.rfl (or_iff_left fun same => here ?_).symm
      cases same
      rfl
  kept n mine inside := by
    have other : n ≠ node := by
      rintro rfl
      rw [Client.nodes_setNode_self] at mine
      cases mine
    rw [Client.nodes_setNode_of_ne other] at mine
    rcases List.mem_append.mp inside with old | new
    · exact good.kept n mine old
    · cases List.mem_singleton.mp new
      exact other rfl
  deleted i j n one two := by
    have new {i : ℕ} (beyond : log.length ≤ i)
        (at_ : [LogItem.nodeDelete node][i - log.length]? = some (.nodeDelete n)) :
        i = log.length ∧ n = node := by
      have first : i - log.length < 1 := (List.getElem?_eq_some_iff.mp at_).1
      obtain rfl : i = log.length := by omega
      rw [Nat.sub_self] at at_
      cases at_
      exact ⟨rfl, rfl⟩
    have old {i : ℕ} (at_ : log[i]? = some (.nodeDelete n)) : n ≠ node := by
      rintro rfl
      exact good.kept n held (List.mem_of_getElem? at_)
    rcases getElem?_append_eq.mp one with one | ⟨beyond, one⟩ <;>
      rcases getElem?_append_eq.mp two with two | ⟨beyond', two⟩
    · exact good.deleted i j n one two
    · exact absurd (new beyond' two).2 (old one)
    · exact absurd (new beyond one).2 (old two)
    · rw [(new beyond one).1, (new beyond' two).1]

/-! ## Writing a string -/

/-- What `trInternalWrite_` appends to the log for a string. -/
def writeItems (node index old : ℕ) : Option ℕ → List LogItem
  | none => [.memoryDelete old, .nodeModify node index old 0]
  | some copy => [.memoryDelete old, .memoryAlloc copy, .nodeModify node index old copy]

/-- The memory after a string is written. -/
def Memory.written (M : Memory) (node index : ℕ) : Option ℕ → Memory
  | none => M.setString node index 0
  | some copy => (M.allocate copy).setString node index copy

theorem garbage_writeItems {index old place : ℕ} {copy : Option ℕ} :
    (writeItems node index old copy)[place]? = some (.memoryDelete b) ↔ place = 0 ∧ b = old := by
  constructor
  · intro at_
    cases copy with
    | none =>
        match place, at_ with
        | 0, at_ =>
            cases at_
            exact ⟨rfl, rfl⟩
        | 1, at_ => cases at_
    | some copy =>
        match place, at_ with
        | 0, at_ =>
            cases at_
            exact ⟨rfl, rfl⟩
        | 1, at_ => cases at_
        | 2, at_ => cases at_
  · rintro ⟨rfl, rfl⟩
    cases copy <;> rfl

theorem spares_writeItems {index old : ℕ} {copy : Option ℕ} :
    SparesNodes (writeItems node index old copy) := by
  intro n inside
  cases copy with
  | none =>
      rcases List.mem_cons.mp inside with same | inside
      · cases same
      · cases List.mem_singleton.mp inside
  | some copy =>
      rcases List.mem_cons.mp inside with same | inside
      · cases same
      · rcases List.mem_cons.mp inside with same | inside
        · cases same
        · cases List.mem_singleton.mp inside

theorem written_nodes_self {strings : List ℕ} {index : ℕ} {copy : Option ℕ}
    (found : M.nodes node = some strings) :
    (M.written node index copy).nodes node = some (strings.set index (copy.getD 0)) := by
  cases copy with
  | none =>
      rw [Memory.written, Memory.nodes_setString_self, found]
      rfl
  | some copy =>
      have same : (M.allocate copy).nodes node = some strings := found
      rw [Memory.written, Memory.nodes_setString_self, same]
      rfl

theorem written_nodes_of_ne {n index : ℕ} {copy : Option ℕ} (apart : n ≠ node) :
    (M.written node index copy).nodes n = M.nodes n := by
  cases copy with
  | none => exact Memory.nodes_setString_of_ne apart index 0
  | some copy => exact Memory.nodes_setString_of_ne (M := M.allocate copy) apart index copy

theorem isSome_written {n index : ℕ} {copy : Option ℕ} :
    ((M.written node index copy).nodes n).isSome = (M.nodes n).isSome := by
  cases copy with
  | none => exact Memory.isSome_setString index 0
  | some copy => exact Memory.isSome_setString (M := M.allocate copy) index copy

/-- The attribute holds the new string, and the log holds the old one. -/
theorem holds_write {strings : List ℕ} {index old : ℕ} {copy : Option ℕ}
    (found : M.nodes node = some strings) (at_ : strings[index]? = some old) {holder : Holder} :
    Holds C (M.written node index copy) (log ++ writeItems node index old copy) holder b ↔
      (holder = .string node index ∧ b = copy.getD 0) ∨
      (holder = .garbage log.length ∧ b = old) ∨
      (holder ≠ .string node index ∧ Holds C M log holder b) := by
  cases holder with
  | client =>
      constructor
      · exact fun held => .inr (.inr ⟨Holder.noConfusion, held⟩)
      · rintro (⟨other, -⟩ | ⟨other, -⟩ | ⟨-, held⟩)
        · cases other
        · cases other
        · exact held
  | string n i =>
      by_cases here : n = node
      · subst here
        rw [Holds, written_nodes_self found]
        by_cases same : i = index
        · subst same
          have inside : i < strings.length := (List.getElem?_eq_some_iff.mp at_).1
          constructor
          · rintro ⟨changed, ⟨⟩, at_⟩
            rw [List.getElem?_set_self inside] at at_
            cases at_
            exact .inl ⟨rfl, rfl⟩
          · rintro (⟨-, rfl⟩ | ⟨other, -⟩ | ⟨other, -⟩)
            · exact ⟨_, rfl, List.getElem?_set_self inside⟩
            · cases other
            · exact absurd rfl other
        · constructor
          · rintro ⟨changed, ⟨⟩, at_⟩
            rw [List.getElem?_set_ne (Ne.symm same)] at at_
            refine .inr (.inr ⟨?_, strings, found, at_⟩)
            rintro ⟨⟩
            exact same rfl
          · rintro (⟨other, -⟩ | ⟨other, -⟩ | ⟨-, strings', found', at_⟩)
            · cases other
              exact absurd rfl same
            · cases other
            · rw [found] at found'
              cases found'
              exact ⟨_, rfl, by rw [List.getElem?_set_ne (Ne.symm same), at_]⟩
      · rw [Holds, written_nodes_of_ne here]
        constructor
        · intro held
          refine .inr (.inr ⟨?_, held⟩)
          rintro ⟨⟩
          exact here rfl
        · rintro (⟨other, -⟩ | ⟨other, -⟩ | ⟨-, held⟩)
          · cases other
            exact absurd rfl here
          · cases other
          · exact held
  | garbage place =>
      rw [holds_garbage_append, garbage_writeItems]
      constructor
      · rintro (held | ⟨beyond, first, rfl⟩)
        · exact .inr (.inr ⟨Holder.noConfusion, held⟩)
        · obtain rfl : place = log.length := by omega
          exact .inr (.inl ⟨rfl, rfl⟩)
      · rintro (⟨other, -⟩ | ⟨here, rfl⟩ | ⟨-, held⟩)
        · cases other
        · cases here
          exact .inr ⟨Nat.le_refl _, Nat.sub_self _, rfl⟩
        · exact .inl held

theorem blocks_written_of_ne {index : ℕ} {copy : Option ℕ} (apart : copy ≠ some b) :
    (M.written node index copy).blocks b = M.blocks b := by
  cases copy with
  | none => rfl
  | some copy => exact Memory.blocks_allocate_of_ne fun same => apart (by rw [same])

/-- `trInternalWrite_`. -/
theorem Accounted.write (good : Accounted C M log) {strings : List ℕ} {index old : ℕ}
    {copy : Option ℕ} (free : ∀ p, copy = some p → M.Free p)
    (found : M.nodes node = some strings) (at_ : strings[index]? = some old) :
    Accounted C (M.written node index copy) (log ++ writeItems node index old copy) := by
  refine good.extend spares_writeItems ?_ (fun b allocated => ?_) (fun n present => ?_)
    (fun b real => ?_) (fun n => ?_) good.kept
  · cases copy <;> exact good.sound
  · by_cases new : copy = some b
    · exact (free b new).2.1
    · rw [blocks_written_of_ne new] at allocated
      exact good.even b allocated
  · rw [isSome_written] at present
    exact good.evenNode n present
  · have before := good.blocks b real
    by_cases new : copy = some b
    · subst new
      obtain ⟨-, -, fresh, -⟩ := free b rfl
      rw [fresh] at before
      refine .inl ⟨Memory.blocks_allocate_self, .string node index,
        fun holder => (holds_write found at_).trans ⟨?_, fun here => .inl ⟨here, rfl⟩⟩⟩
      rintro (⟨here, -⟩ | ⟨-, rfl⟩ | ⟨-, held⟩)
      · exact here
      · exact absurd ⟨strings, found, at_⟩ (before.not_held (.string node index))
      · exact absurd held (before.not_held holder)
    · rw [blocks_written_of_ne new]
      have other : b ≠ copy.getD 0 := by
        cases copy with
        | none => exact real
        | some copy => exact fun same => new (by rw [same]; rfl)
      by_cases given : b = old
      · subst given
        have mine : Holds C M log (.string node index) b := ⟨strings, found, at_⟩
        refine .inl ⟨before.allocated_of mine, .garbage log.length,
          fun holder => (holds_write found at_).trans ⟨?_, fun here => .inr (.inl ⟨here, rfl⟩)⟩⟩
        rintro (⟨-, same⟩ | ⟨here, -⟩ | ⟨apart, held⟩)
        · exact absurd same other
        · exact here
        · exact absurd (before.eq held mine) apart
      · refine before.congr fun holder => (holds_write found at_).trans ⟨?_, fun held => ?_⟩
        · rintro (⟨-, same⟩ | ⟨-, same⟩ | ⟨-, held⟩)
          · exact absurd same other
          · exact absurd same given
          · exact held
        · refine .inr (.inr ⟨?_, held⟩)
          rintro rfl
          obtain ⟨strings', found', here⟩ := held
          rw [found] at found'
          cases found'
          rw [at_] at here
          cases here
          exact given rfl
  · rw [isSome_written]
    exact good.nodes n

end HybridDatabase.Transaction.Release
