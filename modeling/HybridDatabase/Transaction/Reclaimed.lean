/-
# What commits and aborts release

The garbage of a log is freed item by item, and each item gives up its place: at the end the
client and the attributes are the only holders.  An abort takes every call back, so that
memory is exactly what it was.
-/

import HybridDatabase.Transaction.Holders

namespace HybridDatabase.Transaction.Release

open HybridDatabase.Base

variable {C : Client} {M : Memory} {log rest : List LogItem} {item : LogItem} {node p b : ℕ}

/-! ## Freeing garbage -/

theorem free_of_allocated (real : p ≠ 0) (allocated : M.blocks p = true) :
    M.genericAllocatorFree p = { M with blocks := Function.update M.blocks p false } := by
  rw [Memory.genericAllocatorFree, if_neg real, if_pos allocated]

@[simp]
theorem free_zero (M : Memory) : M.genericAllocatorFree 0 = M := if_pos rfl

/-- `destroy` of different strings that are allocated. -/
theorem destroy_spec {strings : List ℕ} {M : Memory}
    (allocated : ∀ b ∈ strings, b ≠ 0 → M.blocks b = true)
    (distinct : ∀ b, b ≠ 0 → ∀ i j : ℕ, strings[i]? = some b → strings[j]? = some b → i = j) :
    (M.destroy strings).broken = M.broken ∧ (M.destroy strings).nodes = M.nodes ∧
      ∀ b, b ≠ 0 → ((M.destroy strings).blocks b = (M.blocks b && decide (b ∉ strings))) := by
  induction strings generalizing M with
  | nil => exact ⟨rfl, rfl, fun b _ => by simp [Memory.destroy]⟩
  | cons p strings ih =>
      have later : ∀ b, b ≠ 0 → ∀ i j : ℕ, strings[i]? = some b → strings[j]? = some b →
          i = j := fun b real i j one two =>
        Nat.succ.inj (distinct b real (i + 1) (j + 1) one two)
      by_cases zero : p = 0
      · subst zero
        obtain ⟨broken, nodes, blocks⟩ := ih (M := M)
          (fun b inside => allocated b (List.mem_cons_of_mem 0 inside)) later
        rw [Memory.destroy, List.foldl_cons, free_zero]
        refine ⟨broken, nodes, fun b real => (blocks b real).trans ?_⟩
        rw [decide_eq_decide.mpr]
        rw [List.mem_cons, not_or]
        exact (and_iff_right real).symm
      · have here := allocated p List.mem_cons_self zero
        have apart : p ∉ strings := by
          intro inside
          obtain ⟨i, at_⟩ := List.mem_iff_getElem?.mp inside
          cases distinct p zero 0 (i + 1) rfl at_
        rw [Memory.destroy, List.foldl_cons, free_of_allocated zero here]
        obtain ⟨broken, nodes, blocks⟩ := ih
          (M := { M with blocks := Function.update M.blocks p false })
          (fun b inside real => by
            have other : b ≠ p := by
              rintro rfl
              exact apart inside
            exact (Function.update_of_ne other ..).trans
              (allocated b (List.mem_cons_of_mem p inside) real)) later
        refine ⟨broken, nodes, fun b real => (blocks b real).trans ?_⟩
        show (Function.update M.blocks p false b && _) = _
        by_cases same : b = p
        · subst same
          simp
        · rw [Function.update_of_ne same]
          simp [same]

/-- The holders when the first item of the log is gone. -/
def Holder.shift : Holder → Holder
  | .garbage place => .garbage (place + 1)
  | holder => holder

theorem shift_injective : Holder.shift.Injective := by
  intro one two same
  cases one <;> cases two <;> cases same <;> rfl

theorem holds_tail {holder : Holder} :
    Holds C M rest holder b ↔ Holds C M (item :: rest) holder.shift b := by
  cases holder <;> exact Iff.rfl

theorem named_of_ne (other : item ≠ .memoryDelete b) (holder : Holder)
    (held : Holds C M (item :: rest) holder b) : ∃ before : Holder, before.shift = holder := by
  cases holder with
  | client => exact ⟨.client, rfl⟩
  | string node index => exact ⟨.string node index, rfl⟩
  | garbage place =>
      cases place with
      | zero =>
          cases held
          exact absurd rfl other
      | succ place => exact ⟨.garbage place, rfl⟩

/-- The first item is done with. -/
theorem Accounted.next (good : Accounted C M (item :: rest)) {M' : Memory}
    (sound : M'.broken = false) (even : ∀ b, M'.blocks b = true → b % 2 = 0)
    (blocks : ∀ b, b ≠ 0 → Settled (fun holder => Holds C M' rest holder b) (M'.blocks b))
    (nodes : ∀ node, (M'.nodes node).isSome ↔
      (M.nodes node).isSome ∧ item ≠ .nodeDelete node) : Accounted C M' rest where
  sound := sound
  even := even
  evenNode node present := good.evenNode node ((nodes node).mp present).1
  blocks := blocks
  nodes node := by
    rw [nodes, good.nodes, List.mem_cons]
    constructor
    · rintro ⟨mine | here | later, other⟩
      · exact .inl mine
      · exact absurd here.symm other
      · exact .inr later
    · rintro (mine | later)
      · refine ⟨.inl mine, ?_⟩
        rintro rfl
        exact good.kept node mine List.mem_cons_self
      · refine ⟨.inr (.inr later), ?_⟩
        rintro rfl
        obtain ⟨i, at_⟩ := List.mem_iff_getElem?.mp later
        cases good.deleted 0 (i + 1) node rfl at_
  kept node mine inside := good.kept node mine (List.mem_cons_of_mem item inside)
  deleted i j node one two := Nat.succ.inj (good.deleted (i + 1) (j + 1) node one two)

/-- An item that leaves no garbage. -/
theorem Accounted.skip (good : Accounted C M (item :: rest))
    (block : ∀ p, item ≠ .memoryDelete p) (node : ∀ node, item ≠ .nodeDelete node) :
    Accounted C M rest :=
  good.next good.sound good.even
    (fun b real => (good.blocks b real).rename Holder.shift shift_injective
      (named_of_ne (block b)) fun _ => holds_tail)
    fun n => (and_iff_left (node n)).symm

/-- A block of the garbage is freed. -/
theorem Accounted.freeBlock (good : Accounted C M (.memoryDelete p :: rest)) :
    Accounted C (M.genericAllocatorFree p) rest := by
  have nodes (M' : Memory) (same : M'.nodes = M.nodes) (node : ℕ) :
      (M'.nodes node).isSome ↔ (M.nodes node).isSome ∧
        LogItem.memoryDelete p ≠ .nodeDelete node := by
    rw [same]
    exact (and_iff_left LogItem.noConfusion).symm
  have others {b : ℕ} (real : b ≠ 0) (apart : b ≠ p) :
      Settled (fun holder => Holds C M rest holder b) (M.blocks b) := by
    refine (good.blocks b real).rename Holder.shift shift_injective
      (named_of_ne fun same => apart ?_) fun _ => holds_tail
    cases same
    rfl
  by_cases zero : p = 0
  · subst zero
    rw [free_zero]
    exact good.next good.sound good.even (fun b real => others real real) (nodes M rfl)
  · have mine : Holds C M (.memoryDelete p :: rest) (.garbage 0) p := rfl
    rw [free_of_allocated zero ((good.blocks p zero).allocated_of mine)]
    refine good.next good.sound (fun b allocated => ?_) (fun b real => ?_) (nodes _ rfl)
    · by_cases here : b = p
      · subst here
        have freed : Function.update M.blocks b false b = true := allocated
        rw [Function.update_self] at freed
        cases freed
      · exact good.even b ((Function.update_of_ne here ..).symm.trans allocated)
    · show Settled (fun holder => Holds C M rest holder b) (Function.update M.blocks p false b)
      by_cases here : b = p
      · subst here
        refine .inr ⟨Function.update_self .., fun holder held => ?_⟩
        cases holder <;> cases (good.blocks b real).eq mine (holds_tail.mp held)
      · rw [Function.update_of_ne here]
        exact others real here

/-- A node of the garbage is destroyed and freed. -/
theorem Accounted.freeNode (good : Accounted C M (.nodeDelete node :: rest)) :
    Accounted C (M.release node) rest := by
  have present := (good.nodes node).mpr (.inr List.mem_cons_self)
  obtain ⟨strings, found⟩ := Option.isSome_iff_exists.mp present
  have mine {i b : ℕ} (at_ : strings[i]? = some b) :
      Holds C M (.nodeDelete node :: rest) (.string node i) b := ⟨strings, found, at_⟩
  have allocated : ∀ b ∈ strings, b ≠ 0 → M.blocks b = true := by
    intro b inside real
    obtain ⟨i, at_⟩ := List.mem_iff_getElem?.mp inside
    exact (good.blocks b real).allocated_of (mine at_)
  have distinct : ∀ b, b ≠ 0 → ∀ i j : ℕ, strings[i]? = some b → strings[j]? = some b → i = j := by
    intro b real i j one two
    cases (good.blocks b real).eq (mine one) (mine two)
    rfl
  obtain ⟨broken, nodes, blocks⟩ := destroy_spec allocated distinct
  rw [Memory.release, found]
  refine good.next (broken.trans good.sound) (fun b allocated => ?_) (fun b real => ?_)
    fun n => ?_
  · by_cases zero : b = 0
    · rw [zero]
    · have kept : (M.destroy strings).blocks b = true := allocated
      rw [blocks b zero, Bool.and_eq_true] at kept
      exact good.even b kept.1
  · show Settled _ ((M.destroy strings).blocks b)
    rw [blocks b real]
    have before := good.blocks b real
    have nodesHere : Function.update (M.destroy strings).nodes node none node = none :=
      Function.update_self ..
    by_cases inside : b ∈ strings
    · obtain ⟨i, at_⟩ := List.mem_iff_getElem?.mp inside
      refine .inr ⟨by simp [inside], fun holder held => ?_⟩
      cases holder with
      | client =>
          have held : Holds C M (.nodeDelete node :: rest) .client b := held
          cases before.eq (mine at_) held
      | garbage place =>
          have held : Holds C M (.nodeDelete node :: rest) (.garbage (place + 1)) b := held
          cases before.eq (mine at_) held
      | string n j =>
          obtain ⟨strings', found', at'⟩ := held
          have found' : Function.update (M.destroy strings).nodes node none n = some strings' :=
            found'
          have other : n ≠ node := by
            rintro rfl
            rw [nodesHere] at found'
            cases found'
          rw [Function.update_of_ne other, nodes] at found'
          have held : Holds C M (.nodeDelete node :: rest) (.string n j) b :=
            ⟨strings', found', at'⟩
          cases before.eq (mine at_) held
          exact other rfl
    · rw [show (M.blocks b && decide (b ∉ strings)) = M.blocks b by simp [inside]]
      refine before.rename Holder.shift shift_injective
        (named_of_ne LogItem.noConfusion) fun holder => Iff.trans ?_ holds_tail
      cases holder with
      | client => exact Iff.rfl
      | garbage => exact Iff.rfl
      | string n j =>
          show (∃ strings', Function.update (M.destroy strings).nodes node none n =
            some strings' ∧ strings'[j]? = some b) ↔ _
          by_cases here : n = node
          · subst here
            refine iff_of_false ?_ ?_
            · rintro ⟨strings', found', -⟩
              rw [nodesHere] at found'
              cases found'
            · rintro ⟨strings', found', at_⟩
              rw [found] at found'
              cases found'
              exact inside (List.mem_of_getElem? at_)
          · rw [Function.update_of_ne here, nodes]
            exact Iff.rfl
  · show (Function.update (M.destroy strings).nodes node none n).isSome ↔ _
    by_cases here : n = node
    · subst here
      rw [Function.update_self]
      exact iff_of_false Bool.noConfusion fun kept => kept.2 rfl
    · rw [Function.update_of_ne here, nodes]
      refine (and_iff_left fun same => here ?_).symm
      cases same
      rfl

/-- The lowest bit of an item tells a block. -/
theorem even_lor_one (even : p % 2 = 0) : (p ||| 1) % 2 = 1 ∧ (p ||| 1) ^^^ 1 = p := by
  refine ⟨Nat.or_mod_two_eq_one.mpr (.inr rfl), Nat.eq_of_testBit_eq fun i => ?_⟩
  rw [Nat.testBit_xor, Nat.testBit_or]
  cases i with
  | zero => simp [Nat.testBit_zero, even]
  | succ i => simp [Nat.testBit_succ]

/-- `free_garbage` of the garbage of a log. -/
theorem Accounted.freeGarbage (good : Accounted C M log) :
    Accounted C (freeGarbage M (garbageStack log)) [] := by
  induction log generalizing M with
  | nil => exact good
  | cons item log ih =>
      cases item with
      | nodeModify => exact ih (good.skip (fun _ => LogItem.noConfusion) fun _ => LogItem.noConfusion)
      | nodeAlloc => exact ih (good.skip (fun _ => LogItem.noConfusion) fun _ => LogItem.noConfusion)
      | memoryAlloc => exact ih (good.skip (fun _ => LogItem.noConfusion) fun _ => LogItem.noConfusion)
      | nodeDelete node =>
          have even := good.evenNode node ((good.nodes node).mpr (.inr List.mem_cons_self))
          have first : freeItem M node = M.release node := if_neg (by omega)
          have rest := ih good.freeNode
          rw [← first] at rest
          exact rest
      | memoryDelete p =>
          have even : p % 2 = 0 := by
            by_cases zero : p = 0
            · rw [zero]
            · have held : Holds C M (.memoryDelete p :: log) (.garbage 0) p := rfl
              exact good.even p ((good.blocks p zero).allocated_of held)
          obtain ⟨tagged, back⟩ := even_lor_one even
          have first : freeItem M (p ||| 1) = M.genericAllocatorFree p := by
            rw [freeItem, if_pos tagged, back]
          have rest := ih good.freeBlock
          rw [← first] at rest
          exact rest

/-! ## Undoing -/

theorem undo_allocate (free : M.Free p) : (M.allocate p).genericAllocatorFree p = M := by
  obtain ⟨real, -, fresh, -⟩ := free
  rw [free_of_allocated real Memory.blocks_allocate_self]
  show { M with blocks := Function.update (Function.update M.blocks p true) p false } = M
  rw [Function.update_idem, ← fresh, Function.update_eq_self]

theorem undo_setString {strings : List ℕ} {index old new : ℕ} (found : M.nodes node = some strings)
    (at_ : strings[index]? = some old) :
    (M.setString node index new).setString node index old = M := by
  obtain ⟨inside, rfl⟩ := List.getElem?_eq_some_iff.mp at_
  rw [Memory.setString, Memory.nodes_setString_self, found]
  show { M with
    nodes := Function.update (Function.update M.nodes node _) node
      (some ((strings.set index new).set index strings[index])) } = M
  rw [Function.update_idem, List.set_set, List.set_getElem_self, ← found, Function.update_eq_self]

/-- A written string is taken back. -/
theorem undo_write {strings : List ℕ} {index old : ℕ} {copy : Option ℕ}
    (free : ∀ p, copy = some p → M.Free p) (found : M.nodes node = some strings)
    (at_ : strings[index]? = some old) :
    rollback logUndoItem (M.written node index copy) (writeItems node index old copy) = M := by
  cases copy with
  | none => exact undo_setString found at_
  | some copy =>
      have back : ((M.allocate copy).setString node index copy).setString node index old =
          M.allocate copy := undo_setString (M := M.allocate copy) found at_
      show (((M.allocate copy).setString node index copy).setString node index old).genericAllocatorFree
        copy = M
      rw [back, undo_allocate (free copy rfl)]

/-- A created node is taken back. -/
theorem undo_create (free : M.Free node) (count : ℕ) : (M.create node count).release node = M := by
  obtain ⟨-, -, -, fresh⟩ := free
  have nothing : ∀ (count : ℕ) (M : Memory), M.destroy (List.replicate count 0) = M := by
    intro count
    induction count with
    | zero => exact fun M => rfl
    | succ count ih => exact fun M => (congrArg (Memory.destroy · _) (free_zero M)).trans (ih M)
  rw [Memory.release, Memory.nodes_create_self]
  simp only [nothing]
  show { M with nodes := Function.update (Function.update M.nodes node _) node none } = M
  rw [Function.update_idem, ← fresh, Function.update_eq_self]

/-! ## Runs -/

namespace State

variable {s t : State} {strings : ℕ → ℕ}

/-- The lengths of the log to which an abort can lead, with that of the main transaction. -/
def marks (s : State) : List ℕ := if s.running then s.transactions ++ [0] else []

/-- The account is right, now and at every mark; `earlier` gives the account of the client for
each length of the log. -/
structure Inv (earlier : ℕ → Client) (s : State) : Prop where
  holds : HoldsAtMarks logUndoItem (fun log M => Accounted (earlier log.length) M log) s.log
    s.marks s.memory
  client : earlier s.log.length = s.client
  saved : s.saved = s.marks.map earlier
  idle : s.running = false → s.log = [] ∧ s.transactions = []

variable {earlier : ℕ → Client}

theorem Inv.now (inv : s.Inv earlier) : Accounted s.client s.memory s.log := by
  have now := inv.holds.now
  rwa [inv.client] at now

theorem inv_initial : initial.Inv fun _ => initial.client where
  holds := .start {
    sound := rfl
    even := fun _ allocated => by cases allocated
    evenNode := fun _ present => by cases present
    blocks := fun b _ => .inr ⟨rfl, fun holder held => by
      cases holder with
      | client => cases held
      | string => obtain ⟨_, found, -⟩ := held; cases found
      | garbage => cases held⟩
    nodes := fun node => iff_of_false Bool.noConfusion (by rintro (mine | gone) <;> contradiction)
    kept := fun node _ => List.not_mem_nil
    deleted := fun _ _ _ one => by cases one }
  client := rfl
  saved := rfl
  idle _ := ⟨rfl, rfl⟩

/-- A call that changes memory, the log and the account. -/
theorem Inv.call (inv : s.Inv earlier) (running : s.running = true) {C : Client} {M : Memory}
    {items : List LogItem} (more : items ≠ []) (undone : rollback logUndoItem M items = s.memory)
    (good : Accounted C M (s.log ++ items)) : ∃ earlier,
      Inv earlier { s with memory := M, log := s.log ++ items, client := C } := by
  let earlier' := fun n => if n ≤ s.log.length then earlier n else C
  have longer : ¬ (s.log ++ items).length ≤ s.log.length := by
    rw [List.length_append]
    have := List.length_pos_iff.mpr more
    omega
  have before : HoldsAtMarks logUndoItem (fun log M => Accounted (earlier' log.length) M log) s.log
      s.marks s.memory := inv.holds.impOfLe fun log' M short good => by
    show Accounted (if _ then _ else _) M log'
    rwa [if_pos short]
  refine ⟨earlier', before.write undone ?_, if_neg longer, ?_, fun idle => ?_⟩
  · show Accounted (if _ then _ else _) M _
    rwa [if_neg longer]
  · refine inv.saved.trans (List.map_congr_left fun mark inside => ?_)
    exact (if_pos (inv.holds.within mark inside)).symm
  · rw [running] at idle
    cases idle

/-- The end of a main transaction. -/
theorem Inv.finish {C : Client} {M : Memory} (good : Accounted C M []) (transactions : s.transactions = []) :
    Inv (fun _ => C) { s with memory := M, running := false, log := [], client := C, saved := [] } :=
  ⟨.start good, rfl, rfl, fun _ => ⟨rfl, transactions⟩⟩

/-- What `trInternalWrite_` does. -/
theorem trInternalWrite_spec {node index : ℕ} {copy : Option ℕ}
    (moved : s.trInternalWrite node index copy = some t) : ∃ strings old,
      s.memory.nodes node = some strings ∧ strings[index]? = some old ∧
      (∀ p, copy = some p → s.memory.Free p) ∧
      t = { s with
        memory := s.memory.written node index copy
        log := s.log ++ writeItems node index old copy } := by
  obtain ⟨strings, found, moved⟩ := Option.bind_eq_some_iff.mp moved
  obtain ⟨old, at_, moved⟩ := Option.bind_eq_some_iff.mp moved
  obtain ⟨u, written, moved⟩ := Option.bind_eq_some_iff.mp moved
  cases moved
  refine ⟨strings, old, found, at_, ?_, ?_⟩
  · rintro p rfl
    simp only [attributeWrite] at written
    split at written
    · next free => exact free
    · cases written
  · cases copy with
    | none =>
        cases written
        simp only [push, writeItems, Memory.written, List.append_assoc, List.cons_append,
          List.nil_append, Option.getD_none]
    | some copy =>
        simp only [attributeWrite] at written
        split at written
        · cases written
          simp only [push, writeItems, Memory.written, List.append_assoc, List.cons_append,
            List.nil_append, Option.getD_some]
        · cases written

/-- Back to the newest mark. -/
theorem Inv.abort (inv : s.Inv earlier) (running : s.running = true)
    (moved : s.trAbort = some t) : ∃ earlier, t.Inv earlier := by
  have saved := inv.saved
  have holds := inv.holds
  rw [marks, if_pos running] at saved holds
  unfold trAbort at moved
  cases transactions : s.transactions with
  | nil =>
      rw [transactions] at saved holds
      simp only [transactions, saved, List.nil_append, List.map_cons, List.map_nil] at moved
      cases moved
      have back := holds.rollback.now
      rw [List.take_zero] at back
      exact ⟨_, Inv.finish back transactions⟩
  | cons pos older =>
      rw [transactions] at saved holds
      simp only [transactions, saved, List.cons_append, List.map_cons] at moved
      cases moved
      have short := holds.within pos List.mem_cons_self
      refine ⟨earlier, ?_, ?_, ?_, fun idle => ?_⟩
      · rw [marks]
        show HoldsAtMarks _ _ _ (if s.running then older ++ [0] else []) _
        rw [if_pos running]
        exact holds.rollback
      · show earlier (s.log.take pos).length = earlier pos
        rw [List.length_take, Nat.min_eq_left short]
      · rw [marks]
        show _ = List.map earlier (if s.running then older ++ [0] else [])
        rw [if_pos running]
      · have idle : s.running = false := idle
        rw [running] at idle
        cases idle

theorem Inv.commit (inv : s.Inv earlier) (running : s.running = true) {valid : Bool}
    (moved : s.trCommit valid = some t) : ∃ earlier, t.Inv earlier := by
  have saved := inv.saved
  have holds := inv.holds
  rw [marks, if_pos running] at saved holds
  unfold trCommit at moved
  split at moved
  · next pos older transactions =>
      rw [transactions] at saved holds
      cases moved
      refine ⟨earlier, ?_, inv.client, ?_, fun idle => ?_⟩
      · rw [marks]
        show HoldsAtMarks _ _ _ (if s.running then older ++ [0] else []) _
        rw [if_pos running]
        exact holds.forget
      · rw [marks]
        show s.saved.tail = List.map earlier (if s.running then older ++ [0] else [])
        rw [if_pos running, saved]
        rfl
      · have idle : s.running = false := idle
        rw [running] at idle
        cases idle
  · next transactions =>
      split at moved
      · cases moved
        exact ⟨_, Inv.finish inv.now.freeGarbage transactions⟩
      · exact inv.abort running moved

theorem Inv.begin (inv : s.Inv earlier) : s.trBegin.Inv earlier := by
  have saved := inv.saved
  have holds := inv.holds
  have mark : s.trBegin.marks = s.log.length :: s.marks := by
    unfold marks trBegin
    cases running : s.running with
    | true => rfl
    | false =>
        obtain ⟨log, transactions⟩ := inv.idle running
        rw [log, transactions]
        rfl
  refine ⟨?_, inv.client, ?_, fun idle => by cases idle⟩
  · rw [mark]
    exact holds.setMark
  · rw [mark, List.map_cons, ← saved, inv.client]
    rfl

theorem Inv.step (inv : s.Inv earlier) {l : Label} (allows : s.Allows l)
    (moved : s.step strings l = some t) : ∃ earlier, t.Inv earlier := by
  have now := inv.now
  cases l with
  | begin =>
      cases moved
      exact ⟨_, inv.begin⟩
  | write node index copy =>
      simp only [State.step] at moved
      split at moved
      · next running =>
          obtain ⟨strings, old, found, at_, free, rfl⟩ := trInternalWrite_spec moved
          refine inv.call running (by cases copy <;> exact List.cons_ne_nil _ _)
            (undo_write free found at_) (now.write free found at_)
      · cases moved
  | create type node =>
      simp only [State.step, trNodeCreate] at moved
      split at moved
      · next running =>
          split at moved
          · next free =>
              cases moved
              exact inv.call running (List.cons_ne_nil _ _) (undo_create free _)
                (now.create free _)
          · cases moved
      · cases moved
  | delete node =>
      simp only [State.step] at moved
      split at moved
      · next running =>
          cases moved
          exact inv.call running (List.cons_ne_nil _ _) rfl (now.delete allows)
      · cases moved
  | alloc p =>
      simp only [State.step, trMemoryAlloc] at moved
      split at moved
      · next running =>
          split at moved
          · next free =>
              cases moved
              exact inv.call running (List.cons_ne_nil _ _) (undo_allocate free) (now.alloc free)
          · cases moved
      · cases moved
  | free p =>
      simp only [State.step] at moved
      split at moved
      · next running =>
          cases moved
          exact inv.call running (List.cons_ne_nil _ _) rfl (now.free allows)
      · cases moved
  | commit valid =>
      simp only [State.step] at moved
      split at moved
      · next running => exact inv.commit running moved
      · cases moved
  | abort =>
      simp only [State.step] at moved
      split at moved
      · next running => exact inv.abort running moved
      · cases moved

/-! ## Exactly once -/

theorem Inv.toReleased (inv : s.Inv earlier) : s.Released where
  sound := inv.now.sound
  nodes node mine := (inv.now.nodes node).mpr (.inl mine)
  blocks b reachable := by
    obtain ⟨real, mine | ⟨node, strings, -, found, inside⟩⟩ := reachable
    · have held : Holds s.client s.memory s.log .client b := mine
      exact (inv.now.blocks b real).allocated_of held
    · obtain ⟨i, at_⟩ := List.mem_iff_getElem?.mp inside
      have held : Holds s.client s.memory s.log (.string node i) b := ⟨strings, found, at_⟩
      exact (inv.now.blocks b real).allocated_of held
  exactNodes idle node present := by
    rcases (inv.now.nodes node).mp present with mine | gone
    · exact mine
    · rw [(inv.idle idle).1] at gone
      cases gone
  exactBlocks idle b real allocated := by
    have log := (inv.idle idle).1
    rcases inv.now.blocks b real with ⟨-, holder, only⟩ | ⟨free, -⟩
    · refine ⟨real, ?_⟩
      have held := (only holder).mpr rfl
      cases holder with
      | client => exact .inl held
      | string node index =>
          obtain ⟨strings, found, at_⟩ := held
          refine .inr ⟨node, strings, ?_, found, List.mem_of_getElem? at_⟩
          rcases (inv.now.nodes node).mp (by rw [found]; rfl) with mine | gone
          · exact mine
          · rw [log] at gone
            cases gone
      | garbage place =>
          rw [Holds, log] at held
          cases held
    · rw [free] at allocated
      cases allocated

/-- In every run everything is released once. -/
theorem released (run : Reaches (step strings) Allows initial s) : s.Released := by
  let Holds : State → Prop := fun s => ∃ earlier, s.Inv earlier
  have inv : Holds s := run.invariant ⟨_, inv_initial⟩ fun _ _ _ inv allows moved => by
    obtain ⟨_, inv⟩ := inv
    exact inv.step allows moved
  obtain ⟨_, inv⟩ := inv
  exact inv.toReleased

/-- A node with a string, a nested transaction that overwrites the string and deletes the node
and is aborted, and a transaction that does both. -/
theorem released_deleted : ∃ s : State, s.memory.nodes 2 = none ∧ s.memory.blocks 8 = true ∧
    s.Released := by
  have run : Reaches (step fun _ => 1) Allows initial _ := reaches_of_runChecked .start
    (show runSteps (fun (s : State) l => if s.Allows l then s.step (fun _ => 1) l else none)
      initial
      [.begin, .create 0 2, .write 2 0 (some 4), .begin, .write 2 0 (some 6), .delete 2, .abort,
        .alloc 8, .alloc 10, .commit true, .begin, .write 2 0 none, .free 10, .delete 2,
        .commit true] = some _ from rfl)
  exact ⟨_, rfl, rfl, released run⟩

end State

end HybridDatabase.Transaction.Release
