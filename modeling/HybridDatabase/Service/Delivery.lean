/-
# Every job is delivered once

Tokens and links are made in separate steps, so what connects them is a count: the tokens
that are on `D->counter`, that the service thread has taken, and that producers have still
to post, are the linked jobs and the last `sem_post` of `database_close`.  A token that the
service thread takes therefore stands for a job behind which `D->tail` has moved already.
-/

import Mathlib.Data.List.Perm.Basic
import HybridDatabase.Service.Queue

namespace HybridDatabase.Service.Queue

open HybridDatabase.Base

variable {κ : Type*}

/-! ## Linked cells -/

/-- The address of a job of the queue, 0 behind the last one. -/
def addressAt (L : List (Entry κ)) (i : ℕ) : ℕ := (L[i]?).elim 0 Entry.address

/-- Where the job with a number is linked: in `D->head`, or in the job before it. -/
def slot (L : List (Entry κ)) : ℕ → Option ℕ
  | 0 => none
  | i + 1 => (L[i]?).map Entry.address

/-- The jobs `U` that are not linked yet and the linked ones from number `freed` on have
cells of their own, and those of the linked ones form a list. -/
structure Chained (cells : ℕ → Option (OutputList κ)) (U L : List (Entry κ)) (freed : ℕ) :
    Prop where
  unique : ((U ++ L.drop freed).map Entry.address).Nodup
  unlinked : ∀ O ∈ U, O.address ≠ 0 ∧ cells O.address = some ⟨O.job, 0⟩
  linked : ∀ i O, freed ≤ i → L[i]? = some O →
    O.address ≠ 0 ∧ cells O.address = some ⟨O.job, addressAt L (i + 1)⟩

theorem addressAt_of_some {L : List (Entry κ)} {i : ℕ} {O : Entry κ} (at_ : L[i]? = some O) :
    addressAt L i = O.address := by
  rw [addressAt, at_]
  rfl

theorem addressAt_of_le {L : List (Entry κ)} {i : ℕ} (beyond : L.length ≤ i) :
    addressAt L i = 0 := by
  rw [addressAt, List.getElem?_eq_none beyond]
  rfl

theorem addressAt_append {L : List (Entry κ)} {O : Entry κ} {i : ℕ} (inside : i ≠ L.length) :
    addressAt (L ++ [O]) i = addressAt L i := by
  rcases Nat.lt_or_gt_of_ne inside with before | behind
  · rw [addressAt, List.getElem?_append_left before, addressAt]
  · have longer : (L ++ [O]).length ≤ i := by
      rw [List.length_append, List.length_singleton]
      omega
    rw [addressAt_of_le longer, addressAt_of_le (Nat.le_of_lt behind)]

theorem addressAt_append_self (L : List (Entry κ)) (O : Entry κ) :
    addressAt (L ++ [O]) L.length = O.address :=
  addressAt_of_some List.getElem?_concat_length

theorem slot_append {L : List (Entry κ)} {O : Entry κ} {i : ℕ} (inside : i ≤ L.length) :
    slot (L ++ [O]) i = slot L i := by
  cases i with
  | zero => rfl
  | succ i => rw [slot, slot, List.getElem?_append_left inside]

namespace Chained

variable {cells : ℕ → Option (OutputList κ)} {U L : List (Entry κ)} {freed : ℕ} {O : Entry κ}

theorem mem_live {i : ℕ} (live : freed ≤ i) (at_ : L[i]? = some O) : O ∈ L.drop freed := by
  apply List.mem_of_getElem? (i := i - freed)
  rw [List.getElem?_drop, Nat.add_sub_cancel' live, at_]

/-- Different jobs of the list have different addresses. -/
theorem address_inj (chained : Chained cells U L freed) {i j : ℕ} {O' : Entry κ}
    (live : freed ≤ i) (at_ : L[i]? = some O) (live' : freed ≤ j) (at' : L[j]? = some O')
    (same : O.address = O'.address) : i = j := by
  have unique := chained.unique
  rw [List.map_append] at unique
  have distinct := (List.nodup_append.mp unique).2.1
  have first : ((L.drop freed).map Entry.address)[i - freed]? = some O.address := by
    rw [List.getElem?_map, List.getElem?_drop, Nat.add_sub_cancel' live, at_]
    rfl
  have second : ((L.drop freed).map Entry.address)[j - freed]? = some O.address := by
    rw [List.getElem?_map, List.getElem?_drop, Nat.add_sub_cancel' live', at', same]
    rfl
  obtain ⟨inside, -⟩ := List.getElem?_eq_some_iff.mp first
  have := (List.getElem?_inj inside distinct).mp (first.trans second.symm)
  omega

/-- A job that is not linked yet has another address than those of the list. -/
theorem address_ne (chained : Chained cells U L freed) {i : ℕ} {O' : Entry κ} (inside : O' ∈ U)
    (live : freed ≤ i) (at_ : L[i]? = some O) : O'.address ≠ O.address := by
  have unique := chained.unique
  rw [List.map_append] at unique
  exact (List.nodup_append.mp unique).2.2 _ (List.mem_map_of_mem inside) _
    (List.mem_map_of_mem (mem_live live at_))

theorem perm (chained : Chained cells U L freed) {U' : List (Entry κ)} (same : U.Perm U') :
    Chained cells U' L freed where
  unique := ((same.append_right _).map _).nodup_iff.mp chained.unique
  unlinked O inside := chained.unlinked O (same.mem_iff.mpr inside)
  linked := chained.linked

/-- A new cell. -/
theorem call (chained : Chained cells U L freed) (nonzero : O.address ≠ 0)
    (fresh : cells O.address = none) :
    Chained (Function.update cells O.address (some ⟨O.job, 0⟩)) (O :: U) L freed := by
  have other : ∀ {n : ℕ} {c : OutputList κ}, cells n = some c → n ≠ O.address := by
    rintro n c allocated rfl
    rw [fresh] at allocated
    cases allocated
  refine ⟨?_, ?_, ?_⟩
  · rw [List.cons_append, List.map_cons, List.nodup_cons]
    refine ⟨fun inside => ?_, chained.unique⟩
    obtain ⟨O', member, same⟩ := List.mem_map.mp inside
    rcases List.mem_append.mp member with unlinked | live
    · exact other (chained.unlinked O' unlinked).2 same
    · obtain ⟨i, at_⟩ := List.mem_iff_getElem?.mp live
      rw [List.getElem?_drop] at at_
      exact other (chained.linked _ O' (Nat.le_add_right _ _) at_).2 same
  · intro O' inside
    rcases List.mem_cons.mp inside with rfl | before
    · exact ⟨nonzero, Function.update_self ..⟩
    · obtain ⟨nonzero', allocated⟩ := chained.unlinked O' before
      exact ⟨nonzero', by rw [Function.update_of_ne (other allocated), allocated]⟩
  · intro i O' live at_
    obtain ⟨nonzero', allocated⟩ := chained.linked i O' live at_
    exact ⟨nonzero', by rw [Function.update_of_ne (other allocated), allocated]⟩

/-- `*(D->tail) = O` in the empty queue. -/
theorem linkFirst (chained : Chained cells (O :: U) [] 0) : Chained cells U [O] 0 where
  unique := by
    have same : (O :: U ++ ([] : List (Entry κ)).drop 0).Perm (U ++ [O].drop 0) := by
      rw [List.drop_zero, List.append_nil, List.drop_zero]
      exact (List.perm_append_singleton O U).symm
    exact (same.map _).nodup_iff.mp chained.unique
  unlinked O' inside := chained.unlinked O' (List.mem_cons_of_mem O inside)
  linked i O' _ at_ := by
    obtain ⟨nonzero, allocated⟩ := chained.unlinked O List.mem_cons_self
    obtain ⟨rfl, rfl⟩ : i = 0 ∧ O = O' := by
      cases i with
      | zero => exact ⟨rfl, Option.some.inj at_⟩
      | succ i => cases at_
    exact ⟨nonzero, allocated⟩

/-- `*(D->tail) = O` behind the last job. -/
theorem link (chained : Chained cells (O :: U) L freed) {last : Entry κ} {n : ℕ}
    (length : L.length = n + 1) (at_ : L[n]? = some last) (live : freed ≤ n) :
    Chained (Function.update cells last.address (some ⟨last.job, O.address⟩)) U (L ++ [O])
      freed where
  unique := by
    have same : (O :: U ++ L.drop freed).Perm (U ++ (L ++ [O]).drop freed) := by
      rw [List.drop_append_of_le_length (by omega), ← List.append_assoc]
      exact (List.perm_append_singleton O (U ++ L.drop freed)).symm
    exact (same.map _).nodup_iff.mp chained.unique
  unlinked O' inside := by
    have before := List.mem_cons_of_mem O inside
    obtain ⟨nonzero, allocated⟩ := chained.unlinked O' before
    exact ⟨nonzero, by rw [Function.update_of_ne (chained.address_ne before live at_), allocated]⟩
  linked i O' live' at' := by
    have self := chained.unlinked O List.mem_cons_self
    rcases Nat.lt_trichotomy i n with before | rfl | behind
    · rw [List.getElem?_append_left (by omega)] at at'
      obtain ⟨nonzero, allocated⟩ := chained.linked i O' live' at'
      have other : O'.address ≠ last.address := fun same =>
        absurd (chained.address_inj live' at' live at_ same) (by omega)
      rw [addressAt_append (by omega), Function.update_of_ne other]
      exact ⟨nonzero, allocated⟩
    · rw [List.getElem?_append_left (by omega), at_] at at'
      cases at'
      rw [← length, addressAt_append_self, Function.update_self]
      exact ⟨(chained.linked i last live at_).1, rfl⟩
    · have here : i = L.length := by
        obtain ⟨inside, -⟩ := List.getElem?_eq_some_iff.mp at'
        rw [List.length_append, List.length_singleton] at inside
        omega
      rw [here, List.getElem?_concat_length] at at'
      cases at'
      rw [Function.update_of_ne (chained.address_ne List.mem_cons_self live at_),
        addressAt_of_le (by rw [List.length_append, List.length_singleton]; omega)]
      exact self

/-- `simple_allocator_free` of the first job that is left. -/
theorem free (chained : Chained cells U L freed) (at_ : L[freed]? = some O) :
    Chained (Function.update cells O.address none) U L (freed + 1) where
  unique := by
    have unique := chained.unique
    rw [List.drop_eq_getElem_cons (List.getElem?_eq_some_iff.mp at_).1] at unique
    refine unique.sublist (List.Sublist.map _ ?_)
    exact List.Sublist.append_left (List.sublist_cons_self _ _) U
  unlinked O' inside := by
    obtain ⟨nonzero, allocated⟩ := chained.unlinked O' inside
    exact ⟨nonzero,
      by rw [Function.update_of_ne (chained.address_ne inside (Nat.le_refl _) at_), allocated]⟩
  linked i O' live at' := by
    have before : freed ≤ i := by omega
    obtain ⟨nonzero, allocated⟩ := chained.linked i O' before at'
    have other : O'.address ≠ O.address := fun same =>
      absurd (chained.address_inj before at' (Nat.le_refl _) at_ same) (by omega)
    exact ⟨nonzero, by rw [Function.update_of_ne other, allocated]⟩

end Chained

/-! ## The invariant -/

/-- The tokens that the service thread has taken besides those of the jobs it has handled. -/
def Stage.ahead : Stage → ℕ
  | .start | .resume _ | .dumping _ | .trying _ | .waiting _ => 0
  | _ => 1

/-- The job that the holder of `D->mutex` has still to link. -/
def Holder.unlinked : Holder κ → List (Entry κ)
  | .locked O _ => [O]
  | _ => []

/-- 1 while the holder has linked its job and not moved `D->tail`. -/
def Holder.behind : Holder κ → ℕ
  | .linked _ _ => 1
  | _ => 0

namespace State

/-- The jobs that have been pushed and not been linked. -/
def unlinked (s : State κ) : List (Entry κ) := s.holder.elim [] Holder.unlinked ++ s.entering

/-- 1 while the last job has been linked and `D->tail` is not moved. -/
def behind (s : State κ) : ℕ := s.holder.elim 0 Holder.behind

/-- The service thread has come to a job or, when there will be no more, to the end. -/
def Successor (s : State κ) (job : ℕ) : Prop :=
  (∃ O, s.upcoming = some O ∧ job = O.address) ∨ (job = 0 ∧ s.Exhausted)

/-- The service thread has handled a job and not freed it. -/
def Held (s : State κ) (job : ℕ) : Prop :=
  s.handled.length = s.freed + 1 ∧ ∃ O, s.linked[s.freed]? = some O ∧ job = O.address

/-- What the service thread knows where it is. -/
def At (s : State κ) : Stage → Prop
  | .start | .first => s.handled.length = 0 ∧ s.freed = 0
  | .check job => s.handled.length = s.freed ∧ s.Successor job
  | .handle job => s.handled.length = s.freed ∧ ∃ O, s.upcoming = some O ∧ job = O.address
  | .resume job | .dumping job | .trying job | .waiting job | .next job => s.Held job
  | .free job jobNext => s.Held job ∧ s.Successor jobNext
  | .leaving | .lastDump | .lastTry | .stopped => s.handled.length = s.freed ∧ s.Exhausted

/-- Tokens, cells and the pointers into the list. -/
structure Inv (s : State κ) : Prop where
  sound : s.broken = false
  chained : Chained s.cells s.unlinked s.linked s.freed
  head : s.head = addressAt s.linked 0
  tail : s.tail = slot s.linked (s.linked.length - s.behind)
  last : ∀ O hasLock, s.holder = some (.linked O hasLock) → s.linked.getLast? = some O
  tokens : s.counter + (s.handled.length + s.service.ahead) + s.posting + s.owed =
    s.linked.length + s.closed.toNat
  handled : s.handled = (s.linked.take s.handled.length).map Entry.job
  closing : s.closed = true → s.entering = [] ∧ s.holder = none
  at_ : s.At s.service

variable {s t : State κ}

theorem inv_initial : (initial κ).Inv where
  sound := rfl
  chained := ⟨List.nodup_nil, fun _ inside => absurd inside List.not_mem_nil,
    fun _ _ _ at_ => by cases at_⟩
  head := rfl
  tail := rfl
  last _ _ holder := by cases holder
  tokens := rfl
  handled := rfl
  closing closed := by cases closed
  at_ := ⟨rfl, rfl⟩

/-! ## What the invariant says -/

theorem Inv.length_le (inv : s.Inv) : s.handled.length ≤ s.linked.length := by
  have same := congrArg List.length inv.handled
  rw [List.length_map, List.length_take] at same
  omega

theorem behind_le_owed (s : State κ) : s.behind ≤ s.owed := by
  unfold behind owed
  cases s.holder with
  | none => exact Nat.le_refl 0
  | some holder =>
      cases holder with
      | linked => exact Nat.le_refl 1
      | advanced => exact Nat.zero_le 1
      | locked => exact Nat.le_refl 0
      | returned => exact Nat.le_refl 0

/-- Everything is handled when as many jobs are handled as are linked. -/
theorem Inv.handled_all (inv : s.Inv) (all : s.handled.length = s.linked.length) :
    s.handled = s.linked.map Entry.job := by
  have handled := inv.handled
  rwa [all, List.take_length] at handled

theorem Inv.exhausted (inv : s.Inv) (closed : s.closed = true)
    (all : s.handled.length = s.linked.length) : s.Exhausted :=
  ⟨⟨closed, inv.closing closed⟩, inv.handled_all all⟩

/-- A token that is taken stands for a job, or for the end. -/
theorem Inv.successor (inv : s.Inv) (taken : s.service.ahead = 1) :
    s.Successor (addressAt s.linked s.handled.length) := by
  have tokens := inv.tokens
  have length_le := inv.length_le
  by_cases inside : s.handled.length < s.linked.length
  · have at_ : s.linked[s.handled.length]? = some _ := List.getElem?_eq_getElem inside
    exact .inl ⟨_, at_, addressAt_of_some at_⟩
  · have closed : s.closed = true := by
      cases closed : s.closed with
      | true => rfl
      | false =>
          rw [closed, Bool.toNat_false] at tokens
          omega
    exact .inr ⟨addressAt_of_le (by omega), inv.exhausted closed (by omega)⟩

/-- The last job is not freed while a push can follow. -/
theorem Inv.live (inv : s.Inv) (open_ : ¬ s.Exhausted) :
    s.freed < s.linked.length ∨ s.linked = [] ∧ s.freed = 0 := by
  have at_ := inv.at_
  have length_le := inv.length_le
  have held : ∀ {job}, s.Held job → s.freed < s.linked.length := fun held => by
    have := held.1
    omega
  have upcoming : ∀ {O}, s.upcoming = some O → s.handled.length < s.linked.length :=
    fun at_ => (List.getElem?_eq_some_iff.mp at_).1
  have fresh : s.freed = 0 → s.freed < s.linked.length ∨ s.linked = [] ∧ s.freed = 0 := by
    intro none
    rcases Nat.eq_zero_or_pos s.linked.length with empty | some
    · exact .inr ⟨List.eq_nil_of_length_eq_zero empty, none⟩
    · exact .inl (by omega)
  cases stage : s.service <;> rw [stage] at at_
  case start => exact fresh at_.2
  case first => exact fresh at_.2
  case check =>
    obtain ⟨freed, ⟨O, next, -⟩ | ⟨-, exhausted⟩⟩ := at_
    · exact .inl (freed ▸ upcoming next)
    · exact absurd exhausted open_
  case handle =>
    obtain ⟨freed, O, next, -⟩ := at_
    exact .inl (freed ▸ upcoming next)
  case free => exact .inl (held at_.1)
  case leaving => exact absurd at_.2 open_
  case lastDump => exact absurd at_.2 open_
  case lastTry => exact absurd at_.2 open_
  case stopped => exact absurd at_.2 open_
  all_goals exact .inl (held at_)

theorem At.mono {stage : Stage} (at_ : s.At stage) (handled : t.handled = s.handled)
    (freed : t.freed = s.freed)
    (linked : ∀ {i : ℕ} {O : Entry κ}, s.linked[i]? = some O → t.linked[i]? = some O)
    (exhausted : s.Exhausted → t.Exhausted) : t.At stage := by
  have upcoming : ∀ {job}, (∃ O, s.upcoming = some O ∧ job = O.address) →
      ∃ O, t.upcoming = some O ∧ job = O.address := by
    rintro job ⟨O, next, same⟩
    refine ⟨O, ?_, same⟩
    rw [State.upcoming, handled]
    exact linked next
  have successor : ∀ {job}, s.Successor job → t.Successor job := by
    rintro job (next | ⟨zero, ended⟩)
    · exact .inl (upcoming next)
    · exact .inr ⟨zero, exhausted ended⟩
  have held : ∀ {job}, s.Held job → t.Held job := by
    rintro job ⟨length, O, here, same⟩
    exact ⟨by rw [handled, freed, length], O, by rw [freed]; exact linked here, same⟩
  cases stage <;> simp only [At, handled, freed] at at_ ⊢
  case start => exact at_
  case first => exact at_
  case check => exact ⟨at_.1, successor at_.2⟩
  case handle => exact ⟨at_.1, upcoming at_.2⟩
  case free => exact ⟨held at_.1, successor at_.2⟩
  case leaving => exact ⟨at_.1, exhausted at_.2⟩
  case lastDump => exact ⟨at_.1, exhausted at_.2⟩
  case lastTry => exact ⟨at_.1, exhausted at_.2⟩
  case stopped => exact ⟨at_.1, exhausted at_.2⟩
  all_goals exact held at_

/-! ## The service thread -/

/-- A step of the service thread that leaves the jobs alone. -/
theorem Inv.moveOn (inv : s.Inv) {counter : ℕ} {stage : Stage} (running : Bool)
    (tokens : counter + stage.ahead = s.counter + s.service.ahead) (at_ : s.At stage) :
    Inv { s with counter := counter, service := stage, dumpRunning := running } where
  sound := inv.sound
  chained := inv.chained
  head := inv.head
  tail := inv.tail
  last := inv.last
  tokens := by
    have before := inv.tokens
    show counter + (s.handled.length + stage.ahead) + s.posting + s.owed =
      s.linked.length + s.closed.toNat
    omega
  handled := inv.handled
  closing := inv.closing
  at_ := at_

/-- A token is taken. -/
theorem Inv.wait (inv : s.Inv) {stage : Stage} (behind : s.service.ahead = 0)
    (ahead : stage.ahead = 1) (at_ : s.At stage) (moved : s.wait stage = some t) : t.Inv := by
  unfold State.wait at moved
  split at moved
  · next positive =>
      cases moved
      exact inv.moveOn s.dumpRunning (by omega) at_
  · cases moved

/-- The cell of a job that has been handled and not been freed. -/
theorem Inv.cell_held (inv : s.Inv) {job : ℕ} (held : s.Held job) : ∃ O : Entry κ,
    s.linked[s.freed]? = some O ∧ job = O.address ∧
      s.cells job = some ⟨O.job, addressAt s.linked s.handled.length⟩ := by
  obtain ⟨length, O, at_, rfl⟩ := held
  rw [length]
  exact ⟨O, at_, rfl, (inv.chained.linked _ O (Nat.le_refl _) at_).2⟩

/-- The cell of the job that comes next. -/
theorem Inv.cell_upcoming (inv : s.Inv) {O : Entry κ} (freed : s.handled.length = s.freed)
    (next : s.upcoming = some O) : O.address ≠ 0 ∧
      s.cells O.address = some ⟨O.job, addressAt s.linked (s.handled.length + 1)⟩ :=
  inv.chained.linked _ O (Nat.le_of_eq freed.symm) next

/-- A job is handled. -/
theorem Inv.handle (inv : s.Inv) {job : ℕ} (opened : Bool) (stage : s.service = .handle job) :
    (s.handle job opened).Inv := by
  have at_ := inv.at_
  rw [stage] at at_
  obtain ⟨freed, O, next, rfl⟩ := at_
  have cell := (inv.cell_upcoming freed next).2
  have taken : s.linked.take (s.handled.length + 1) = s.linked.take s.handled.length ++ [O] := by
    rw [List.take_add_one, show s.linked[s.handled.length]? = some O from next]
    rfl
  simp only [State.handle, cell]
  refine ⟨inv.sound, inv.chained, inv.head, inv.tail, inv.last, ?_, ?_, inv.closing, ?_, O, ?_⟩
  · have tokens := inv.tokens
    rw [stage] at tokens
    show s.counter + ((s.handled ++ [O.job]).length + 0) + s.posting + s.owed = _
    rw [List.length_append]
    exact tokens
  · show s.handled ++ [O.job] = (s.linked.take (s.handled ++ [O.job]).length).map Entry.job
    rw [List.length_append, List.length_singleton, taken, List.map_append, ← inv.handled]
    rfl
  · show (s.handled ++ [O.job]).length = s.freed + 1
    rw [List.length_append, List.length_singleton, freed]
  · rw [← freed]
    exact ⟨next, rfl⟩

/-- A job is freed. -/
theorem Inv.free (inv : s.Inv) {job jobNext : ℕ} (stage : s.service = .free job jobNext) :
    Inv { s with
      cells := Function.update s.cells job none
      freed := s.freed + 1
      service := .check jobNext } := by
  have at_ := inv.at_
  rw [stage] at at_
  obtain ⟨⟨length, O, here, rfl⟩, successor⟩ := at_
  have tokens := inv.tokens
  rw [stage] at tokens
  exact ⟨inv.sound, inv.chained.free here, inv.head, inv.tail, inv.last, tokens, inv.handled,
    inv.closing, length, successor⟩

theorem Inv.serviceStep (inv : s.Inv) {choice : Bool} (moved : s.serviceStep choice = some t) :
    t.Inv := by
  have at_ := inv.at_
  have ahead {stage : Stage} (same : s.service = stage) : s.service.ahead = stage.ahead := by
    rw [same]
  cases stage : s.service <;> simp only [State.serviceStep, stage] at moved at_
  case start => exact inv.wait (ahead stage) rfl (show s.At .first from at_) moved
  case first =>
    cases moved
    have head := inv.successor (ahead stage)
    rw [at_.1, ← inv.head] at head
    exact inv.moveOn s.dumpRunning (by rw [stage]; rfl) ⟨by rw [at_.1, at_.2], head⟩
  case check job =>
    obtain ⟨freed, successor⟩ := at_
    cases moved
    by_cases zero : job = 0
    · apply inv.moveOn s.dumpRunning (by rw [stage, if_pos zero]; rfl)
      rw [if_pos zero]
      rcases successor with ⟨O, next, same⟩ | ⟨-, exhausted⟩
      · exact absurd (same.symm.trans zero) (inv.cell_upcoming freed next).1
      · exact ⟨freed, exhausted⟩
    · apply inv.moveOn s.dumpRunning (by rw [stage, if_neg zero]; rfl)
      rw [if_neg zero]
      rcases successor with next | ⟨none, -⟩
      · exact ⟨freed, next⟩
      · exact absurd none zero
  case handle job =>
    cases moved
    exact inv.handle choice stage
  case resume job =>
    cases moved
    refine inv.moveOn s.dumpRunning ?_ ?_
    · rw [stage]
      split <;> rfl
    · split <;> exact at_
  case dumping job =>
    cases moved
    cases choice with
    | false => exact inv.moveOn s.dumpRunning (by rw [stage]; rfl) at_
    | true => exact inv.moveOn false (by rw [stage]; rfl) at_
  case trying job =>
    cases choice with
    | false =>
        cases moved
        exact inv.moveOn s.dumpRunning (by rw [stage]; rfl) at_
    | true =>
        rw [if_pos rfl] at moved
        exact inv.wait (ahead stage) rfl (show s.At (.next job) from at_) moved
  case waiting job =>
    exact inv.wait (ahead stage) rfl (show s.At (.next job) from at_) moved
  case next job =>
    obtain ⟨O, -, -, cell⟩ := inv.cell_held at_
    simp only [cell] at moved
    cases moved
    exact inv.moveOn s.dumpRunning (by rw [stage]; rfl) ⟨at_, inv.successor (ahead stage)⟩
  case free job jobNext =>
    obtain ⟨O, -, -, cell⟩ := inv.cell_held at_.1
    simp only [cell] at moved
    cases moved
    exact inv.free stage
  case leaving =>
    cases moved
    refine inv.moveOn s.dumpRunning ?_ ?_
    · rw [stage]
      split <;> rfl
    · split <;> exact at_
  case lastDump =>
    cases moved
    cases choice with
    | false => exact inv.moveOn s.dumpRunning (by rw [stage]; rfl) at_
    | true => exact inv.moveOn false (by rw [stage]; rfl) at_
  case lastTry =>
    cases choice with
    | false =>
        cases moved
        exact inv.moveOn s.dumpRunning (by rw [stage]; rfl) at_
    | true =>
        -- all tokens have been taken
        have tokens := inv.tokens
        have all := congrArg List.length at_.2.2
        rw [ahead stage, at_.2.1.1, Bool.toNat_true] at tokens
        rw [List.length_map] at all
        have one : Stage.lastTry.ahead = 1 := rfl
        simp only [State.wait, if_true] at moved
        rw [if_neg (by omega)] at moved
        cases moved
  case stopped => cases moved

/-! ## Producers -/

theorem not_exhausted_of_holder {holder : Holder κ} (held : s.holder = some holder) :
    ¬ s.Exhausted := by
  rintro ⟨⟨-, -, none⟩, -⟩
  rw [held] at none
  cases none

theorem Inv.open_ (inv : s.Inv) {holder : Holder κ} (held : s.holder = some holder) :
    s.closed = false := by
  cases closed : s.closed with
  | false => rfl
  | true =>
      rw [(inv.closing closed).2] at held
      cases held

/-- A step of a producer that leaves the cells alone. -/
theorem Inv.producer (inv : s.Inv) {counter posting : ℕ} {tail : Option ℕ}
    {entering : List (Entry κ)} {holder : Option (Holder κ)} :
    let t := { s with
      counter := counter
      posting := posting
      tail := tail
      entering := entering
      holder := holder }
    (s.Exhausted → t.Exhausted) →
    counter + posting + t.owed = s.counter + s.posting + s.owed →
    s.unlinked.Perm t.unlinked →
    tail = slot s.linked (s.linked.length - t.behind) →
    (∀ O hasLock, holder = some (.linked O hasLock) → s.linked.getLast? = some O) →
    (s.closed = true → entering = [] ∧ holder = none) → t.Inv := by
  intro t exhausted tokens same behind last closing
  refine ⟨inv.sound, inv.chained.perm same, inv.head, behind, last, ?_, inv.handled, closing,
    inv.at_.mono rfl rfl (fun at_ => at_) exhausted⟩
  have before := inv.tokens
  show counter + (s.handled.length + s.service.ahead) + posting + t.owed =
    s.linked.length + s.closed.toNat
  omega

/-- A push begins. -/
theorem Inv.call (inv : s.Inv) {O : Entry κ} {entering : List (Entry κ)}
    {holder : Option (Holder κ)} (open_ : s.closed = false) (nonzero : O.address ≠ 0)
    (fresh : s.cells O.address = none) :
    let t := { s with
      cells := Function.update s.cells O.address (some ⟨O.job, 0⟩)
      entering := entering
      holder := holder }
    (O :: s.unlinked).Perm t.unlinked → t.owed = s.owed → t.behind = s.behind →
    (∀ O hasLock, holder = some (.linked O hasLock) → s.linked.getLast? = some O) → t.Inv := by
  intro t same owed behind last
  refine ⟨inv.sound, (inv.chained.call nonzero fresh).perm same, inv.head, ?_, last, ?_,
    inv.handled, fun closed => ?_, inv.at_.mono rfl rfl (fun at_ => at_) fun exhausted => ?_⟩
  · rw [behind]
    exact inv.tail
  · rw [owed]
    exact inv.tokens
  · rw [open_] at closed
    cases closed
  · rw [exhausted.1.1] at open_
    cases open_

/-- A job is linked. -/
theorem Inv.link (inv : s.Inv) {O : Entry κ} {hasLock : Bool}
    (holder : s.holder = some (.locked O hasLock)) :
    Inv { s.store O.address with
      holder := some (.linked O hasLock)
      linked := s.linked ++ [O] } := by
  have chained : Chained s.cells (O :: s.entering) s.linked s.freed := by
    have chained := inv.chained
    rwa [State.unlinked, holder] at chained
  have owed : s.owed = 0 := by
    rw [State.owed, holder]
    rfl
  have behind : s.behind = 0 := by
    rw [State.behind, holder]
    rfl
  have tail := inv.tail
  rw [behind, Nat.sub_zero] at tail
  have open_ := not_exhausted_of_holder holder
  have length : (s.linked ++ [O]).length = s.linked.length + 1 := by
    rw [List.length_append, List.length_singleton]
  have tokens : s.counter + (s.handled.length + s.service.ahead) + s.posting + 1 =
      (s.linked ++ [O]).length + s.closed.toNat := by
    have before := inv.tokens
    omega
  have moved : s.tail = slot (s.linked ++ [O]) ((s.linked ++ [O]).length - 1) := by
    rw [length, Nat.add_sub_cancel, slot_append (Nat.le_refl _), tail]
  have last : ∀ O' hasLock', some (Holder.linked O hasLock) = some (.linked O' hasLock') →
      (s.linked ++ [O]).getLast? = some O' := by
    rintro O' hasLock' same
    cases same
    exact List.getLast?_concat
  have handled : s.handled = ((s.linked ++ [O]).take s.handled.length).map Entry.job := by
    rw [List.take_append_of_le_length inv.length_le]
    exact inv.handled
  have kept {i : ℕ} {O' : Entry κ} (at_ : s.linked[i]? = some O') :
      (s.linked ++ [O])[i]? = some O' := by
    rw [List.getElem?_append_left (List.getElem?_eq_some_iff.mp at_).1, at_]
  have closing : s.closed = true →
      s.entering = [] ∧ some (Holder.linked O hasLock) = none := by
    intro closed
    rw [inv.open_ holder] at closed
    cases closed
  rcases inv.live open_ with live | ⟨empty, freed⟩
  · obtain ⟨n, longer⟩ : ∃ n, s.linked.length = n + 1 :=
      Nat.exists_eq_add_one.mpr (Nat.lt_of_le_of_lt (Nat.zero_le _) live)
    obtain ⟨end_, at_⟩ : ∃ end_, s.linked[n]? = some end_ :=
      ⟨_, List.getElem?_eq_getElem (by omega)⟩
    rw [longer, slot, at_, Option.map_some] at tail
    have cell : s.cells end_.address = some ⟨end_.job, 0⟩ := by
      rw [(chained.linked n end_ (by omega) at_).2, addressAt_of_le (Nat.le_of_eq longer)]
    simp only [State.store, tail, cell]
    refine ⟨inv.sound, chained.link longer at_ (by omega), ?_, ?_, last, tokens, handled, closing,
      inv.at_.mono rfl rfl kept fun exhausted => absurd exhausted open_⟩
    · rw [addressAt_append (by omega)]
      exact inv.head
    · exact tail.symm.trans moved
  · rw [empty] at tail
    have first : Chained s.cells s.entering (s.linked ++ [O]) s.freed := by
      rw [empty, freed] at chained ⊢
      exact chained.linkFirst
    have start : O.address = addressAt (s.linked ++ [O]) 0 := by
      rw [empty]
      rfl
    have none : s.tail = none := tail
    simp only [State.store, none]
    exact ⟨inv.sound, first, start, none.symm.trans moved, last, tokens, handled, closing,
      inv.at_.mono rfl rfl kept fun exhausted => absurd exhausted open_⟩

theorem Inv.step (inv : s.Inv) {l : Label κ} (moved : s.step l = some t) : t.Inv := by
  have unlinked {holder : Option (Holder κ)} (same : s.holder = holder) :
      s.unlinked = holder.elim [] Holder.unlinked ++ s.entering := by
    rw [State.unlinked, same]
  have owed {holder : Option (Holder κ)} (same : s.holder = holder) :
      s.owed = holder.elim 0 Holder.owed := by
    rw [State.owed, same]
  have behind {holder : Option (Holder κ)} (same : s.holder = holder) :
      s.behind = holder.elim 0 Holder.behind := by
    rw [State.behind, same]
  have tail := inv.tail
  cases l with
  | call O hasLock =>
      simp only [State.step] at moved
      split at moved
      · next allowed =>
          obtain ⟨open_, nonzero, fresh⟩ := allowed
          cases hasLock with
          | true =>
              rw [if_pos rfl] at moved
              split at moved
              · next free =>
                  cases moved
                  refine inv.call open_ nonzero fresh ?_ (owed free).symm (behind free).symm
                    fun _ _ same => by cases same
                  rw [unlinked free]
                  exact .refl _
              · cases moved
          | false =>
              cases moved
              exact inv.call open_ nonzero fresh List.perm_middle.symm rfl rfl inv.last
      · cases moved
  | lock i =>
      simp only [State.step] at moved
      split at moved
      · next O _ at_ free =>
          cases moved
          obtain ⟨inside, rfl⟩ := List.getElem?_eq_some_iff.mp at_
          have open_ : ¬ s.Exhausted := by
            rintro ⟨⟨-, none, -⟩, -⟩
            rw [none] at inside
            exact absurd inside (Nat.not_lt_zero i)
          refine inv.producer (fun ended => absurd ended open_) ?_ ?_ ?_
            (fun _ _ same => by cases same) fun closed => ?_
          · rw [owed free]
            rfl
          · rw [unlinked free]
            exact (List.getElem_cons_eraseIdx_perm inside).symm
          · rw [behind free] at tail
            exact tail
          · rw [(inv.closing closed).1] at inside
            exact absurd inside (Nat.not_lt_zero i)
      · cases moved
  | link =>
      simp only [State.step] at moved
      split at moved
      · next holder =>
          cases moved
          exact inv.link holder
      · cases moved
  | advance =>
      simp only [State.step] at moved
      split at moved
      · next O hasLock holder =>
          cases moved
          have end_ := inv.last O hasLock holder
          have open_ := inv.open_ holder
          refine inv.producer (fun ended => absurd ended (not_exhausted_of_holder holder)) ?_ ?_ ?_
            (fun _ _ same => by cases same) fun closed => ?_
          · rw [owed holder]
            rfl
          · rw [unlinked holder]
            exact .refl _
          · rw [List.getLast?_eq_getElem?] at end_
            show some O.address = slot s.linked (s.linked.length - 0)
            cases length : s.linked.length with
            | zero =>
                rw [List.eq_nil_of_length_eq_zero length] at end_
                cases end_
            | succ n =>
                rw [length, Nat.add_sub_cancel] at end_
                rw [Nat.sub_zero, slot, end_]
                rfl
          · rw [open_] at closed
            cases closed
      · cases moved
  | unlock =>
      simp only [State.step] at moved
      split at moved
      · next holder =>
          cases moved
          refine inv.producer (fun ended => absurd ended (not_exhausted_of_holder holder)) ?_ ?_ ?_
            (fun _ _ same => by cases same) fun closed => ⟨(inv.closing closed).1, rfl⟩
          · rw [owed holder]
            exact Nat.add_right_comm _ 1 0
          · rw [unlinked holder]
            exact .refl _
          · rw [behind holder] at tail
            exact tail
      · next holder =>
          cases moved
          refine inv.producer (fun ended => absurd ended (not_exhausted_of_holder holder)) ?_ ?_ ?_
            (fun _ _ same => by cases same) fun closed => ⟨(inv.closing closed).1, rfl⟩
          · rw [owed holder]
            rfl
          · rw [unlinked holder]
            exact .refl _
          · rw [behind holder] at tail
            exact tail
      · cases moved
  | post hasLock =>
      cases hasLock with
      | false =>
          simp only [State.step] at moved
          split at moved
          · next positive =>
              cases moved
              refine inv.producer (fun ended => ended) ?_ (.refl _) tail inv.last inv.closing
              show s.counter + 1 + (s.posting - 1) + s.owed = s.counter + s.posting + s.owed
              omega
          · cases moved
      | true =>
          simp only [State.step] at moved
          split at moved
          · next holder =>
              cases moved
              have open_ := inv.open_ holder
              refine inv.producer (fun ended => absurd ended (not_exhausted_of_holder holder)) ?_ ?_ ?_
                (fun _ _ same => by cases same) fun closed => ?_
              · rw [owed holder]
                exact Nat.add_right_comm s.counter 1 s.posting
              · rw [unlinked holder]
                exact .refl _
              · rw [behind holder] at tail
                exact tail
              · rw [open_] at closed
                cases closed
          · cases moved
  | close =>
      simp only [State.step] at moved
      split at moved
      · next open_ none free =>
          cases moved
          have tokens := inv.tokens
          rw [open_, Bool.toNat_false] at tokens
          refine ⟨inv.sound, inv.chained, inv.head, inv.tail, inv.last, ?_, inv.handled,
            fun _ => ⟨none, free⟩, inv.at_.mono rfl rfl (fun at_ => at_) fun ended => ?_⟩
          · show s.counter + 1 + (s.handled.length + s.service.ahead) + s.posting + s.owed =
              s.linked.length + 1
            omega
          · exact ⟨⟨rfl, none, free⟩, ended.2⟩
      · cases moved
  | service choice => exact inv.serviceStep moved

/-! ## Delivery -/

/-- A job is freed by means of the token of its successor. -/
theorem Inv.freed_lt (inv : s.Inv) :
    s.freed = 0 ∨ s.freed < s.handled.length + s.service.ahead := by
  have at_ := inv.at_
  have held {job : ℕ} (held : s.Held job) (ahead : ℕ) : s.freed < s.handled.length + ahead := by
    have := held.1
    omega
  have behind (freed : s.handled.length = s.freed) : s.freed < s.handled.length + 1 :=
    Nat.lt_succ_of_le (Nat.le_of_eq freed.symm)
  cases stage : s.service <;> rw [stage] at at_
  case start => exact .inl at_.2
  case first => exact .inl at_.2
  case check => exact .inr (behind at_.1)
  case handle => exact .inr (behind at_.1)
  case free => exact .inr (held at_.1 _)
  case leaving => exact .inr (behind at_.1)
  case lastDump => exact .inr (behind at_.1)
  case lastTry => exact .inr (behind at_.1)
  case stopped => exact .inr (behind at_.1)
  all_goals exact .inr (held at_ _)

/-- The job whose `next` field `D->tail` points to. -/
theorem Inv.tail_eq_some (inv : s.Inv) {n : ℕ} (tail : s.tail = some n) : ∃ k O,
    s.linked.length = k + 1 + s.behind ∧ s.linked[k]? = some O ∧ O.address = n := by
  rw [inv.tail] at tail
  cases moved : s.linked.length - s.behind with
  | zero =>
      rw [moved] at tail
      cases tail
  | succ k =>
      rw [moved] at tail
      obtain ⟨O, at_, same⟩ := Option.map_eq_some_iff.mp tail
      exact ⟨k, O, by omega, at_, same⟩

/-- While a push can follow, `D->tail` points into a job that is not freed. -/
theorem Inv.attached (inv : s.Inv) {n : ℕ} (tail : s.tail = some n) (open_ : s.closed = false) :
    s.cells n ≠ none := by
  obtain ⟨k, O, length, at_, rfl⟩ := inv.tail_eq_some tail
  have tokens := inv.tokens
  have behind := behind_le_owed s
  rw [open_, Bool.toNat_false] at tokens
  have live : s.freed ≤ k := by
    rcases inv.freed_lt with none | taken
    · exact none ▸ Nat.zero_le k
    · omega
  rw [(inv.chained.linked k O live at_).2]
  exact Option.some_ne_none _

/-- `D->tail` has moved behind the job that the service thread is about to free. -/
theorem Inv.tail_of_free (inv : s.Inv) {job jobNext : ℕ} (stage : s.service = .free job jobNext)
    (tail : s.tail = some job) : s.Exhausted := by
  have at_ := inv.at_
  rw [stage] at at_
  obtain ⟨⟨handled, O, here, rfl⟩, ⟨O', next, -⟩ | ⟨-, exhausted⟩⟩ := at_
  · have inside : s.handled.length < s.linked.length := (List.getElem?_eq_some_iff.mp next).1
    obtain ⟨k, O'', length, at_, same⟩ := inv.tail_eq_some tail
    have behind := behind_le_owed s
    have later : s.freed < k := by
      have tokens := inv.tokens
      have ahead : s.service.ahead = 1 := by rw [stage]; rfl
      cases closed : s.closed with
      | true =>
          have owed : s.owed = 0 := by
            rw [State.owed, (inv.closing closed).2]
            rfl
          omega
      | false =>
          rw [closed, Bool.toNat_false] at tokens
          omega
    have := inv.chained.address_inj (Nat.le_of_lt later) at_ (Nat.le_refl _) here same
    omega
  · exact exhausted

theorem Inv.awake (inv : s.Inv) (behind : s.service.ahead = 0) (counter : s.counter = 0)
    (posting : s.posting = 0) (owed : s.owed = 0) :
    s.closed = false ∧ s.handled = s.linked.map Entry.job := by
  have tokens := inv.tokens
  have length_le := inv.length_le
  cases closed : s.closed with
  | true =>
      rw [closed, Bool.toNat_true] at tokens
      omega
  | false =>
      rw [closed, Bool.toNat_false] at tokens
      exact ⟨rfl, inv.handled_all (by omega)⟩

theorem Inv.promised (inv : s.Inv) : s.Delivered where
  sound := inv.sound
  ordered := by
    rw [inv.handled]
    exact (List.take_prefix _ _).map _
  present job stage := by
    have at_ := inv.at_
    rw [stage] at at_
    obtain ⟨freed, O, next, rfl⟩ := at_
    exact ⟨O, _, next, rfl, (inv.cell_upcoming freed next).2⟩
  successor job stage := by
    have at_ := inv.at_
    rw [stage] at at_
    obtain ⟨O, -, -, cell⟩ := inv.cell_held at_
    exact ⟨_, cell, inv.successor (by rw [stage]; rfl)⟩
  tail job jobNext stage here := inv.tail_of_free stage here
  attached n tail open_ := inv.attached tail open_
  complete stage := by
    have at_ := inv.at_
    simp only [List.mem_cons, List.not_mem_nil, or_false] at stage
    rcases stage with stage | stage | stage | stage <;> rw [stage] at at_ <;> exact at_.2
  awake stage := by
    apply inv.awake
    rcases stage with stage | ⟨job, stage⟩ <;> rw [stage] <;> rfl

/-- In every run every job is delivered once. -/
theorem delivered (run : Reaches step anyStep (initial κ) s) : s.Delivered :=
  (run.invariant inv_initial fun _ _ _ inv _ moved => inv.step moved : s.Inv).promised

/-- Two producers of which the second one posts first, a dump, and the end. -/
theorem delivered_dump : ∃ s : State ℕ, s.service = .stopped ∧ s.handled.length = 2 ∧
    s.Delivered := by
  have run : Reaches step anyStep (initial ℕ) _ := reaches_of_runSteps .start
    (fun _ _ _ => trivial)
    (show runSteps step _ [.call ⟨8, .startDump, 0⟩ false, .call ⟨16, .commit, 1⟩ false, .lock 1,
      .link, .advance, .unlock, .lock 0, .link, .advance, .unlock, .post false, .service true,
      .service true, .service true, .service true, .service true, .service false, .post false,
      .service true, .service true, .service true, .close, .service true, .service true,
      .service true, .service true, .service true, .service true, .service true,
      .service true, .service true] = some _ from rfl)
  exact ⟨_, rfl, rfl, delivered run⟩

end State

end HybridDatabase.Service.Queue
