/-
# Closing the handles of a database

A database keeps its handles in a stack.  `db_handle_destroy` takes its handle out by
putting the top of the stack in its place.

`database_close` goes through the stack with a pointer while every turn takes out the
handle that the pointer stands on.  The handle that comes in its place is passed over, so
the loop closes every other handle at best.  It closes all of them only when there is no
more than one.
-/

import HybridDatabase.Base.Runs
import HybridDatabase.Utils.Stack

namespace HybridDatabase.Database

open HybridDatabase.Base HybridDatabase.Utils

universe u

/-! ## The source -/

/-- `D->handles`, with `allocated` and `start_time` of every handle. -/
structure Handles (Handle : Type u) where
  handles : Stack Handle
  allocated : Handle → Bool
  startTime : Handle → ℕ

/-- What happens to a handle: its main transaction is aborted, it is destroyed, its memory
is freed. -/
inductive HandleEvent (Handle : Type u)
  | aborted (H : Handle)
  | destroyed (H : Handle)
  | freed (H : Handle)
  deriving DecidableEq

namespace Handles

variable {Handle : Type u} [DecidableEq Handle] (realloc : ℕ → ℕ)

/-- A database without handles. -/
def initial : Handles Handle := ⟨Stack.init, fun _ => false, fun _ => 0⟩

/-- `db_handle_init`. -/
def init (H : Handle) (s : Handles Handle) : Handles Handle :=
  ⟨s.handles.push realloc H, Function.update s.allocated H false,
    Function.update s.startTime H 0⟩

/-- `db_handle_create`, where `xmalloc` gives `H`. -/
def create (H : Handle) (s : Handles Handle) : Handles Handle :=
  let s := s.init realloc H
  { s with allocated := Function.update s.allocated H true }

/-- `db_handle_destroy`.  A handle that is not registered stays out of the stack. -/
def destroy (H : Handle) (s : Handles Handle) : Handles Handle × List (HandleEvent Handle) :=
  let aborts : List (HandleEvent Handle) := if s.startTime H = 0 then [] else [.aborted H]
  ({ s with
      handles := if H ∈ s.handles.items then
          s.handles.replace realloc (s.handles.items.idxOf H)
        else s.handles
      startTime := Function.update s.startTime H 0 },
    aborts ++ [.destroyed H])

/-- `db_handle_free`. -/
def free (H : Handle) (s : Handles Handle) : Handles Handle × List (HandleEvent Handle) :=
  let (s, events) := s.destroy realloc H
  (s, events ++ [.freed H])

/-- One turn of the loop in `database_close`. -/
def close (H : Handle) (s : Handles Handle) : Handles Handle × List (HandleEvent Handle) :=
  if s.allocated H then s.free realloc H else s.destroy realloc H

variable {realloc} in
theorem close_handles {H : Handle} {s : Handles Handle} :
    (s.close realloc H).1.handles = if H ∈ s.handles.items then
      s.handles.replace realloc (s.handles.items.idxOf H) else s.handles := by
  unfold close
  split
  · rfl
  · rfl

variable {realloc} in
theorem close_length {H : Handle} {s : Handles Handle} (inside : H ∈ s.handles.items) :
    (s.close realloc H).1.handles.items.length + 1 = s.handles.items.length := by
  rw [close_handles, if_pos inside, Stack.replace_length (List.ne_nil_of_mem inside)]
  have positive := List.length_pos_of_mem inside
  omega

/-- The loop in `database_close`; the pointer is `place` in the array `array`.  Where the
array has been moved the pointer is not defined. -/
def closeLoop (array place : ℕ) (s : Handles Handle) :
    Option (Handles Handle × List (HandleEvent Handle)) :=
  if array ≠ s.handles.array then none
  else if inside : place < s.handles.items.length then
    let closed := s.close realloc s.handles.items[place]
    have shorter : closed.1.handles.items.length + 1 = s.handles.items.length :=
      close_length (List.getElem_mem inside)
    (closeLoop array (place + 1) closed.1).map fun (t, others) => (t, closed.2 ++ others)
  else some (s, [])
termination_by s.handles.items.length
decreasing_by exact Nat.lt_of_succ_le (Nat.le_of_eq shorter)

/-- What `database_close` does with the handles. -/
def closeHandles (s : Handles Handle) : Option (Handles Handle × List (HandleEvent Handle)) :=
  if s.handles.items = [] then some (s, [])
  else closeLoop realloc s.handles.array 0 s

/-! ## The database before it is closed -/

/-- What is done with the handles while the database is open. -/
inductive HandleCall (Handle : Type u)
  | create (H : Handle) (realloc : ℕ → ℕ)
  | init (H : Handle) (realloc : ℕ → ℕ)
  | begin (H : Handle) (time : ℕ)
  | finish (H : Handle)
  | destroy (H : Handle) (realloc : ℕ → ℕ)
  | free (H : Handle) (realloc : ℕ → ℕ)

/-- One call.  A handle is registered once, and only registered handles are used. -/
def step (s : Handles Handle) : HandleCall Handle → Option (Handles Handle)
  | .create H realloc => if H ∈ s.handles.items then none else some (s.create realloc H)
  | .init H realloc => if H ∈ s.handles.items then none else some (s.init realloc H)
  | .begin H time =>
      if H ∈ s.handles.items then
        some { s with startTime := Function.update s.startTime H time }
      else none
  | .finish H =>
      if H ∈ s.handles.items then
        some { s with startTime := Function.update s.startTime H 0 }
      else none
  | .destroy H realloc =>
      if H ∈ s.handles.items then some (s.destroy realloc H).1 else none
  | .free H realloc => if H ∈ s.handles.items then some (s.free realloc H).1 else none

/-- Handles are registered once, and the array is not much too large. -/
structure Registered (s : Handles Handle) : Prop where
  different : s.handles.items.Nodup
  fitting : s.handles.Fitting

omit [DecidableEq Handle] in
theorem registered_initial : (initial : Handles Handle).Registered :=
  ⟨List.nodup_nil, Nat.le_refl 0, .inl (Nat.zero_le _)⟩

variable {realloc : ℕ → ℕ} {s s' : Handles Handle} {H : Handle}

theorem registered_init (registered : s.Registered) (new : H ∉ s.handles.items) :
    (s.init realloc H).Registered := by
  refine ⟨?_, Stack.fitting_push registered.fitting⟩
  have items : (s.init realloc H).handles.items = s.handles.items ++ [H] :=
    Stack.push_items H
  rw [items]
  apply List.Nodup.append registered.different (List.nodup_singleton H)
  intro other among last
  rw [List.mem_singleton.mp last] at among
  exact new among

theorem registered_destroy (registered : s.Registered) :
    (s.destroy realloc H).1.Registered := by
  unfold destroy
  by_cases among : H ∈ s.handles.items
  · simp only [if_pos among]
    exact ⟨Stack.replace_nodup (List.idxOf_lt_length_iff.mpr among) registered.different,
      Stack.fitting_replace registered.fitting⟩
  · simp only [if_neg among]
    exact ⟨registered.different, registered.fitting⟩

theorem registered_step {call : HandleCall Handle} (registered : s.Registered)
    (moved : s.step call = some s') : s'.Registered := by
  cases call with
  | create H realloc =>
      obtain ⟨new, moved⟩ := Option.ite_none_left_eq_some.mp moved
      cases moved
      have both : (s.init realloc H).Registered := registered_init registered new
      exact ⟨both.different, both.fitting⟩
  | init H realloc =>
      obtain ⟨new, moved⟩ := Option.ite_none_left_eq_some.mp moved
      cases moved
      exact registered_init registered new
  | «begin» H time =>
      obtain ⟨among, moved⟩ := Option.ite_none_right_eq_some.mp moved
      cases moved
      exact ⟨registered.different, registered.fitting⟩
  | finish H =>
      obtain ⟨among, moved⟩ := Option.ite_none_right_eq_some.mp moved
      cases moved
      exact ⟨registered.different, registered.fitting⟩
  | destroy H realloc =>
      obtain ⟨among, moved⟩ := Option.ite_none_right_eq_some.mp moved
      cases moved
      exact registered_destroy registered
  | free H realloc =>
      obtain ⟨among, moved⟩ := Option.ite_none_right_eq_some.mp moved
      cases moved
      exact registered_destroy registered

/-! ## What the loop closes -/

/-- The loop leaves no handle, destroys each one once, aborts the running transactions and
frees what was allocated. -/
structure ClosesAll (s : Handles Handle)
    (result : Option (Handles Handle × List (HandleEvent Handle))) : Prop where
  closed : ∃ t events, result = some (t, events) ∧ t.handles.items = [] ∧
    (∀ H, events.count (.destroyed H) = if H ∈ s.handles.items then 1 else 0) ∧
    (∀ H, events.count (.aborted H) =
      if H ∈ s.handles.items ∧ s.startTime H ≠ 0 then 1 else 0) ∧
    ∀ H, events.count (.freed H) =
      if H ∈ s.handles.items ∧ s.allocated H then 1 else 0

/-- A pointer that has passed a handle leaves one behind. -/
theorem closeLoop_leaves {array place : ℕ} (passed : 1 ≤ place) (some : s.handles.items ≠ []) :
    ∀ t events, closeLoop realloc array place s = Option.some (t, events) →
      t.handles.items ≠ [] := by
  fun_induction closeLoop realloc array place s with
  | case1 place s moved => exact fun _ _ closed => (nomatch closed)
  | case2 place s same inside closed shorter ih =>
      intro t events whole
      obtain ⟨⟨u, others⟩, rest, together⟩ := Option.map_eq_some_iff.mp whole
      cases together
      refine ih (Nat.le_succ_of_le passed) ?_ t others rest
      -- The pointer is past the first handle, so the stack has another one.
      exact List.ne_nil_of_length_pos (by omega)
  | case3 place s same outside =>
      intro t events closed
      cases closed
      exact some

/-- The only handle is closed without moving the array. -/
theorem closeHandles_single (registered : s.Registered) (single : s.handles.items = [H]) :
    s.closeHandles realloc = some ((s.close realloc H).1, (s.close realloc H).2 ++ []) ∧
      (s.close realloc H).1.handles.items = [] := by
  have among : H ∈ s.handles.items := by
    rw [single]
    exact List.mem_singleton_self H
  have first : s.handles.items.idxOf H = 0 := by
    rw [single, List.idxOf_cons_self]
  have last : s.handles.items.getLast? = some H := by
    rw [single]
    rfl
  have left : (s.close realloc H).1.handles.items = [] := by
    rw [close_handles, if_pos among, first, Stack.replace_items, Stack.moveLast, last, single]
    rfl
  have stays : (s.close realloc H).1.handles.array = s.handles.array := by
    obtain ⟨inside, good⟩ := registered.fitting
    have large : ¬(2 * (s.handles.items.set 0 H).length < s.handles.capacity ∧
        2 * stackMinSize < s.handles.capacity) := by
      rw [single] at good ⊢
      simp only [stackMinSize, List.length_set, List.length_singleton] at good ⊢
      omega
    rw [close_handles, if_pos among, first, Stack.replace, last]
    simp only [Stack.pop, if_neg large]
  refine ⟨?_, left⟩
  have some : s.handles.items ≠ [] := List.ne_nil_of_mem among
  have inside : 0 < s.handles.items.length := List.length_pos_of_mem among
  have element : s.handles.items[0] = H := by
    simp only [single, List.getElem_cons_zero]
  have ended : closeLoop realloc s.handles.array 1 (s.close realloc H).1 =
      Option.some ((s.close realloc H).1, []) := by
    rw [closeLoop, if_neg (not_not.mpr stays.symm), dif_neg]
    rw [left]
    exact Nat.not_lt_zero 1
  rw [closeHandles, if_neg some, closeLoop, if_neg (not_not.mpr rfl), dif_pos inside]
  simp only [element]
  rw [ended]
  rfl

/-- What closing a handle does to the handle. -/
theorem close_events (K : Handle) :
    (s.close realloc H).2.count (.destroyed K) = (if K = H then 1 else 0) ∧
      (s.close realloc H).2.count (.aborted K) =
        (if K = H ∧ s.startTime K ≠ 0 then 1 else 0) ∧
      (s.close realloc H).2.count (.freed K) = if K = H ∧ s.allocated K then 1 else 0 := by
  unfold close free destroy
  by_cases same : K = H
  · subst same
    by_cases running : s.startTime K = 0
    · by_cases allocated : s.allocated K
      · simp [running, allocated]
      · simp [running, allocated]
    · by_cases allocated : s.allocated K
      · simp [running, allocated]
      · simp [running, allocated]
  · have other : ¬H = K := fun equal => same equal.symm
    by_cases running : s.startTime H = 0
    · by_cases allocated : s.allocated H
      · simp [running, allocated, same, other]
      · simp [running, allocated, same, other]
    · by_cases allocated : s.allocated H
      · simp [running, allocated, same, other]
      · simp [running, allocated, same, other]

/-- The loop leaves a handle when there are two or more. -/
theorem not_closesAll (many : 1 < s.handles.items.length) :
    ¬ClosesAll s (s.closeHandles realloc) := by
  rintro ⟨t, events, closed, left, -⟩
  have inside : 0 < s.handles.items.length := Nat.lt_of_succ_lt many
  have some : s.handles.items ≠ [] := List.ne_nil_of_length_pos inside
  rw [closeHandles, if_neg some, closeLoop, if_neg (not_not.mpr rfl), dif_pos inside] at closed
  obtain ⟨⟨u, others⟩, rest, together⟩ := Option.map_eq_some_iff.mp closed
  cases together
  have shorter := @close_length Handle _ realloc _ s (List.getElem_mem inside)
  refine closeLoop_leaves (Nat.le_refl 1) ?_ t others rest left
  exact List.ne_nil_of_length_pos (by omega)

/-- The loop closes all handles of a database just when it has at most one. -/
theorem closeHandles_all_iff (s : Handles Handle) (realloc : ℕ → ℕ)
    (reaches : Reaches step anyStep initial s) :
    ClosesAll s (s.closeHandles realloc) ↔ s.handles.items.length ≤ 1 := by
  have registered : s.Registered := reaches.invariant registered_initial
    fun _ _ _ registered _ moved => registered_step registered moved
  constructor
  · intro all
    by_contra many
    exact not_closesAll (Nat.lt_of_not_le many) all
  · intro few
    cases items : s.handles.items with
    | nil =>
        refine ⟨s, [], ?_, items, ?_⟩
        · rw [closeHandles, if_pos items]
        · rw [items]
          simp
    | cons H others =>
        have single : s.handles.items = [H] := by
          rw [items] at few ⊢
          rw [List.eq_nil_of_length_eq_zero (Nat.le_zero.mp (Nat.le_of_succ_le_succ few))]
        obtain ⟨closed, left⟩ := @closeHandles_single Handle _ realloc s H registered single
        refine ⟨_, _, closed, left, ?_⟩
        rw [List.append_nil, single]
        simp only [List.mem_singleton]
        exact ⟨fun K => (close_events K).1, fun K => (close_events K).2.1,
          fun K => (close_events K).2.2⟩

/-- A handle inside a transaction is the only one. -/
theorem closeHandles_all_single :
    ClosesAll ⟨⟨4096, 17, [0]⟩, Function.update (Function.update (fun _ => false) 0 false) 0 true,
        Function.update (Function.update (fun _ => 0) 0 0) 0 3⟩
      (closeHandles (fun _ => 8192) (⟨⟨4096, 17, [0]⟩,
        Function.update (Function.update (fun _ => false) 0 false) 0 true,
        Function.update (Function.update (fun _ => 0) 0 0) 0 3⟩ : Handles ℕ)) :=
  (closeHandles_all_iff _ _
    (.step (.step .start trivial (l := .create 0 fun _ => 4096) rfl) trivial
      (l := .begin 0 3) rfl)).mpr (Nat.le_refl 1)

/-- Of two handles the second stays. -/
theorem closeHandles_not_all : ¬∀ (s : Handles ℕ) (realloc : ℕ → ℕ),
    Reaches step anyStep initial s → ClosesAll s (s.closeHandles realloc) := by
  intro all
  have reaches : Reaches step anyStep (initial : Handles ℕ)
      (((initial : Handles ℕ).create (fun _ => 4096) 0).create (fun _ => 4096) 1) :=
    .step (.step .start trivial (l := .create 0 fun _ => 4096) rfl) trivial
      (l := .create 1 fun _ => 4096) rfl
  exact not_closesAll (by decide) (all _ (fun _ => 4096) reaches)

end Handles

end HybridDatabase.Database
