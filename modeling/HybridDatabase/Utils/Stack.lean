/-
# The array stack

`Stack` keeps its items in one array that is reallocated as it grows and shrinks, so a
pointer into the array is good only as long as the array stays where it is.
-/

import Mathlib.Data.List.Basic
import Mathlib.Data.List.Nodup
import Mathlib.Data.List.Perm.Basic

namespace HybridDatabase.Utils

universe u

/-- `Stack(Type)`: `array` is the place of the array, `begin`, `capacity` is `end - begin`,
and `items` are those from `begin` up to `ptr`. -/
structure Stack (α : Type u) where
  array : ℕ
  capacity : ℕ
  items : List α

/-- `STACK_MIN_SIZE`. -/
def stackMinSize : ℕ := 17

namespace Stack

variable {α : Type u} (realloc : ℕ → ℕ)

/-- `stack_init`. -/
def init : Stack α := ⟨0, 0, []⟩

/-- `_stack_expand`; `realloc` puts an array of the given capacity somewhere. -/
def expand (s : Stack α) : Stack α :=
  let capacity := s.capacity * 2 + stackMinSize
  ⟨realloc capacity, capacity, s.items⟩

/-- `_stack_shrink`. -/
def shrink (s : Stack α) : Stack α :=
  let capacity := (s.capacity + 1) / 2
  ⟨realloc capacity, capacity, s.items⟩

/-- `stack_push`. -/
def push (item : α) (s : Stack α) : Stack α :=
  let s := if s.items.length = s.capacity then s.expand realloc else s
  { s with items := s.items ++ [item] }

/-- `stack_pop`, without its answer. -/
def pop (s : Stack α) : Stack α :=
  let s := if 2 * s.items.length < s.capacity ∧ 2 * stackMinSize < s.capacity then
      s.shrink realloc
    else s
  { s with items := s.items.dropLast }

/-- The top takes the place of an item and is popped. -/
def replace (place : ℕ) (s : Stack α) : Stack α :=
  match s.items.getLast? with
  | none => s
  | some top => pop realloc { s with items := s.items.set place top }

variable {realloc} {s : Stack α}

theorem push_items (item : α) : (s.push realloc item).items = s.items ++ [item] := by
  unfold push
  split
  · rfl
  · rfl

theorem pop_items : (s.pop realloc).items = s.items.dropLast := by
  unfold pop
  split
  · rfl
  · rfl

/-- Of the items, the last one takes a place. -/
def moveLast (place : ℕ) (items : List α) : List α :=
  match items.getLast? with
  | none => items
  | some top => (items.set place top).dropLast

/-- The item at the place goes, and the others stay. -/
theorem moveLast_perm {place : ℕ} {items : List α} (inside : place < items.length) :
    (items[place] :: moveLast place items).Perm items := by
  have some : items ≠ [] := List.ne_nil_of_length_pos (Nat.lt_of_le_of_lt (Nat.zero_le _) inside)
  obtain ⟨others, top, split⟩ := List.eq_nil_or_concat items |>.resolve_left some
  have last : items.getLast? = Option.some top := by
    rw [split, List.concat_eq_append, List.getLast?_append, List.getLast?_singleton]
    rfl
  rw [moveLast, last]
  rw [List.concat_eq_append] at split
  simp only [split] at inside ⊢
  rw [List.length_append, List.length_singleton] at inside
  by_cases isTop : place = others.length
  · subst isTop
    rw [List.getElem_concat_length rfl, List.set_append_right _ _ (Nat.le_refl _), Nat.sub_self]
    have dropped : (others ++ [top].set 0 top).dropLast = others := List.dropLast_concat
    rw [dropped]
    exact (List.perm_append_singleton top others).symm
  · have below : place < others.length := by omega
    rw [List.set_append_left _ _ below, List.dropLast_concat, List.getElem_append_left below,
      List.set_eq_take_append_cons_drop, if_pos below]
    have whole : others.take place ++ others[place] :: others.drop (place + 1) = others := by
      rw [List.getElem_cons_drop, List.take_append_drop]
    have out : (others[place] :: (others.take place ++ top :: others.drop (place + 1))).Perm
        (top :: others[place] :: (others.take place ++ others.drop (place + 1))) :=
      (List.perm_middle.cons _).trans (List.Perm.swap _ _ _)
    have back : (others[place] :: (others.take place ++ others.drop (place + 1))).Perm others := by
      have middle : (others.take place ++ others[place] :: others.drop (place + 1)).Perm
          (others[place] :: (others.take place ++ others.drop (place + 1))) :=
        List.perm_middle
      rw [whole] at middle
      exact middle.symm
    exact (out.trans (back.cons top)).trans (List.perm_append_singleton top others).symm

theorem replace_items (place : ℕ) : (s.replace realloc place).items = moveLast place s.items := by
  unfold replace moveLast
  cases s.items.getLast? with
  | none => rfl
  | some top => exact pop_items

theorem replace_length {place : ℕ} (some : s.items ≠ []) :
    (s.replace realloc place).items.length = s.items.length - 1 := by
  rw [replace_items, moveLast, List.getLast?_eq_some_getLast some, List.length_dropLast,
    List.length_set]

theorem replace_perm {place : ℕ} (inside : place < s.items.length) :
    (s.items[place] :: (s.replace realloc place).items).Perm s.items := by
  rw [replace_items]
  exact moveLast_perm inside

theorem replace_nodup {place : ℕ} (inside : place < s.items.length)
    (different : s.items.Nodup) : (s.replace realloc place).items.Nodup :=
  (List.nodup_cons.mp ((replace_perm inside).nodup_iff.mpr different)).2

/-- A stack that has only been pushed and popped is small or filled in good part. -/
def Fitting (s : Stack α) : Prop := s.items.length ≤ s.capacity ∧
  (s.capacity ≤ 2 * stackMinSize ∨ s.capacity < 2 * s.items.length + stackMinSize)

theorem fitting_push {item : α} (fitting : s.Fitting) : (s.push realloc item).Fitting := by
  obtain ⟨inside, good⟩ := fitting
  unfold Fitting push expand stackMinSize at *
  split
  · simp only [List.length_append, List.length_singleton]
    omega
  · simp only [List.length_append, List.length_singleton]
    omega

theorem fitting_pop (fitting : s.Fitting) : (s.pop realloc).Fitting := by
  obtain ⟨inside, good⟩ := fitting
  unfold Fitting pop shrink stackMinSize at *
  split
  · simp only [List.length_dropLast]
    omega
  · simp only [List.length_dropLast]
    omega

theorem fitting_replace {place : ℕ} (fitting : s.Fitting) :
    (s.replace realloc place).Fitting := by
  unfold replace
  split
  · exact fitting
  · apply fitting_pop
    unfold Fitting at *
    simp only [List.length_set]
    exact fitting

end Stack

end HybridDatabase.Utils
