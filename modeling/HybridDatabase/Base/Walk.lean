/-
# Walking along a list by its successors

A walk does not see a list as a whole: it knows where it stands and can go to the next
place.  Here such a walk, which stops at the places where `p` holds, is compared with
the list of these places.
-/

import Mathlib.Data.List.Basic

namespace HybridDatabase.Base

variable {α : Type*}

/-- `next` leads from each place of the list to the one behind it. -/
def Walks (next : α → Option α) : List α → Prop
  | [] => True
  | a :: rest => next a = rest.head? ∧ Walks next rest

/-- Go on to the first place where `p` holds, at most `n` times. -/
def search (next : α → Option α) (p : α → Bool) : ℕ → Option α → Option α
  | 0, _ => none
  | _ + 1, none => none
  | n + 1, some a => if p a then some a else search next p n (next a)

/-- The places that are visited, at most `n`. -/
def visits (next : α → Option α) : ℕ → Option α → List α
  | 0, _ => []
  | _ + 1, none => []
  | n + 1, some a => a :: visits next n (next a)

theorem Walks.of_append {next : α → Option α} {front rest : List α}
    (walks : Walks next (front ++ rest)) : Walks next rest := by
  induction front with
  | nil => exact walks
  | cons a front ih => exact ih walks.2

theorem Walks.congr {next next' : α → Option α} {l : List α} (walks : Walks next l)
    (same : ∀ a ∈ l, next' a = next a) : Walks next' l := by
  induction l with
  | nil => trivial
  | cons a rest ih =>
      exact ⟨(same a List.mem_cons_self).trans walks.1,
        ih walks.2 fun b inside => same b (List.mem_cons_of_mem a inside)⟩

/-- What stands behind the places where `p` does not hold. -/
theorem exists_skip (p : α → Bool) (l : List α) :
    ∃ skipped rest, l = skipped ++ rest ∧ rest.head? = (l.filter p).head? ∧
      ∀ b ∈ skipped, p b = false := by
  induction l with
  | nil => exact ⟨[], [], rfl, rfl, fun b inside => (nomatch inside)⟩
  | cons a l ih =>
      by_cases holds : p a = true
      · refine ⟨[], a :: l, rfl, ?_, fun b inside => (nomatch inside)⟩
        rw [List.filter_cons_of_pos holds, List.head?_cons, List.head?_cons]
      · obtain ⟨skipped, rest, rfl, first, none⟩ := ih
        refine ⟨a :: skipped, rest, rfl, ?_, fun b inside => ?_⟩
        · rw [List.filter_cons_of_neg holds, first]
        · rcases List.mem_cons.mp inside with rfl | inside
          · exact Bool.eq_false_iff.mpr holds
          · exact none b inside

theorem search_head {next : α → Option α} {p : α → Bool} {l : List α} (walks : Walks next l)
    {n : ℕ} (enough : l.length < n) : search next p n l.head? = (l.filter p).head? := by
  induction l generalizing n with
  | nil =>
      obtain ⟨n, rfl⟩ : ∃ k, n = k + 1 := ⟨n - 1, by omega⟩
      rfl
  | cons a rest ih =>
      obtain ⟨n, rfl⟩ : ∃ k, n = k + 1 := ⟨n - 1, by omega⟩
      rw [List.length_cons] at enough
      rw [List.head?_cons, search]
      by_cases holds : p a = true
      · rw [if_pos holds, List.filter_cons_of_pos holds, List.head?_cons]
      · rw [if_neg holds, List.filter_cons_of_neg holds, walks.1]
        exact ih walks.2 (by omega)

/-- The walk visits exactly the places where `p` holds, in the order of the list. -/
theorem visits_filter {next : α → Option α} {p : α → Bool} {l : List α} (walks : Walks next l)
    {n m : ℕ} (enough : l.length < n) (more : l.length < m) :
    visits (fun a => search next p n (next a)) m (search next p n l.head?) = l.filter p := by
  rw [search_head walks enough]
  induction l generalizing m with
  | nil =>
      obtain ⟨m, rfl⟩ : ∃ k, m = k + 1 := ⟨m - 1, by omega⟩
      rfl
  | cons a rest ih =>
      obtain ⟨m, rfl⟩ : ∃ k, m = k + 1 := ⟨m - 1, by omega⟩
      rw [List.length_cons] at enough more
      have later := @ih walks.2 m (by omega) (by omega)
      by_cases holds : p a = true
      · rw [List.filter_cons_of_pos holds, List.head?_cons, visits, walks.1,
          search_head walks.2 (by omega), later]
      · rw [List.filter_cons_of_neg holds]
        exact ih walks.2 (by omega) (by omega)

end HybridDatabase.Base
