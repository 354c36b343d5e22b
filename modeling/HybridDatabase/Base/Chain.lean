/-
# Linked lists

Nodes that point to each other form a chain: from its first node the pointers lead through
all of them to the null pointer.  A change of one pointer changes only the chains that hold
its node.
-/

import Mathlib.Data.List.Nodup
import Mathlib.Logic.Function.Basic

namespace HybridDatabase.Base

universe u

variable {α : Type u}

/-- From `a` the pointers `next` lead through `nodes` to `null`. -/
def Chain (next : α → α) (null : α) : α → List α → Prop
  | a, [] => a = null
  | a, b :: nodes => a = b ∧ b ≠ null ∧ Chain next null (next b) nodes

namespace Chain

variable {next next' : α → α} {null a b : α} {nodes : List α}

theorem ne_null (chain : Chain next null a nodes) : ∀ b ∈ nodes, b ≠ null := by
  induction nodes generalizing a with
  | nil => exact fun _ among => (nomatch among)
  | cons c others ih =>
      obtain ⟨-, real, rest⟩ := chain
      intro b among
      obtain rfl | among := List.mem_cons.mp among
      · exact real
      · exact ih rest b among

/-- The null pointer starts the empty chain only. -/
theorem eq_nil (chain : Chain next null null nodes) : nodes = [] := by
  cases nodes with
  | nil => rfl
  | cons b others => exact absurd chain.1.symm chain.2.1

theorem eq_cons (chain : Chain next null a nodes) (real : a ≠ null) :
    ∃ others, nodes = a :: others ∧ Chain next null (next a) others := by
  cases nodes with
  | nil => exact absurd chain real
  | cons b others =>
      obtain ⟨rfl, -, rest⟩ := chain
      exact ⟨others, rfl, rest⟩

/-- Only the pointers of its own nodes matter. -/
theorem congr (chain : Chain next null a nodes) (same : ∀ b ∈ nodes, next' b = next b) :
    Chain next' null a nodes := by
  induction nodes generalizing a with
  | nil => exact chain
  | cons b others ih =>
      obtain ⟨rfl, real, rest⟩ := chain
      refine ⟨rfl, real, ?_⟩
      rw [same a List.mem_cons_self]
      exact ih rest fun c among => same c (List.mem_cons_of_mem a among)

/-- A node is put in front. -/
theorem push (chain : Chain next null a nodes) (real : b ≠ null) (first : next b = a) :
    Chain next null b (b :: nodes) := by
  refine ⟨rfl, real, ?_⟩
  rw [first]
  exact chain

section Update

variable [DecidableEq α]

/-- The pointer of another node changes. -/
theorem update (chain : Chain next null a nodes) (other : b ∉ nodes) (c : α) :
    Chain (Function.update next b c) null a nodes := by
  refine chain.congr fun d among => Function.update_of_ne ?_ _ _
  rintro rfl
  exact other among

/-- A node is taken out: the one before it gets its pointer. -/
theorem unlink {before after : List α} {p x : α}
    (chain : Chain next null a (before ++ p :: x :: after))
    (different : (before ++ p :: x :: after).Nodup) :
    Chain (Function.update next p (next x)) null a (before ++ p :: after) := by
  induction before generalizing a with
  | nil =>
      obtain ⟨rfl, real, rfl, -, rest⟩ := chain
      have absent : a ∉ after := fun among =>
        (List.nodup_cons.mp different).1 (List.mem_cons_of_mem _ among)
      refine ⟨rfl, real, ?_⟩
      rw [Function.update_self]
      exact rest.update absent _
  | cons b before ih =>
      obtain ⟨rfl, real, rest⟩ := chain
      obtain ⟨absent, different⟩ := List.nodup_cons.mp different
      have other : a ≠ p := by
        rintro rfl
        exact absent (List.mem_append_right _ List.mem_cons_self)
      refine ⟨rfl, real, ?_⟩
      rw [Function.update_of_ne other]
      exact ih rest different

end Update

end Chain

end HybridDatabase.Base
