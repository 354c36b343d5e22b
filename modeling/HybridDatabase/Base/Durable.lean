/-
# Durable histories

Something changes from state to state, and only some of its states are safe.  A history holds the
states that a crash may still lead back to: the oldest one is safe, and the newest one is the
current state.

After any number of crashes each of the states is one that was there at the start, or that was
pushed since.
-/

import Mathlib.Data.List.Infix

namespace HybridDatabase.Base

universe u

/-- The states since the last one that is safe, the current one at the end. -/
structure History (α : Type u) where
  states : List α
  nonempty : states ≠ []

variable {α : Type u}

namespace History

/-- One state that is safe. -/
def safe (a : α) : History α := ⟨[a], List.cons_ne_nil a []⟩

def current (H : History α) : α := H.states.getLast H.nonempty

/-- A new state, which is not safe yet. -/
def push (a : α) (H : History α) : History α :=
  ⟨H.states ++ [a], List.append_ne_nil_of_right_ne_nil _ (List.cons_ne_nil a [])⟩

/-- The current state becomes safe. -/
def sync (H : History α) : History α := safe H.current

/-- A crash leads back to some of the states. -/
def Survives (H' H : History α) : Prop := H'.states <+: H.states

variable {H H' : History α} {a : α}

@[simp]
theorem current_safe (a : α) : (safe a).current = a := rfl

@[simp]
theorem current_push (a : α) (H : History α) : (H.push a).current = a := List.getLast_concat

@[simp]
theorem current_sync (H : History α) : H.sync.current = H.current := rfl

theorem current_mem (H : History α) : H.current ∈ H.states := List.getLast_mem H.nonempty

/-- What happens to a history. -/
inductive Change (α : Type u)
  | push (a : α)
  | sync
  | crash

/-- One change. -/
inductive Step : History α → Change α → History α → Prop
  | push (H : History α) (a : α) : Step H (.push a) (H.push a)
  | sync (H : History α) : Step H .sync H.sync
  | crash {H H' : History α} (survived : H'.Survives H) : Step H .crash H'

/-- Changes one after another. -/
inductive Steps (H : History α) : List (Change α) → History α → Prop
  | nothing : Steps H [] H
  | more {H₁ H₂ : History α} {changes : List (Change α)} {change : Change α}
      (before : Steps H changes H₁) (step : Step H₁ change H₂) : Steps H (changes ++ [change]) H₂

theorem Steps.trans {H₁ H₂ : History α} {first second : List (Change α)} (h : Steps H first H₁)
    (h' : Steps H₁ second H₂) : Steps H (first ++ second) H₂ := by
  induction h' with
  | nothing => rwa [List.append_nil]
  | more before step ih =>
      rw [← List.append_assoc]
      exact ih.more step

theorem Step.steps {change : Change α} (h : Step H change H') : Steps H [change] H' :=
  Steps.nothing.more h

theorem Steps.last {changes : List (Change α)} {change : Change α}
    (h : Steps H (changes ++ [change]) H') : ∃ H₁, Steps H changes H₁ ∧ Step H₁ change H' := by
  generalize same : changes ++ [change] = all at h
  cases h with
  | nothing => exact absurd same (List.append_ne_nil_of_right_ne_nil _ (List.cons_ne_nil _ _))
  | more before step =>
      obtain ⟨rfl, here⟩ := List.append_inj' same rfl
      cases here
      exact ⟨_, before, step⟩

/-- Only `push` makes new states. -/
theorem Step.mem {change : Change α} (h : Step H change H') (inside : a ∈ H'.states) :
    a ∈ H.states ∨ change = .push a := by
  cases h with
  | push b =>
      obtain before | new := List.mem_append.mp inside
      · exact .inl before
      · rw [List.mem_singleton.mp new]
        exact .inr rfl
  | sync =>
      rw [List.mem_singleton.mp inside]
      exact .inl H.current_mem
  | crash survived => exact .inl (survived.subset inside)

theorem Steps.mem {changes : List (Change α)} (h : Steps H changes H')
    (inside : a ∈ H'.states) : a ∈ H.states ∨ .push a ∈ changes := by
  induction h with
  | nothing => exact .inl inside
  | more before step ih =>
      obtain earlier | rfl := step.mem inside
      · exact (ih earlier).imp_right (List.mem_append_left _)
      · exact .inr (List.mem_append_right _ (List.mem_singleton_self _))

/-- After a `sync` a crash leads back to the current state. -/
theorem Step.synced (h : Step H .sync H') (inside : a ∈ H'.states) : a = H'.current := by
  cases h with
  | sync => exact List.mem_singleton.mp inside

/-- The property holds of every state that a crash may lead back to. -/
def Always (P : α → Prop) (H : History α) : Prop := ∀ a ∈ H.states, P a

theorem always_safe {P : α → Prop} (holds : P a) : (safe a).Always P := by
  intro b inside
  rw [List.mem_singleton.mp inside]
  exact holds

end History

end HybridDatabase.Base
