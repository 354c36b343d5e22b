/-
# Runs of labelled systems

A system is a partial step function: `step s l` is the state after the label `l`,
or `none` where `l` is not enabled.  `Reaches` is reachability by steps that all
meet a condition, and `Reaches.invariant` the induction over such runs.
-/

import Mathlib.Logic.Basic

namespace HybridDatabase.Base

universe u v

variable {σ : Type u} {ℓ : Type v}

/-- The states reached from `s` by steps that all meet `ok`. -/
inductive Reaches (step : σ → ℓ → Option σ) (ok : σ → ℓ → Prop) (s : σ) : σ → Prop
  | start : Reaches step ok s s
  | step {t u : σ} {l : ℓ} (before : Reaches step ok s t) (met : ok t l)
      (moved : step t l = some u) : Reaches step ok s u

/-- The condition every step meets. -/
def anyStep : σ → ℓ → Prop := fun _ _ => True

namespace Reaches

variable {step : σ → ℓ → Option σ} {ok ok' : σ → ℓ → Prop} {s t u : σ}

/-- What holds at the start and is kept by every step holds in every state reached. -/
theorem invariant {Inv : σ → Prop} (h : Reaches step ok s t) (start : Inv s)
    (kept : ∀ t u l, Inv t → ok t l → step t l = some u → Inv u) : Inv t := by
  induction h with
  | start => exact start
  | step before met moved ih => exact kept _ _ _ ih met moved

end Reaches

/-- Take the steps of a list of labels. -/
def runSteps (step : σ → ℓ → Option σ) (s : σ) : List ℓ → Option σ
  | [] => some s
  | l :: labels => (step s l).bind fun t => runSteps step t labels

theorem runSteps_cons {step : σ → ℓ → Option σ} {s t u : σ} {l : ℓ} {labels : List ℓ}
    (moved : step s l = some t) (others : runSteps step t labels = some u) :
    runSteps step s (l :: labels) = some u :=
  Option.bind_eq_some_iff.mpr ⟨t, moved, others⟩

theorem runSteps_append {step : σ → ℓ → Option σ} {s t u : σ} {first second : List ℓ}
    (run : runSteps step s first = some t) (others : runSteps step t second = some u) :
    runSteps step s (first ++ second) = some u := by
  induction first generalizing s with
  | nil =>
      cases run
      exact others
  | cons l first ih =>
      obtain ⟨s', moved, run⟩ := Option.bind_eq_some_iff.mp run
      exact runSteps_cons moved (ih run)

/-- A computed run whose labels are allowed in every state is a run. -/
theorem reaches_of_runSteps {step : σ → ℓ → Option σ} {ok : σ → ℓ → Prop} {s t u : σ}
    {labels : List ℓ} (before : Reaches step ok s t) (allowed : ∀ l ∈ labels, ∀ t, ok t l)
    (run : runSteps step t labels = some u) : Reaches step ok s u := by
  induction labels generalizing t with
  | nil =>
      cases run
      exact before
  | cons l labels ih =>
      obtain ⟨t', moved, others⟩ := Option.bind_eq_some_iff.mp run
      have first := allowed l List.mem_cons_self t
      exact ih (.step before first moved)
        (fun l' inside => allowed l' (List.mem_cons_of_mem l inside)) others

/-- Where the steps of two systems correspond, and fail together, so do their runs. -/
theorem runSteps_rel {τ : Type*} {step : σ → ℓ → Option σ} {step' : τ → ℓ → Option τ}
    {R : σ → τ → Prop} (steps : ∀ s t l, R s t → Option.Rel R (step s l) (step' t l)) {s : σ} {t : τ}
    (start : R s t) (labels : List ℓ) :
    Option.Rel R (runSteps step s labels) (runSteps step' t labels) := by
  induction labels generalizing s t with
  | nil => exact .some start
  | cons l labels ih =>
      have first := steps s t l start
      simp only [runSteps]
      generalize step s l = next, step' t l = next' at first
      cases first with
      | none => exact .none
      | some related => exact ih related

/-- A computed run that checks the condition of every step is a run. -/
theorem reaches_of_runChecked {step : σ → ℓ → Option σ} {ok : σ → ℓ → Prop}
    [∀ s l, Decidable (ok s l)] {s t u : σ} {labels : List ℓ} (before : Reaches step ok s t)
    (run : runSteps (fun s l => if ok s l then step s l else none) t labels = some u) :
    Reaches step ok s u := by
  induction labels generalizing t with
  | nil =>
      cases run
      exact before
  | cons l labels ih =>
      obtain ⟨t', moved, others⟩ := Option.bind_eq_some_iff.mp run
      have moved : (if ok t l then step t l else none) = some t' := moved
      by_cases met : ok t l
      · rw [if_pos met] at moved
        exact ih (.step before met moved) others
      · rw [if_neg met] at moved
        cases moved

end HybridDatabase.Base
