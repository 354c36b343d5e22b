/-
# Computations that keep a log

A computation can be run with a log beside its state.  `Logs` compares the two: without
its log the logged computation does what the other one does, and all that it writes into
the log has a property.
-/

import HybridDatabase.Base.StateError

namespace HybridDatabase.Base

universe u

variable {ε σ α β ι : Type u}

/-- A state with a log, the last entry first. -/
structure Logged (σ ι : Type u) where
  state : σ
  log : List ι

/-- Computations on a state with a log. -/
abbrev LoggedM (ε σ ι : Type u) := EStateM ε (Logged σ ι)

/-- A computation that writes nothing into the log. -/
def quiet (x : EStateM ε σ α) : LoggedM ε σ ι α :=
  onPart Logged.state (fun state t => { t with state := state }) x

/-- Write an entry into the log. -/
def note (entry : ι) : LoggedM ε σ ι PUnit := modify fun t => { t with log := entry :: t.log }

/-- The outcome without the log. -/
def unlogged : EStateM.Result ε (Logged σ ι) α → EStateM.Result ε σ α
  | .ok a t => .ok a t.state
  | .error e t => .error e t.state

/-- The log at the end of a run. -/
def logOf : EStateM.Result ε (Logged σ ι) α → List ι
  | .ok _ t => t.log
  | .error _ t => t.log

/-- Where `same` holds, `x` does what `y` does, and it writes only entries with `P`. -/
structure Logs (same : Prop) (P : ι → Prop) (x : LoggedM ε σ ι α) (y : EStateM ε σ α) : Prop where
  erases : same → ∀ t, y t.state = unlogged (x t)
  entries : Preserves (fun t => ∀ entry ∈ t.log, P entry) x

namespace Logs

variable {same : Prop} {P : ι → Prop} {x x' : LoggedM ε σ ι α} {y y' : EStateM ε σ α}

theorem pure (a : α) :
    Logs same P (Pure.pure a : LoggedM ε σ ι α) (Pure.pure a : EStateM ε σ α) :=
  ⟨fun _ _ => rfl, Preserves.pure a⟩

theorem throw (e : ε) : Logs same P (MonadExcept.throw e : LoggedM ε σ ι α)
    (MonadExcept.throw e : EStateM ε σ α) :=
  ⟨fun _ _ => rfl, Preserves.throw e⟩

theorem bind {f : α → LoggedM ε σ ι β} {g : α → EStateM ε σ β} (first : Logs same P x y)
    (second : ∀ a, Logs same P (f a) (g a)) : Logs same P (x >>= f) (y >>= g) := by
  refine ⟨fun holds t => ?_, first.entries.bind fun a => (second a).entries⟩
  have erased := first.erases holds t
  cases run : x t with
  | ok a u =>
      rw [run] at erased
      rw [bind_ok run, bind_ok erased]
      exact (second a).erases holds u
  | error e u =>
      rw [run] at erased
      rw [bind_error run, bind_error erased]
      rfl

theorem quiet (y : EStateM ε σ α) : Logs same P (Base.quiet y) y := by
  constructor
  · intro _ t
    unfold Base.quiet onPart
    cases y t.state with
    | ok a s => rfl
    | error e s => rfl
  · intro t honest
    unfold Base.quiet onPart
    cases y t.state with
    | ok a s => exact honest
    | error e s => exact honest

/-- The logged computation looks at the state as the other one does. -/
theorem get {f : σ → LoggedM ε σ ι α} {g : σ → EStateM ε σ α}
    (each : ∀ s, Logs same P (f s) (g s)) :
    Logs same P (Base.quiet MonadState.get >>= f) (MonadState.get >>= g) :=
  (quiet _).bind each

/-- An entry before a computation. -/
theorem note {entry : ι} {f : PUnit → LoggedM ε σ ι α} (holds : P entry)
    (rest : Logs same P (f ⟨⟩) y) : Logs same P (Base.note entry >>= f) y := by
  refine ⟨fun holds t => rest.erases holds { t with log := entry :: t.log }, ?_⟩
  refine Preserves.bind (Preserves.modify fun t honest => ?_) fun _ => rest.entries
  intro e among
  obtain rfl | among := List.mem_cons.mp among
  · exact holds
  · exact honest e among

theorem ite {c : Prop} [Decidable c] (first : c → Logs same P x y)
    (second : ¬c → Logs same P x' y') :
    Logs same P (if c then x else x') (if c then y else y') := by
  split
  · rename_i holds
    exact first holds
  · rename_i fails
    exact second fails

/-- What the log of a run holds. -/
theorem logOf (h : Logs same P x y) (s : σ) : ∀ entry ∈ Base.logOf (x ⟨s, []⟩), P entry := by
  have honest := h.entries ⟨s, []⟩ fun _ among => (nomatch among)
  cases run : x ⟨s, []⟩ with
  | ok a t =>
      rw [run] at honest
      exact honest
  | error e t =>
      rw [run] at honest
      exact honest

end Logs

end HybridDatabase.Base
