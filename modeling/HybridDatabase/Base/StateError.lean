/-
# Stateful computations that can fail

Small rules for `EStateM`: how a sequence runs when its first part succeeds or
fails, how a state embedded in a larger one is acted on, and what it means that a
property of the state survives a computation whether it succeeds or not.
-/

import Mathlib.Logic.Basic

namespace HybridDatabase.Base

universe u

variable {ε σ τ α β : Type u} {ι γ : Type*}

/-! ## Sequencing -/

theorem bind_ok {x : EStateM ε σ α} {f : α → EStateM ε σ β} {s s' : σ} {a : α}
    (h : x s = .ok a s') : (x >>= f) s = f a s' := by
  show EStateM.bind x f s = _
  simp only [EStateM.bind, h]

theorem bind_error {x : EStateM ε σ α} {f : α → EStateM ε σ β} {s s' : σ} {e : ε}
    (h : x s = .error e s') : (x >>= f) s = .error e s' := by
  show EStateM.bind x f s = _
  simp only [EStateM.bind, h]

/-- A sequence succeeds exactly when both parts do. -/
theorem bind_eq_ok {x : EStateM ε σ α} {f : α → EStateM ε σ β} {s s' : σ} {b : β} :
    (x >>= f) s = .ok b s' ↔ ∃ a t, x s = .ok a t ∧ f a t = .ok b s' := by
  cases h : x s with
  | ok a t =>
      rw [bind_ok h]
      constructor
      · intro second
        exact ⟨a, t, rfl, second⟩
      · rintro ⟨a', t', first, second⟩
        cases first
        exact second
  | error e t => simp [bind_error h]

/-- The same without a state. -/
theorem exceptBind_eq_ok {x : Except ε α} {f : α → Except ε β} {b : β} :
    (x >>= f) = .ok b ↔ ∃ a, x = .ok a ∧ f a = .ok b := by
  cases x with
  | ok a =>
      constructor
      · intro second
        exact ⟨a, rfl, second⟩
      · rintro ⟨a', first, second⟩
        cases first
        exact second
  | error e =>
      constructor
      · intro second
        cases second
      · rintro ⟨a', first, -⟩
        cases first

@[simp]
theorem pure_run (a : α) (s : σ) : (pure a : EStateM ε σ α) s = .ok a s := rfl

@[simp]
theorem throw_run (e : ε) (s : σ) : (throw e : EStateM ε σ α) s = .error e s := rfl

@[simp]
theorem get_run (s : σ) : (get : EStateM ε σ σ) s = .ok s s := rfl

@[simp]
theorem set_run (s t : σ) : (set t : EStateM ε σ PUnit) s = .ok ⟨⟩ t := rfl

@[simp]
theorem modify_run (f : σ → σ) (s : σ) : (modify f : EStateM ε σ PUnit) s = .ok ⟨⟩ (f s) := rfl

/-! ## Acting on a part of the state -/

/-- Run `x` on the part of the state that `get` reads and `put` writes. -/
def onPart (get : τ → σ) (put : σ → τ → τ) (x : EStateM ε σ α) : EStateM ε τ α := fun t =>
  match x (get t) with
  | .ok a s => .ok a (put s t)
  | .error e s => .error e (put s t)

theorem onPart_ok {get : τ → σ} {put : σ → τ → τ} {x : EStateM ε σ α} {t : τ} {a : α} {s : σ}
    (h : x (get t) = .ok a s) : onPart get put x t = .ok a (put s t) := by
  simp only [onPart, h]

theorem onPart_error {get : τ → σ} {put : σ → τ → τ} {x : EStateM ε σ α} {t : τ} {e : ε} {s : σ}
    (h : x (get t) = .error e s) : onPart get put x t = .error e (put s t) := by
  simp only [onPart, h]

/-! ## Postconditions for success and for failure -/

/-- A run ended well with `Q` or failed with `E`. -/
def Post (Q : α → σ → Prop) (E : ε → σ → Prop) : EStateM.Result ε σ α → Prop
  | .ok a s => Q a s
  | .error e s => E e s

@[simp]
theorem post_ok {Q : α → σ → Prop} {E : ε → σ → Prop} {a : α} {s : σ} :
    Post Q E (.ok a s) ↔ Q a s := Iff.rfl

@[simp]
theorem post_error {Q : α → σ → Prop} {E : ε → σ → Prop} {e : ε} {s : σ} :
    Post Q E (.error e s : EStateM.Result ε σ α) ↔ E e s := Iff.rfl

theorem Post.bind {Q : α → σ → Prop} {S : β → σ → Prop} {E : ε → σ → Prop}
    {x : EStateM ε σ α} {f : α → EStateM ε σ β} {s : σ} (first : Post Q E (x s))
    (second : ∀ a t, x s = .ok a t → Q a t → Post S E (f a t)) : Post S E ((x >>= f) s) := by
  cases run : x s with
  | ok a t =>
      rw [run] at first
      rw [bind_ok run]
      exact second a t run first
  | error e t =>
      rw [run] at first
      rw [bind_error run]
      exact first

/-- From a state with `P` the computation succeeds with `Q` or fails with `E`. -/
def Triple (P : σ → Prop) (x : EStateM ε σ α) (Q : α → σ → Prop) (E : ε → σ → Prop) : Prop :=
  ∀ s, P s → Post Q E (x s)

theorem Triple.bind {P : σ → Prop} {Q : α → σ → Prop} {S : β → σ → Prop} {E : ε → σ → Prop}
    {x : EStateM ε σ α} {f : α → EStateM ε σ β} (first : Triple P x Q E)
    (second : ∀ a, Triple (Q a) (f a) S E) : Triple P (x >>= f) S E :=
  fun s hs => (first s hs).bind fun a t _ => second a t

/-! ## Invariants -/

/-- The computation keeps `P`, whether it succeeds or not. -/
def Preserves (P : σ → Prop) (x : EStateM ε σ α) : Prop := Triple P x (fun _ => P) fun _ => P

namespace Preserves

variable {P : σ → Prop} {x : EStateM ε σ α} {f : α → EStateM ε σ β}

theorem pure (a : α) : Preserves P (Pure.pure a : EStateM ε σ α) := fun _ h => h

theorem throw (e : ε) : Preserves P (MonadExcept.throw e : EStateM ε σ α) := fun _ h => h

theorem bind (hx : Preserves P x) (hf : ∀ a, Preserves P (f a)) : Preserves P (x >>= f) :=
  Triple.bind hx hf

theorem get {g : σ → EStateM ε σ β} (h : ∀ s, Preserves P (g s)) :
    Preserves P (MonadState.get >>= g) := by
  intro s hs
  rw [bind_ok (get_run s)]
  exact h s s hs

theorem modify {g : σ → σ} (h : ∀ s, P s → P (g s)) :
    Preserves P (modify g : EStateM ε σ PUnit) := h

theorem ite {c : Prop} [Decidable c] {y : EStateM ε σ α} (hx : Preserves P x)
    (hy : Preserves P y) : Preserves P (if c then x else y) := by
  split
  · exact hx
  · exact hy

/-- A computation on a part of the state that does not matter. -/
theorem onPart {get : τ → σ} {put : σ → τ → τ} {Q : τ → Prop} (h : ∀ s t, Q t → Q (put s t))
    (x : EStateM ε σ α) : Preserves Q (Base.onPart get put x) := by
  intro t ht
  unfold Base.onPart
  cases x (get t) with
  | ok a s => exact h s t ht
  | error e s => exact h s t ht

end Preserves

/-! ## Changes of the state that a computation does not notice -/

/-- The same outcome in a changed state. -/
def mapState (f : σ → σ) : EStateM.Result ε σ α → EStateM.Result ε σ α
  | .ok a s => .ok a (f s)
  | .error e s => .error e (f s)

/-- The computation neither looks at nor touches what `f` changes. -/
def Commutes (f : σ → σ) (x : EStateM ε σ α) : Prop := ∀ s, x (f s) = mapState f (x s)

namespace Commutes

variable {f : σ → σ} {x : EStateM ε σ α} {g : α → EStateM ε σ β}

theorem pure (a : α) : Commutes f (Pure.pure a : EStateM ε σ α) := fun _ => rfl

theorem throw (e : ε) : Commutes f (MonadExcept.throw e : EStateM ε σ α) := fun _ => rfl

theorem bind (hx : Commutes f x) (hg : ∀ a, Commutes f (g a)) : Commutes f (x >>= g) := by
  intro s
  have first := hx s
  cases run : x s with
  | ok a t =>
      rw [run] at first
      rw [bind_ok run, bind_ok first]
      exact hg a t
  | error e t =>
      rw [run] at first
      rw [bind_error run, bind_error first]
      rfl

/-- Looking at the state, where what is done with it does not depend on the change. -/
theorem get {g : σ → EStateM ε σ β} (same : ∀ s, g (f s) = g s) (h : ∀ s, Commutes f (g s)) :
    Commutes f (MonadState.get >>= g) := by
  intro s
  rw [bind_ok (get_run (f s)), bind_ok (get_run s), same]
  exact h s s

theorem modify {g : σ → σ} (same : ∀ s, g (f s) = f (g s)) :
    Commutes f (modify g : EStateM ε σ PUnit) := by
  intro s
  rw [modify_run, modify_run, same]
  rfl

theorem onPart {get : τ → σ} {put : σ → τ → τ} {F : τ → τ} (h : Commutes f x)
    (hget : ∀ t, get (F t) = f (get t)) (hput : ∀ s t, put (f s) (F t) = F (put s t)) :
    Commutes F (Base.onPart get put x) := by
  intro t
  have inner := h (get t)
  rw [← hget] at inner
  unfold Base.onPart
  rw [inner]
  cases x (get t) with
  | ok a s => simp only [mapState, hput]
  | error e s => simp only [mapState, hput]

end Commutes

/-- The computation leaves `g` of the state as it is, whether it succeeds or not. -/
def Keeps (g : σ → γ) (x : EStateM ε σ α) : Prop :=
  ∀ s, Post (fun _ t => g t = g s) (fun _ t => g t = g s) (x s)

/-- The computation neither looks at nor touches what the changes `f i` change, and it
leaves `g` of the state as it is. -/
structure Blind (f : ι → σ → σ) (g : σ → γ) (x : EStateM ε σ α) : Prop where
  commutes : ∀ i, Commutes (f i) x
  keeps : Keeps g x

namespace Blind

variable {f : ι → σ → σ} {g : σ → γ} {x : EStateM ε σ α} {h : α → EStateM ε σ β}

theorem pure (a : α) : Blind f g (Pure.pure a : EStateM ε σ α) :=
  ⟨fun _ => Commutes.pure a, fun _ => rfl⟩

theorem throw (e : ε) : Blind f g (MonadExcept.throw e : EStateM ε σ α) :=
  ⟨fun _ => Commutes.throw e, fun _ => rfl⟩

theorem bind (hx : Blind f g x) (hh : ∀ a, Blind f g (h a)) : Blind f g (x >>= h) := by
  refine ⟨fun i => (hx.commutes i).bind fun a => (hh a).commutes i, fun s => ?_⟩
  have first := hx.keeps s
  cases run : x s with
  | ok a t =>
      rw [run] at first
      have second := (hh a).keeps t
      rw [show g t = g s from first] at second
      rw [bind_ok run]
      exact second
  | error e t =>
      rw [run] at first
      rw [bind_error run]
      exact first

theorem get {h : σ → EStateM ε σ β} (same : ∀ i s, h (f i s) = h s)
    (blind : ∀ s, Blind f g (h s)) : Blind f g (MonadState.get >>= h) := by
  refine ⟨fun i => Commutes.get (same i) fun s => (blind s).commutes i, fun s => ?_⟩
  rw [bind_ok (get_run s)]
  exact (blind s).keeps s

theorem modify {h : σ → σ} (same : ∀ i s, h (f i s) = f i (h s)) (kept : ∀ s, g (h s) = g s) :
    Blind f g (modify h : EStateM ε σ PUnit) :=
  ⟨fun i => Commutes.modify (same i), kept⟩

theorem ite {c : Prop} [Decidable c] {y : EStateM ε σ α} (hx : Blind f g x) (hy : Blind f g y) :
    Blind f g (if c then x else y) := by
  split
  · exact hx
  · exact hy

theorem onPart {get : τ → σ} {put : σ → τ → τ} {F : ι → τ → τ} {G : τ → γ} (hx : Blind f g x)
    (hget : ∀ i t, get (F i t) = f i (get t)) (hput : ∀ i s t, put (f i s) (F i t) = F i (put s t))
    (kept : ∀ s t, g s = g (get t) → G (put s t) = G t) : Blind F G (Base.onPart get put x) := by
  refine ⟨fun i => (hx.commutes i).onPart (hget i) (hput i), fun t => ?_⟩
  have inner := hx.keeps (get t)
  unfold Base.onPart
  cases run : x (get t) with
  | ok a s =>
      rw [run] at inner
      exact kept s t inner
  | error e s =>
      rw [run] at inner
      exact kept s t inner

end Blind

/-! ## Changes of the state that a computation that succeeds does not notice -/

/-- Where the computation succeeds, it does so in the changed state too, and it leaves `g`
of the state as it is. -/
def Survives (f : σ → σ) (g : σ → γ) (x : EStateM ε σ α) : Prop :=
  ∀ s a t, x s = .ok a t → x (f s) = .ok a (f t) ∧ g t = g s

namespace Survives

variable {f : σ → σ} {g : σ → γ} {x : EStateM ε σ α} {h : α → EStateM ε σ β}

theorem of_blind {F : ι → σ → σ} {i : ι} (blind : Blind F g x) : Survives (F i) g x := by
  intro s a t run
  have kept := blind.keeps s
  rw [run] at kept
  refine ⟨?_, kept⟩
  rw [blind.commutes i s, run]
  rfl

theorem bind (hx : Survives f g x) (hh : ∀ a, Survives f g (h a)) : Survives f g (x >>= h) := by
  intro s b t run
  obtain ⟨a, u, first, second⟩ := bind_eq_ok.mp run
  obtain ⟨first', kept⟩ := hx s a u first
  obtain ⟨second', kept'⟩ := hh a u b t second
  exact ⟨by rw [bind_ok first', second'], kept'.trans kept⟩

/-- Looking at the state, where what is done with it does not depend on the change. -/
theorem get {h : σ → EStateM ε σ β} (same : ∀ s, h (f s) = h s)
    (survives : ∀ s, Survives f g (h s)) : Survives f g (MonadState.get >>= h) := by
  intro s b t run
  rw [bind_ok (get_run s)] at run
  rw [bind_ok (get_run (f s)), same]
  exact survives s s b t run

theorem onPart {get : τ → σ} {put : σ → τ → τ} {F : τ → τ} {G : τ → γ} (hx : Survives f g x)
    (hget : ∀ t, get (F t) = f (get t)) (hput : ∀ s t, put (f s) (F t) = F (put s t))
    (kept : ∀ s t, g s = g (get t) → G (put s t) = G t) :
    Survives F G (Base.onPart get put x) := by
  intro t a u run
  cases inner : x (get t) with
  | ok b s =>
      rw [onPart_ok inner] at run
      cases run
      obtain ⟨moved, same⟩ := hx _ _ _ inner
      rw [← hget] at moved
      exact ⟨by rw [onPart_ok moved, hput], kept s t same⟩
  | error e s =>
      rw [onPart_error inner] at run
      cases run

end Survives

end HybridDatabase.Base
