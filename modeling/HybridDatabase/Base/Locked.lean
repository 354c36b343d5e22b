/-
# Places under locks

Parties share a state of places and lock the places they change.  Each keeps a log of
items that undo its changes, and no item touches a place whose lock the party does not
hold.

`settled` is the state that is left when every party has undone some of its items, all
at once.  A place is undone by the party that holds its lock only, so the places of the
others do not matter.
-/

import Mathlib.Logic.Function.Basic
import HybridDatabase.Base.UndoLog

namespace HybridDatabase.Base

universe u v w x

variable {κ : Type u} {α : Type v} {ι : Type w} {η : Type x}

/-! ## Undoing at one place -/

/-- What an item leaves at a place depends only on what is there. -/
def Pointwise (undo : (κ → α) → ι → κ → α) : Prop :=
  ∀ s s' item k, s k = s' k → undo s item k = undo s' item k

/-- The item leaves the place as it is. -/
def Spares (undo : (κ → α) → ι → κ → α) (item : ι) (k : κ) : Prop := ∀ s, undo s item k = s k

variable {undo : (κ → α) → ι → κ → α} {s s' : κ → α} {items : List ι} {k : κ}

theorem rollback_cons (item : ι) (items : List ι) :
    rollback undo s (item :: items) = undo (rollback undo s items) item := rfl

theorem Pointwise.rollback (pointwise : Pointwise undo) (same : s k = s' k) (items : List ι) :
    Base.rollback undo s items k = Base.rollback undo s' items k := by
  induction items with
  | nil => exact same
  | cons item items ih => exact pointwise _ _ item k ih

theorem rollback_of_spares (spared : ∀ item ∈ items, Spares undo item k) :
    rollback undo s items k = s k := by
  induction items with
  | nil => rfl
  | cons item items ih =>
      rw [rollback_cons, spared item List.mem_cons_self,
        ih fun other inside => spared other (List.mem_cons_of_mem item inside)]

/-! ## Undoing by the holders of the locks -/

/-- Every place is rolled back by the party that holds its lock. -/
def settled (undo : (κ → α) → ι → κ → α) (owner : κ → Option η) (items : η → List ι) (s : κ → α) :
    κ → α :=
  fun k => (owner k).elim (s k) fun party => rollback undo s (items party) k

variable {owner owner' : κ → Option η} {left left' : η → List ι} {party : η}

theorem settled_free (free : owner k = none) : settled undo owner left s k = s k := by
  rw [settled, free, Option.elim_none]

theorem settled_held (held : owner k = some party) :
    settled undo owner left s k = rollback undo s (left party) k := by
  rw [settled, held, Option.elim_some]

/-- A party with nothing to undo. -/
theorem settled_clean (held : owner k = some party) (nothing : left party = []) :
    settled undo owner left s k = s k := by
  rw [settled_held held, nothing, rollback_nil]

/-- A place whose holder, value and items are the same. -/
theorem settled_congr (pointwise : Pointwise undo) (same : s k = s' k) (held : owner k = owner' k)
    (items : ∀ party, owner k = some party → left party = left' party) :
    settled undo owner left s k = settled undo owner' left' s' k := by
  cases holder : owner k with
  | none => rw [settled_free holder, settled_free (held.symm.trans holder), same]
  | some party =>
      rw [settled_held holder, settled_held (held.symm.trans holder), items party holder]
      exact pointwise.rollback same _

end HybridDatabase.Base
