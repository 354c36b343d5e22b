/-
# Forward simulation

One system simulates another when every step of the first is matched by a run of the second, which
may be longer or empty, and the states stay related.  Then every run of the first is matched, and
what holds of all states that the second reaches holds of the related ones.
-/

import HybridDatabase.Base.Runs

namespace HybridDatabase.Base

universe u v u' v'

variable {σ : Type u} {ℓ : Type v} {σ' : Type u'} {ℓ' : Type v'}

namespace Reaches

variable {step : σ → ℓ → Option σ} {ok : σ → ℓ → Prop} {step' : σ' → ℓ' → Option σ'}
  {ok' : σ' → ℓ' → Prop} {s t u : σ}

/-- One run after another. -/
theorem trans (first : Reaches step ok s t) (second : Reaches step ok t u) :
    Reaches step ok s u := by
  induction second with
  | start => exact first
  | step _ met moved ih => exact ih.step met moved

/-- A step as a run. -/
theorem single {l : ℓ} (met : ok s l) (moved : step s l = some t) : Reaches step ok s t :=
  .step .start met moved

/-- A run is matched where every step is. -/
theorem simulated {related : σ → σ' → Prop} {s' : σ'} (run : Reaches step ok s t)
    (start : related s s')
    (matched : ∀ t t' l u, Reaches step' ok' s' t' → related t t' → ok t l → step t l = some u →
      ∃ u', Reaches step' ok' t' u' ∧ related u u') :
    ∃ t', Reaches step' ok' s' t' ∧ related t t' := by
  induction run with
  | start => exact ⟨s', .start, start⟩
  | step _ met moved ih =>
      obtain ⟨t', reached, same⟩ := ih
      obtain ⟨u', further, same⟩ := matched _ t' _ _ reached same met moved
      exact ⟨u', reached.trans further, same⟩

end Reaches

end HybridDatabase.Base
