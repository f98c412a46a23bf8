import Mathlib.Logic.Relation
import Mathlib.Order.WellFounded

/-!
# Steps that lead down

The states of a system have a rank, and no rank has infinitely many others below it one
after the other.  So what can always be taken further down ends (`reaches`), and what
never goes up comes to rest (`settles`).
-/

namespace Descent

variable {σ μ : Type} {lower : μ → μ → Prop} {rank : σ → μ}

/-- If wherever the goal is not reached some step leads down, then it is reached. -/
theorem reaches {step : σ → σ → Prop} {I goal : σ → Prop} (hwf : WellFounded lower)
    (hnext : ∀ s, I s → goal s ∨ ∃ s', step s s' ∧ lower (rank s') (rank s) ∧ I s') {s : σ}
    (hs : I s) : ∃ s', Relation.ReflTransGen step s s' ∧ goal s' := by
  induction hm : rank s using hwf.induction generalizing s with
  | _ m ih =>
    subst hm
    rcases hnext s hs with hgoal | ⟨s', hstep, hlower, hs'⟩
    · exact ⟨s, .refl, hgoal⟩
    · obtain ⟨s'', hrun, hgoal⟩ := ih _ hlower hs' rfl
      exact ⟨s'', .head hstep hrun, hgoal⟩

/-- A run without an end comes to where no step leads down any more. -/
theorem settles {f : Nat → σ} {idle : Nat → Prop} (hwf : WellFounded lower)
    (hstep : ∀ i, idle i ∧ rank (f (i + 1)) = rank (f i) ∨ lower (rank (f (i + 1))) (rank (f i))) :
    ∃ n, ∀ i, n ≤ i → idle i := by
  have hfrom : ∀ m n, rank (f n) = m → ∃ k, ∀ i, k ≤ i → idle i := by
    intro m
    induction m using hwf.induction with
    | _ m ih =>
      intro n hm
      by_cases hall : ∀ k, rank (f k) = m → rank (f (k + 1)) = m
      · have hrank : ∀ i, n ≤ i → rank (f i) = m := by
          intro i hi
          induction i, hi using Nat.le_induction with
          | base => exact hm
          | succ i _ ihi => exact hall i ihi
        refine ⟨n, fun i hi => ?_⟩
        rcases hstep i with ⟨hidle, -⟩ | hlower
        · exact hidle
        · rw [hrank i hi, hall i (hrank i hi)] at hlower
          exact absurd hlower (hwf.irrefl.irrefl m)
      · obtain ⟨k, hk⟩ := not_forall.mp hall
        obtain ⟨hk, hne⟩ := Classical.not_imp.mp hk
        rcases hstep k with ⟨-, heq⟩ | hlower
        · exact absurd (heq.trans hk) hne
        · rw [hk] at hlower
          exact ih _ hlower (k + 1) rfl
  exact hfrom _ 0 rfl

end Descent
