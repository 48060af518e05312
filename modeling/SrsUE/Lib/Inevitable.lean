import Mathlib.Tactic.Common

/-!
# `SrsUE.Lib.Inevitable`: what every run comes to

A machine takes steps as long as there are any, in whatever order. A goal is inevitable from a state
when each way to go on reaches it. No fairness is assumed: a run that can go on for ever beside the
goal, or that stops before it, is a reason against.

* `Inevitable.of_measure`: a measure that falls with every step, and a step in every state outside
  the goal.
* `not_inevitable`: states outside the goal that no step leaves.
* `Inevitable.after`: the goal stays inevitable.
-/

set_option autoImplicit false

namespace SrsUE.Lib

variable {σ α : Type} {step : σ → α → Option σ} {K : α → Prop} {Goal I : σ → Prop} {s s' : σ}
  {a : α}

/-- Every run of actions of a kind reaches the goal. A state outside it has such a step, and from
wherever such a step leads the goal is inevitable too. -/
inductive Inevitable (step : σ → α → Option σ) (K : α → Prop) (Goal : σ → Prop) : σ → Prop where
  | here {s : σ} (hgoal : Goal s) : Inevitable step K Goal s
  | next {s : σ} {a : α} {s₁ : σ} (ha : K a) (hstep : step s a = some s₁)
      (hall : ∀ b s', K b → step s b = some s' → Inevitable step K Goal s') :
        Inevitable step K Goal s

/-- Outside the goal there is a step, and every step keeps the invariant and lowers the measure. -/
theorem Inevitable.of_measure (μ : σ → Nat)
    (hprogress : ∀ s, I s → ¬Goal s → ∃ a s', K a ∧ step s a = some s')
    (hinv : ∀ s a s', I s → ¬Goal s → K a → step s a = some s' → I s' ∧ μ s' < μ s) (hs : I s) :
    Inevitable step K Goal s := by
  induction hn : μ s using Nat.strongRecOn generalizing s with
  | _ n ih =>
    by_cases hgoal : Goal s
    · exact .here hgoal
    · obtain ⟨a, s₁, ha, hstep⟩ := hprogress s hs hgoal
      refine .next ha hstep fun b s' hb hs' => ?_
      obtain ⟨hi, hlt⟩ := hinv s b s' hs hgoal hb hs'
      exact ih (μ s') (hn ▸ hlt) hi rfl

/-- Each step from a state outside the goal leads where the goal is inevitable. -/
theorem Inevitable.after (h : Inevitable step K Goal s) (hgoal : ¬Goal s) (ha : K a)
    (hstep : step s a = some s') : Inevitable step K Goal s' := by
  cases h with
  | here hg => exact absurd hg hgoal
  | next _ _ hall => exact hall a s' ha hstep

/-- The goal is not inevitable from states outside it that no step leaves. -/
theorem not_inevitable (havoid : ∀ s, I s → ¬Goal s)
    (hinv : ∀ s a s', I s → K a → step s a = some s' → I s') (hs : I s) :
    ¬Inevitable step K Goal s := by
  intro h
  induction h with
  | here hgoal => exact havoid _ hs hgoal
  | next ha hstep _ ih => exact ih _ _ ha hstep (hinv _ _ _ hs ha hstep)

end SrsUE.Lib
