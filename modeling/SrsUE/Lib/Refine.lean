import Mathlib.Tactic.Common

/-!
# `SrsUE.Lib.Refine`: refinement under a protocol

A machine gives an output with each step, and a specification says for a state and an action which
outputs and states may follow. The specification may leave a choice. It also says which actions are
allowed, and promises nothing from the first one on that is not.

* `Refines`: along the actions, each step is defined and the specification has a step with the same
  output.
* `Refines.of_sim`: a simulation gives this for all actions.
* `Refines.defined`: what it says of an action that is always allowed.
-/

set_option autoImplicit false

namespace SrsUE.Lib

variable {σ τ α ο : Type}

/-- From `s` the machine does along the actions what the specification does from `t`, as long as the
actions are allowed there. -/
def Refines (emit : σ → α → Option (σ × ο)) (spec : τ → α → τ → ο → Prop) (allowed : τ → α → Prop) :
    σ → τ → List α → Prop
  | _, _, [] => True
  | s, t, a :: as =>
    allowed t a → ∃ s' o t', emit s a = some (s', o) ∧ spec t a t' o ∧
      Refines emit spec allowed s' t' as

variable {emit : σ → α → Option (σ × ο)} {spec : τ → α → τ → ο → Prop} {allowed : τ → α → Prop}

/-- A relation that every allowed action keeps, with the same output on both sides. -/
theorem Refines.of_sim {R : σ → τ → Prop}
    (hsim : ∀ s t a, R s t → allowed t a →
      ∃ s' o t', emit s a = some (s', o) ∧ spec t a t' o ∧ R s' t')
    (as : List α) {s : σ} {t : τ} (hst : R s t) : Refines emit spec allowed s t as := by
  induction as generalizing s t with
  | nil => trivial
  | cons a as ih =>
    intro ha
    obtain ⟨s', o, t', hstep, hspec, hst'⟩ := hsim s t a hst ha
    exact ⟨s', o, t', hstep, hspec, ih hst'⟩

/-- An action that is always allowed is defined after any number of times. `I` says what is known of
the machine when so many are left. -/
theorem Refines.defined {a : α} {I : Nat → σ → Prop} (hallowed : ∀ t, allowed t a)
    (hinv : ∀ n s s' o, I (n + 1) s → emit s a = some (s', o) → I n s') (n : Nat) {s : σ} {t : τ}
    (hs : I n s) (h : Refines emit spec allowed s t (List.replicate (n + 1) a)) :
    ∃ s', I 0 s' ∧ ∃ x, emit s' a = some x := by
  induction n generalizing s t with
  | zero =>
    obtain ⟨s', o, t', hstep, -⟩ := h (hallowed t)
    exact ⟨s, hs, _, hstep⟩
  | succ n ih =>
    obtain ⟨s', o, t', hstep, -, hrest⟩ := h (hallowed t)
    exact ih (hinv n s s' o hs hstep) hrest

end SrsUE.Lib
