import Mathlib.Tactic.Common

/-!
# `SrsUE.Lib.Fifo`: reports in flight on a channel that keeps their order

A receiver reports its progress again and again, and the reports travel on a channel that may
lose them but keeps their order. Each report is about some point of the progress, which never
goes back: the reports in flight have marks that do not decrease, from what the sender knows
up to what the receiver has last computed.

`Marked R lo xs hi` says this of the reports `xs`, where `R x m` says that `x` is right about
the mark `m`. The operations of such a channel keep it: `Marked.snoc` sends, `Marked.eraseIdx`
loses, and taking the oldest report off the channel raises `lo` to its mark.
-/

set_option autoImplicit false

namespace SrsUE.Lib

variable {β : Type}

/-- The reports are right about marks that do not decrease between `lo` and `hi`. -/
def Marked (R : β → Nat → Prop) : Nat → List β → Nat → Prop
  | lo, [], hi => lo ≤ hi
  | lo, x :: xs, hi => ∃ m, lo ≤ m ∧ R x m ∧ Marked R m xs hi

namespace Marked

variable {R R' : β → Nat → Prop} {lo lo' hi hi' : Nat} {x : β} {xs : List β}

/-- A list between two marks has them in order. -/
theorem le (h : Marked R lo xs hi) : lo ≤ hi := by
  induction xs generalizing lo with
  | nil => exact h
  | cons x xs ih =>
    obtain ⟨m, hlo, -, hrest⟩ := h
    exact Nat.le_trans hlo (ih hrest)

/-- The bounds may be loosened, and what the reports are right about weakened. -/
theorem mono (h : Marked R lo xs hi) (hlo : lo' ≤ lo) (hhi : hi ≤ hi')
    (hR : ∀ x m, R x m → R' x m) : Marked R' lo' xs hi' := by
  induction xs generalizing lo lo' with
  | nil => exact Nat.le_trans hlo (Nat.le_trans h hhi)
  | cons x xs ih =>
    obtain ⟨m, hm, hx, hrest⟩ := h
    exact ⟨m, Nat.le_trans hlo hm, hR x m hx, ih hrest (Nat.le_refl m)⟩

/-- A report about the latest mark is sent. -/
theorem snoc (h : Marked R lo xs hi) (hx : R x hi) : Marked R lo (xs ++ [x]) hi := by
  induction xs generalizing lo with
  | nil => exact ⟨hi, h, hx, Nat.le_refl hi⟩
  | cons y ys ih =>
    obtain ⟨m, hm, hy, hrest⟩ := h
    exact ⟨m, hm, hy, ih hrest⟩

/-- A report is lost. -/
theorem eraseIdx (h : Marked R lo xs hi) (k : Nat) : Marked R lo (xs.eraseIdx k) hi := by
  induction xs generalizing lo k with
  | nil => exact h
  | cons x xs ih =>
    obtain ⟨m, hm, hx, hrest⟩ := h
    cases k with
    | zero => exact hrest.mono hm (Nat.le_refl hi) fun _ _ => id
    | succ k => exact ⟨m, hm, hx, ih hrest k⟩

end Marked

end SrsUE.Lib
