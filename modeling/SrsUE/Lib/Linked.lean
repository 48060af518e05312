import Mathlib.Logic.Function.Basic
import Mathlib.Tactic.Common

/-!
# `SrsUE.Lib.Linked`: lists that are linked through their nodes

Each node may have a successor. `LinkedFrom next head xs` says that following the successors from
`head` passes the nodes `xs`, and then there is none.

* `LinkedFrom.unique`, `LinkedFrom.nodup`: there is at most one such list, and no node occurs twice
  in it.
* `LinkedFrom.push`, `LinkedFrom.pop`: a node is put in front of the list, or taken from there.
* `LinkedFrom.congr`: the successors of other nodes do not matter.
-/

set_option autoImplicit false

namespace SrsUE.Lib

variable {α : Type}

/-- The nodes from `head` on. -/
def LinkedFrom (next : α → Option α) : Option α → List α → Prop
  | head, [] => head = none
  | head, x :: xs => head = some x ∧ LinkedFrom next (next x) xs

namespace LinkedFrom

variable {next next' : α → Option α} {head : Option α} {x : α} {xs ys : List α}

/-- The links decide the list. -/
theorem unique (hx : LinkedFrom next head xs) (hy : LinkedFrom next head ys) : xs = ys := by
  induction xs generalizing head ys with
  | nil =>
    cases ys with
    | nil => rfl
    | cons y ys => exact absurd (Eq.symm hx |>.trans hy.1) (by simp)
  | cons x xs ih =>
    cases ys with
    | nil => exact absurd (hx.1.symm.trans hy) (by simp)
    | cons y ys =>
      obtain rfl := Option.some.inj (hx.1.symm.trans hy.1)
      rw [ih hx.2 hy.2]

/-- The rest of a list is a list. -/
theorem drop (h : LinkedFrom next head (xs ++ x :: ys)) : LinkedFrom next (some x) (x :: ys) := by
  induction xs generalizing head with
  | nil => exact ⟨rfl, h.2⟩
  | cons y xs ih => exact ih h.2

/-- A node that occurred twice would be followed by two lists. -/
theorem nodup (h : LinkedFrom next head xs) : xs.Nodup := by
  induction xs generalizing head with
  | nil => exact List.nodup_nil
  | cons x xs ih =>
    refine List.nodup_cons.mpr ⟨fun hmem => ?_, ih h.2⟩
    obtain ⟨before, after, rfl⟩ := List.append_of_mem hmem
    have hfirst : LinkedFrom next (some x) (x :: (before ++ x :: after)) := ⟨rfl, h.2⟩
    have hsecond : LinkedFrom next (some x) (x :: after) :=
      (show LinkedFrom next (some x) ((x :: before) ++ x :: after) from hfirst).drop
    have hlen := congrArg List.length (hfirst.unique hsecond)
    simp only [List.length_cons, List.length_append] at hlen
    omega

/-- They matter only where the list goes. -/
theorem congr (h : LinkedFrom next head xs) (hnext : ∀ y ∈ xs, next' y = next y) :
    LinkedFrom next' head xs := by
  induction xs generalizing head with
  | nil => exact h
  | cons x xs ih =>
    obtain ⟨hx, hxs⟩ := List.forall_mem_cons.mp hnext
    refine ⟨h.1, ih ?_ hxs⟩
    rw [hx]
    exact h.2

/-- A node that is not in the list is put in front. -/
theorem push [DecidableEq α] (h : LinkedFrom next head xs) (hx : x ∉ xs) :
    LinkedFrom (Function.update next x head) (some x) (x :: xs) := by
  refine ⟨rfl, ?_⟩
  rw [Function.update_self]
  exact h.congr fun y hy => Function.update_of_ne (ne_of_mem_of_not_mem hy hx) _ _

/-- The first node is taken. -/
theorem pop (h : LinkedFrom next (some x) xs) : ∃ ys, xs = x :: ys ∧ LinkedFrom next
    (next x) ys := by
  cases xs with
  | nil => cases h
  | cons y ys =>
    obtain rfl := Option.some.inj h.1
    exact ⟨ys, rfl, h.2⟩

/-- Without a head there is no list. -/
theorem none_iff : LinkedFrom next none xs ↔ xs = [] := by
  cases xs with
  | nil => exact iff_of_true rfl rfl
  | cons x xs => exact iff_of_false (fun h => by cases h.1) (List.cons_ne_nil x xs)

end LinkedFrom

end SrsUE.Lib
