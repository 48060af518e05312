import Mathlib.Algebra.Order.Ring.Nat
import Mathlib.Data.List.Basic
import Mathlib.Order.Monotone.Basic

/-!
# `SrsUE.Lib.Packing`: filling a packet from messages

Messages are put into a packet of a given size one after the other, the last one perhaps in part.
The header in front of them grows with every message but the first: `head m` is its length when `m`
messages precede the last one. `packed` is the number of units of the messages that get in.

`lt_packed_iff` says when these are more than a buffer for them holds. That depends on the messages
that lie whole in the first units, which `wholeWithin` counts.
-/

set_option autoImplicit false

namespace SrsUE.Lib

variable {α : Type}

/-- The units in a packet of size `n`, which has `used` of them from `m` messages. -/
def packed (head : Nat → Nat) (n : Nat) : Nat → Nat → List (List α) → Nat
  | _, used, [] => used
  | m, used, msg :: msgs =>
    if n ≤ used + head m then used
    else if used + msg.length + head m ≤ n then packed head n (m + 1) (used + msg.length) msgs
    else n - head m

/-- The number of messages that lie whole in the first `room` units. -/
def wholeWithin : Nat → List (List α) → Nat
  | _, [] => 0
  | room, msg :: msgs =>
    if msg.length ≤ room then wholeWithin (room - msg.length) msgs + 1 else 0

/-- What is packed is no less than what was there. -/
theorem le_packed (head : Nat → Nat) (n m used : Nat) (msgs : List (List α)) :
    used ≤ packed head n m used msgs := by
  induction msgs generalizing m used with
  | nil => exact Nat.le_refl used
  | cons msg msgs ih =>
    have hnext := ih (m + 1) (used + msg.length)
    rw [packed]
    split_ifs
    · exact Nat.le_refl used
    · omega
    · omega

/-- A full packet takes nothing more. -/
theorem packed_of_full {head : Nat → Nat} {n m used : Nat} (h : n ≤ used + head m)
    (msgs : List (List α)) : packed head n m used msgs = used := by
  cases msgs with
  | nil => rfl
  | cons msg msgs => rw [packed, if_pos h]

/-- The messages at the front get in whole when the last of them fits. -/
theorem packed_append {head : Nat → Nat} (hmono : Monotone head) {n : Nat}
    (msgs rest : List (List α))
    {m used : Nat} (hne : ∀ msg ∈ msgs, msg ≠ [])
    (hfit : used + msgs.flatten.length + head (m + msgs.length - 1) ≤ n) :
    packed head n m used (msgs ++ rest)
      = packed head n (m + msgs.length) (used + msgs.flatten.length) rest := by
  induction msgs generalizing m used with
  | nil => rfl
  | cons msg msgs ih =>
    have hpos := List.length_pos_iff.mpr (hne msg (List.mem_cons_self ..))
    have hgrow : head m ≤ head (m + (msg :: msgs).length - 1) := hmono (by simp)
    rw [List.flatten_cons, List.length_append] at hfit ⊢
    rw [List.cons_append, packed, if_neg (by omega), if_pos (by omega),
      ih (fun x hx => hne x (List.mem_cons_of_mem _ hx))]
    · rw [List.length_cons, Nat.add_assoc used, Nat.add_right_comm m 1, Nat.add_assoc m]
    · rw [List.length_cons] at hfit
      rw [Nat.add_right_comm m 1, Nat.add_assoc used]
      exact hfit

/-- More than `bound` units get in exactly when there are more, and the packet has room for them
behind the header of the message with the first unit too many. -/
theorem lt_packed_iff {head : Nat → Nat} (hmono : Monotone head) {n bound : Nat}
    (msgs : List (List α)) {m used : Nat} (hused : used ≤ bound) :
    bound < packed head n m used msgs ↔ bound < used + msgs.flatten.length ∧
      bound + head (m + wholeWithin (bound - used) msgs) < n := by
  induction msgs generalizing m used with
  | nil => simp [packed, hused]
  | cons msg msgs ih =>
    have hgrow : head m ≤ head (m + wholeWithin (bound - used) (msg :: msgs)) :=
      hmono (Nat.le_add_right m _)
    rw [packed, List.flatten_cons, List.length_append]
    by_cases hfull : n ≤ used + head m
    · rw [if_pos hfull]
      omega
    rw [if_neg hfull]
    by_cases hwhole : msg.length ≤ bound - used
    · -- The message ends within the bound, so the first unit too many is in one behind it.
      have hcount : m + wholeWithin (bound - used) (msg :: msgs)
          = m + 1 + wholeWithin (bound - (used + msg.length)) msgs := by
        rw [wholeWithin, if_pos hwhole, Nat.sub_sub]
        omega
      rw [hcount] at hgrow ⊢
      by_cases hfit : used + msg.length + head m ≤ n
      · rw [if_pos hfit, ih (by omega), Nat.add_assoc]
      · rw [if_neg hfit]
        omega
    · -- The first unit too many is in this message.
      have hcount : m + wholeWithin (bound - used) (msg :: msgs) = m := by
        simp [wholeWithin, if_neg hwhole]
      rw [hcount]
      by_cases hfit : used + msg.length + head m ≤ n
      · have hle := le_packed head n (m + 1) (used + msg.length) msgs
        rw [if_pos hfit]
        omega
      · rw [if_neg hfit]
        omega

end SrsUE.Lib
