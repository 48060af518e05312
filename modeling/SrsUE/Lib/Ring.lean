import Mathlib.Algebra.BigOperators.Group.List.Basic
import Mathlib.Data.List.Nodup
import Mathlib.Data.Nat.ModEq
import Mathlib.Tactic.Common

/-!
# `SrsUE.Lib.Ring`: a queue in the slots of a ring

The slots of a ring of `n` are the numbers below `n`, and `slotAt n start i` is the one `i` places
behind `start`. `InRing Used Free n start xs` says that the slots from `start` on hold `xs`, one
after the other, and that the other slots are free. What it means that a slot holds something, or is
free, is left open.

* `slotAt_slotAt`, `slotAt_inj`: places behind a place, and different places.
* `InRing.snoc`, `InRing.tail`: an entry is put behind the last one, and the first one is taken
  away. In both cases the slot that changes is named, and what is said of the others is kept.
* `InRing.sum_eq`: a sum over the slots is one over the entries.
-/

set_option autoImplicit false

namespace SrsUE.Lib

/-! ### Slots -/

/-- The slot `i` places behind `start`. -/
def slotAt (n start i : Nat) : Nat := (start + i) % n

section
variable {n start i j : Nat}

/-- A place of the ring is one of its slots. -/
theorem slotAt_lt (hn : 0 < n) : slotAt n start i < n := Nat.mod_lt _ hn

/-- The first place is the start. -/
theorem slotAt_zero (h : start < n) : slotAt n start 0 = start := Nat.mod_eq_of_lt h

/-- Places are counted on around the ring. -/
theorem slotAt_slotAt : slotAt n (slotAt n start i) j = slotAt n start (i + j) := by
  rw [slotAt, slotAt, Nat.mod_add_mod, Nat.add_assoc, slotAt]

/-- Different places are different slots. -/
theorem slotAt_inj (hi : i < n) (hj : j < n) : slotAt n start i = slotAt n start j ↔ i = j := by
  refine ⟨fun h => ?_, fun h => by rw [h]⟩
  have hmod : i ≡ j [MOD n] := Nat.ModEq.add_left_cancel' start h
  exact hmod.eq_of_lt_of_lt hi hj

/-- Every slot is some places behind `start`. -/
theorem exists_slotAt (hs : start < n) (hj : j < n) : ∃ i, i < n ∧ slotAt n start i = j := by
  rcases Nat.lt_or_ge j start with hlt | hge
  · refine ⟨n - start + j, by omega, ?_⟩
    rw [slotAt, show start + (n - start + j) = n + j by omega, Nat.add_mod_left,
      Nat.mod_eq_of_lt hj]
  · refine ⟨j - start, by omega, ?_⟩
    rw [slotAt, Nat.add_sub_cancel' hge, Nat.mod_eq_of_lt hj]

/-- From any slot on, all slots are there once. -/
theorem perm_slotAt {n start : Nat} (hs : start < n) :
    ((List.range n).map (slotAt n start)).Perm (List.range n) := by
  have hn : 0 < n := Nat.lt_of_le_of_lt (Nat.zero_le start) hs
  have hnodup : ((List.range n).map (slotAt n start)).Nodup :=
    List.Nodup.map_on (fun i hi j hj heq =>
      (slotAt_inj (List.mem_range.mp hi) (List.mem_range.mp hj)).mp heq) List.nodup_range
  refine (List.perm_ext_iff_of_nodup hnodup List.nodup_range).mpr fun j => ?_
  rw [List.mem_map, List.mem_range]
  constructor
  · rintro ⟨i, _, rfl⟩
    exact slotAt_lt hn
  · intro hj
    obtain ⟨i, hi, heq⟩ := exists_slotAt hs hj
    exact ⟨i, List.mem_range.mpr hi, heq⟩

end

/-! ### What the slots hold -/

variable {α : Type}

/-- The slots from `start` on hold the entries, and the others are free. -/
structure InRing (Used : Nat → α → Prop) (Free : Nat → Prop) (n start : Nat) (xs : List α) :
    Prop where
  start_lt : start < n
  length_le : xs.length ≤ n
  used : ∀ i (hi : i < xs.length), Used (slotAt n start i) xs[i]
  free : ∀ i, xs.length ≤ i → i < n → Free (slotAt n start i)

namespace InRing

variable {Used Used' : Nat → α → Prop} {Free Free' : Nat → Prop} {n start : Nat} {x : α}
  {xs : List α}

/-- An empty ring. -/
theorem empty (hs : start < n) (hfree : ∀ k, k < n → Free k) : InRing Used Free n start [] where
  start_lt := hs
  length_le := Nat.zero_le n
  used _ hi := absurd hi (Nat.not_lt_zero _)
  free _ _ _ := hfree _ (slotAt_lt (Nat.lt_of_le_of_lt (Nat.zero_le start) hs))

/-- A ring has slots. -/
theorem pos (h : InRing Used Free n start xs) : 0 < n :=
  Nat.lt_of_le_of_lt (Nat.zero_le start) h.start_lt

/-- The first entry is in the slot `start`. -/
theorem head (h : InRing Used Free n start (x :: xs)) : Used start x := by
  have hused := h.used 0 (Nat.succ_pos _)
  rw [slotAt_zero h.start_lt] at hused
  exact hused

/-- What holds of the slots can be restated. -/
theorem imp (h : InRing Used Free n start xs)
    (hused : ∀ i (hi : i < xs.length), Used (slotAt n start i) xs[i] →
    Used' (slotAt n start i) xs[i])
    (hfree : ∀ i, xs.length ≤ i → i < n → Free (slotAt n start i) → Free' (slotAt n start i)) :
    InRing Used' Free' n start xs where
  start_lt := h.start_lt
  length_le := h.length_le
  used i hi := hused i hi (h.used i hi)
  free i hle hlt := hfree i hle hlt (h.free i hle hlt)

/-- An entry is put into the slot behind the last one. -/
theorem snoc (h : InRing Used Free n start xs) (hroom : xs.length < n)
    (hx : Used' (slotAt n start xs.length) x)
    (hused : ∀ k, k < n → k ≠ slotAt n start xs.length → ∀ y, Used k y → Used' k y)
    (hfree : ∀ k, k < n → k ≠ slotAt n start xs.length → Free k → Free' k) :
    InRing Used' Free' n start (xs ++ [x]) where
  start_lt := h.start_lt
  length_le := by
    rw [List.length_append]
    exact hroom
  used i hi := by
    rw [List.length_append, List.length_singleton] at hi
    rcases Nat.eq_or_lt_of_le (Nat.le_of_lt_succ hi) with rfl | hlt
    · rw [List.getElem_concat_length rfl]
      exact hx
    · rw [List.getElem_append_left hlt]
      refine hused _ (slotAt_lt h.pos) (fun heq => ?_) _ (h.used i hlt)
      have := (slotAt_inj (by omega) hroom).mp heq
      omega
  free i hle hlt := by
    rw [List.length_append, List.length_singleton] at hle
    refine hfree _ (slotAt_lt h.pos) (fun heq => ?_) (h.free i (by omega) hlt)
    have := (slotAt_inj hlt hroom).mp heq
    omega

/-- The first entry is taken away. -/
theorem tail (h : InRing Used Free n start (x :: xs))
    (hused : ∀ k, k < n → k ≠ start → ∀ y, Used k y → Used' k y)
    (hfree : ∀ k, k < n → k ≠ start → Free k → Free' k) (hstart : Free' start) :
    InRing Used' Free' n (slotAt n start 1) xs where
  start_lt := slotAt_lt h.pos
  length_le := Nat.le_of_succ_le h.length_le
  used i hi := by
    have hlen := h.length_le
    rw [List.length_cons] at hlen
    have hused' := h.used (i + 1) (Nat.succ_lt_succ hi)
    rw [slotAt_slotAt, Nat.add_comm 1 i]
    refine hused _ (slotAt_lt h.pos) (fun heq => ?_) _ hused'
    have := (slotAt_inj (by omega) h.pos).mp (heq.trans (slotAt_zero h.start_lt).symm)
    omega
  free i hle hlt := by
    have hlen := h.length_le
    rw [List.length_cons] at hlen
    rw [slotAt_slotAt, Nat.add_comm 1 i]
    rcases Nat.eq_or_lt_of_le (Nat.succ_le_of_lt hlt) with heq | hlt'
    · -- Once around the ring.
      rw [show i + 1 = n from heq, slotAt, Nat.add_mod_right, Nat.mod_eq_of_lt h.start_lt]
      exact hstart
    · refine hfree _ (slotAt_lt h.pos) (fun heq => ?_) (h.free (i + 1) (Nat.succ_le_succ hle) hlt')
      have := (slotAt_inj hlt' h.pos).mp (heq.trans (slotAt_zero h.start_lt).symm)
      omega

/-- A number that belongs to each slot, and is zero if the slot is free, sums up to the numbers of
the entries. -/
theorem sum_eq {g : Nat → Nat} {v : α → Nat} (h : InRing Used Free n start xs)
    (hused : ∀ k x, Used k x → g k = v x) (hfree : ∀ k, Free k → g k = 0) :
    ((List.range n).map g).sum = (xs.map v).sum := by
  have hentries : (List.range xs.length).map (fun i => g (slotAt n start i)) = xs.map v := by
    refine List.ext_getElem (by simp) fun i hi _ => ?_
    rw [List.length_map, List.length_range] at hi
    rw [List.getElem_map, List.getElem_map, List.getElem_range]
    exact hused _ _ (h.used i hi)
  have hrest : ((List.range (n - xs.length)).map fun i => g (slotAt n start (xs.length + i))).sum
      = 0 := by
    refine List.sum_eq_zero fun x hx => ?_
    obtain ⟨i, hi, rfl⟩ := List.mem_map.mp hx
    have hlt := List.mem_range.mp hi
    exact hfree _ (h.free _ (Nat.le_add_right ..) (by omega))
  calc ((List.range n).map g).sum
      = (((List.range n).map (slotAt n start)).map g).sum :=
        ((perm_slotAt h.start_lt).map g).sum_eq.symm
    _ = (((List.range (xs.length + (n - xs.length))).map (slotAt n start)).map g).sum := by
        rw [Nat.add_sub_cancel' h.length_le]
    _ = (xs.map v).sum + 0 := by
        rw [List.range_add, List.map_append, List.map_append, List.sum_append, ← hentries, ← hrest]
        simp only [List.map_map, Function.comp_def]
    _ = (xs.map v).sum := Nat.add_zero _

end InRing

end SrsUE.Lib
